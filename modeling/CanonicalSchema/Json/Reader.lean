import CanonicalSchema.Json.Token

/-!
Reading a JSON text: one step per token, with the open arrays and objects on a stack that is not
endless. Besides the standard's grammar `NaN`, `Infinity` and `-Infinity` are read. What is wrong is
reported at the first character where no continuation would help.
-/

namespace CanonicalSchema.Json

def isSpace (c : Char) : Bool := c == ' ' || c == '\t' || c == '\n' || c == '\r'

def words : List (String × Json) := [
  ("null", .null),
  ("true", .bool true),
  ("false", .bool false),
  ("NaN", .float .nan),
  ("Infinity", .float (.infinity false)),
  ("-Infinity", .float (.infinity true))]

def afterWord? : (word cs : List Char) → Option (List Char)
  | [], cs => some cs
  | _ :: _, [] => none
  | c :: word, d :: cs => if c = d then afterWord? word cs else none

def scanWord? (cs : List Char) : Option (Json × List Char) :=
  words.findSome? fun w => (afterWord? w.1.toList cs).map fun rest => (w.2, rest)

inductive Opening where
  | scalar (value : Json)
  | container (c : Container)

/-- The start of a value: all of it, unless it is an array or an object. -/
def scanValue (cs : List Char) : Except Stop (Opening × List Char) :=
  match cs with
  | '"' :: rest => (scanString cs [] rest).map fun r => (.scalar (.str r.1), r.2)
  | '[' :: rest => .ok (.container .array, rest)
  | '\x7b' :: rest => .ok (.container .object, rest)
  | _ =>
    match scanWord? cs with
    | some (v, rest) => .ok (.scalar v, rest)
    | none => (scanNumber cs).map fun r => (.scalar r.1, r.2)

/-- An array or object around the value that is being read; elements are in reverse. -/
inductive Frame where
  | array (items : List Json)
  | object (members : Entries Text Json) (key : Text)

inductive Expecting where
  | value
  | elementOrEnd
  | memberOrEnd
  | member (members : Entries Text Json)
  | colon (members : Entries Text Json) (key : Text)
  | endOf (value : Json)

inductive Move where
  | finished (value : Json)
  | go (next : Expecting) (frames : List Frame) (rest : List Char)

def Container.first : Container → Expecting
  | array => .elementOrEnd
  | object => .memberOrEnd

/-- A container takes up a level of the stack. -/
def openValue (depth : Depth) (frames : List Frame) (cs : List Char) : Except Stop Move :=
  match scanValue cs with
  | .error stop => .error stop
  | .ok (.scalar v, rest) => .ok (.go (.endOf v) frames rest)
  | .ok (.container c, rest) =>
    if frames.length < depth.limit then .ok (.go c.first frames rest) else .error (.tooDeep c)

def openMember (members : Entries Text Json) (frames : List Frame) (cs : List Char) :
    Except Stop Move :=
  match cs with
  | '"' :: rest => (scanString cs [] rest).map fun r => .go (.colon members r.1) frames r.2
  | _ => .error (.malformed .noPropertyName cs)

/-- One step on a text without leading white space. -/
def step (depth : Depth) (expecting : Expecting) (frames : List Frame) (cs : List Char) :
    Except Stop Move :=
  match expecting with
  | .value => openValue depth frames cs
  | .elementOrEnd =>
    match cs with
    | ']' :: rest => .ok (.go (.endOf (.arr [])) frames rest)
    | _ => openValue depth (.array [] :: frames) cs
  | .memberOrEnd =>
    match cs with
    | '\x7d' :: rest => .ok (.go (.endOf (.obj [])) frames rest)
    | _ => openMember [] frames cs
  | .member members => openMember members frames cs
  | .colon members key =>
    match cs with
    | ':' :: rest => .ok (.go .value (.object members key :: frames) rest)
    | _ => .error (.malformed .noColon cs)
  | .endOf v =>
    match frames with
    | [] => if cs.isEmpty then .ok (.finished v) else .error (.malformed .extraData cs)
    | .array items :: outer =>
      match cs with
      | ',' :: rest => .ok (.go .value (.array (v :: items) :: outer) rest)
      | ']' :: rest => .ok (.go (.endOf (.arr (v :: items).reverse)) outer rest)
      | _ => .error (.malformed .noComma cs)
    | .object members key :: outer =>
      match cs with
      | ',' :: rest => .ok (.go (.member (members.put key v)) outer rest)
      | '\x7d' :: rest => .ok (.go (.endOf (.obj (members.put key v))) outer rest)
      | _ => .error (.malformed .noComma cs)

/-! Every step uses up a character. -/

theorem afterWord?_eq_some_iff {w cs rest : List Char} :
    afterWord? w cs = some rest ↔ cs = w ++ rest := by
  induction w generalizing cs with
  | nil => simp [afterWord?]
  | cons c w ih =>
    cases cs with
    | nil => simp [afterWord?]
    | cons d cs =>
      by_cases hc : c = d
      · simp [afterWord?, hc, ih]
      · simp [afterWord?, hc, Ne.symm hc]

theorem scanWord?_length {cs : List Char} {r : Json × List Char} (h : scanWord? cs = some r) :
    r.2.length < cs.length := by
  obtain ⟨w, hw, h⟩ := List.exists_of_findSome?_eq_some h
  obtain ⟨rest, hr, rfl⟩ := Option.map_eq_some_iff.1 h
  have hl := congrArg List.length (afterWord?_eq_some_iff.1 hr)
  have hp : 0 < w.1.toList.length := by
    have : ∀ w ∈ words, 0 < w.1.toList.length := by decide
    exact this w hw
  simp only [List.length_append] at hl
  simp only
  omega

theorem scanValue_length {cs : List Char} {r : Opening × List Char} (h : scanValue cs = .ok r) :
    r.2.length < cs.length := by
  unfold scanValue at h
  split at h
  · next rest =>
    cases hs : scanString ('"' :: rest) [] rest with
    | error e => simp [hs, Except.map] at h
    | ok r' =>
      have := scanString_length hs
      simp only [hs, Except.map] at h
      obtain rfl := Except.ok.inj h
      simp only [List.length_cons]
      omega
  · obtain rfl := Except.ok.inj h
    simp
  · obtain rfl := Except.ok.inj h
    simp
  · split at h
    · next hw =>
      obtain rfl := Except.ok.inj h
      exact scanWord?_length hw
    · cases hn : scanNumber cs with
      | error e => simp [hn, Except.map] at h
      | ok r' =>
        simp only [hn, Except.map] at h
        obtain rfl := Except.ok.inj h
        exact scanNumber_length hn

def Move.rest : Move → List Char
  | finished _ => []
  | go _ _ rest => rest

theorem openValue_length {depth : Depth} {frames : List Frame} {cs : List Char} {m : Move}
    (h : openValue depth frames cs = .ok m) : m.rest.length < cs.length := by
  unfold openValue at h
  split at h
  · contradiction
  · next hv =>
    obtain rfl := Except.ok.inj h
    exact scanValue_length hv
  · next hv =>
    split at h
    · obtain rfl := Except.ok.inj h
      exact scanValue_length hv
    · contradiction

theorem openMember_length {members : Entries Text Json} {frames : List Frame} {cs : List Char}
    {m : Move} (h : openMember members frames cs = .ok m) : m.rest.length < cs.length := by
  unfold openMember at h
  split at h
  · next rest =>
    cases hs : scanString ('"' :: rest) [] rest with
    | error e => simp [hs, Except.map] at h
    | ok r =>
      have := scanString_length hs
      simp only [hs, Except.map] at h
      obtain rfl := Except.ok.inj h
      simp only [Move.rest, List.length_cons]
      omega
  · cases h

theorem step_length {depth : Depth} {expecting : Expecting} {frames : List Frame}
    {cs : List Char} {next : Expecting} {frames' : List Frame} {rest : List Char}
    (h : step depth expecting frames cs = .ok (.go next frames' rest)) :
    rest.length < cs.length := by
  unfold step at h
  split at h
  · exact openValue_length h
  · split at h
    · cases h
      simp
    · exact openValue_length h
  · split at h
    · cases h
      simp
    · exact openMember_length h
  · exact openMember_length h
  · split at h
    · cases h
      simp
    · cases h
  · split at h
    · split at h <;> cases h
    all_goals
      split at h <;> cases h <;> simp

def run (depth : Depth) (expecting : Expecting) (frames : List Frame) (text : List Char) :
    Except Stop Json :=
  match _h : step depth expecting frames (text.dropWhile isSpace) with
  | .error stop => .error stop
  | .ok (.finished v) => .ok v
  | .ok (.go next frames' rest) => run depth next frames' rest
termination_by text.length
decreasing_by
  exact Nat.lt_of_lt_of_le (step_length _h) (length_dropWhile_le isSpace text)

def read (depth : Depth) (text : List Char) : Except ReadFailure Json :=
  match text with
  | '\ufeff' :: _ => .error (.malformed .byteOrderMark (Place.ofSuffix text text))
  | _ => (run depth .value [] text).mapError (Stop.located text)

end CanonicalSchema.Json
