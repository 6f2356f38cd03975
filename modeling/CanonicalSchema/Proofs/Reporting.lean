import CanonicalSchema.Proofs.Comparison
import CanonicalSchema.Proofs.Json.StoppedReading
import CanonicalSchema.Proofs.PrintedLines

/-!
What becomes of a file, whatever its bytes are. It is loaded, or a failure of the snapshot is
reported, unless it holds an integer of too many digits, more brackets within brackets than the
stack has room for, or a schema that breaks a rule in words that have no encoding. Without those the
commands come to an exit code, but for a schema that cannot be printed.
-/

namespace CanonicalSchema

namespace Snapshot

def Loads (depth : Depth) (path : Path) (bytes : List UInt8) : Prop :=
  ∃ s, load depth path bytes = .ok s

/-- The file holds a schema, or what is wrong with it is reported. -/
def Reported (depth : Depth) (path : Path) (bytes : List UInt8) : Prop :=
  Loads depth path bytes ∨ ∃ failure, load depth path bytes = .error (.snapshot failure)

/-- What in a file can end a load without a report. -/
inductive Escape (depth : Depth) (bytes : List UInt8) : SnapshotFault → Prop
  | longInteger {cs digits : List Char} (hd : Utf8.decode bytes = .ok cs)
      (hi : Json.LongInteger (Utf8.unifyNewlines cs) digits) :
      Escape depth bytes (.document (.content (.longInteger digits.length)))
  | tooDeep {cs : List Char} {c : Json.Container} (hd : Utf8.decode bytes = .ok cs)
      (hc : Json.DeepContainer depth (Utf8.unifyNewlines cs) c) :
      Escape depth bytes (.document (.content (.tooDeep c)))
  | unencodable {j : Json} {rule : Rule} {message : Unencodable}
      (hj : Json.ofBytes depth bytes = .ok j) (hr : Schema.Breaks j rule)
      (hm : rule.message.encodable = .error message) :
      Escape depth bytes (.schema (.unencodable message))

/-- A file without such a thing. -/
structure Ordinary (depth : Depth) (bytes : List UInt8) : Prop where
  noLongInteger : ∀ cs digits, Utf8.decode bytes = .ok cs →
    ¬ Json.LongInteger (Utf8.unifyNewlines cs) digits
  noDeepContainer : ∀ cs c, Utf8.decode bytes = .ok cs →
    ¬ Json.DeepContainer depth (Utf8.unifyNewlines cs) c
  rules : ∀ j rule, Json.ofBytes depth bytes = .ok j → Schema.Breaks j rule →
    rule.message.OfCharacters

variable {depth : Depth} {path : Path} {bytes : List UInt8} {name : Text} {fault : SnapshotFault}

theorem reported_of_handled (h : load depth path bytes = .error (.ofFault path name fault))
    (hh : fault.faultClass.isHandledBy fault.handled = true) : Reported depth path bytes := by
  unfold LoadFailure.ofFault at h
  rw [if_pos hh] at h
  exact Or.inr ⟨_, h⟩

theorem reported_or_escape (depth : Depth) (path : Path) (bytes : List UInt8) :
    Reported depth path bytes ∨
      ∃ fault, Escape depth bytes fault ∧ load depth path bytes = .error (.escaped fault) := by
  cases hj : Json.ofBytes depth bytes with
  | error document =>
    have hload : load depth path bytes =
        .error (.ofFault path path.stem (.document document)) := by
      unfold load
      rw [hj]
    cases document with
    | encoding flaw => exact Or.inl (reported_of_handled hload rfl)
    | content failure =>
      obtain ⟨cs, hd, hread⟩ := Json.read_of_ofBytes hj
      obtain hclass | ⟨digits, rfl, hi⟩ | ⟨c, rfl, hc⟩ := Json.failure_of_read hread
      · refine Or.inl (reported_of_handled hload ?_)
        rw [SnapshotFault.faultClass, Json.DocumentFault.faultClass, hclass]
        rfl
      · exact Or.inr ⟨_, .longInteger hd hi, hload⟩
      · exact Or.inr ⟨_, .tooDeep hd hc, hload⟩
  | ok j =>
    cases hs : Schema.ofJson j with
    | ok s =>
      refine Or.inl (Or.inl ⟨s, ?_⟩)
      unfold load
      simp only [hj, hs]
      rfl
    | error fault =>
      have hload : load depth path bytes =
          .error (.ofFault path (modelName path j) (.schema fault)) := by
        unfold load
        simp only [hj, hs]
        rfl
      obtain ⟨rejection, rfl⟩ | ⟨rule, message, hr, hm, rfl⟩ := Schema.ofJson_error_cases hs
      · exact Or.inl (reported_of_handled hload rfl)
      · exact Or.inr ⟨_, .unencodable hj hr hm, hload⟩

theorem Ordinary.not_escape (h : Ordinary depth bytes) : ¬ Escape depth bytes fault := by
  intro he
  cases he with
  | longInteger hd hi => exact h.noLongInteger _ _ hd hi
  | tooDeep hd hc => exact h.noDeepContainer _ _ hd hc
  | unencodable hj hr hm =>
    obtain ⟨words, hw⟩ := (h.rules _ _ hj hr).encodable
    cases hw.symm.trans hm

theorem Ordinary.reported (h : Ordinary depth bytes) (path : Path) : Reported depth path bytes :=
  (reported_or_escape depth path bytes).resolve_right fun ⟨_, he, _⟩ => h.not_escape he

theorem not_reported_of_escaped (h : load depth path bytes = .error (.escaped fault)) :
    ¬ Reported depth path bytes := by
  rintro (⟨s, hs⟩ | ⟨failure, hs⟩)
  · cases h.symm.trans hs
  · cases h.symm.trans hs

/-! Short files -/

/-- A text that is shorter than a long integer and than the stack is deep stops no reader. -/
theorem ordinary_of_length {cs : List Char} (hd : Utf8.decode bytes = .ok cs)
    (hi : (Utf8.unifyNewlines cs).length ≤ Json.integerLimit)
    (hl : (Utf8.unifyNewlines cs).length ≤ depth.limit)
    (hr : ∀ j, Json.ofBytes depth bytes = .ok j → j.OfCharacters) : Ordinary depth bytes where
  noLongInteger cs' digits hd' hlong := by
    cases hd.symm.trans hd'
    have hlt := hlong.lt_length
    omega
  noDeepContainer cs' c hd' hdeep := by
    cases hd.symm.trans hd'
    have hlt := hdeep.lt_length
    omega
  rules j rule hj hrule := hrule.ofCharacters (hr j hj)

end Snapshot

namespace Command

variable {depth : Depth} {files : Files} {p q : Path} {bytes bytes' : List UInt8} {s : Schema}

/-! Loading a file that is there -/

theorem load_of_reported (hf : files p = .ok (some bytes)) (h : Snapshot.Reported depth p bytes) :
    (∃ s, Snapshot.load depth p bytes = .ok s ∧ load depth files p = .ok s) ∨
      ¬ Snapshot.Loads depth p bytes ∧
        ∃ line, load depth files p = .error (.report (.failed line)) := by
  rcases h with ⟨s, hs⟩ | ⟨failure, hs⟩
  · exact Or.inl ⟨s, hs, load_of_file hf hs⟩
  · refine Or.inr ⟨?_, "Invalid schema snapshot: " ++ failure.message, ?_⟩
    · rintro ⟨s, hs'⟩
      rw [hs] at hs'
      contradiction
    · unfold load
      simp only [hf, hs]

theorem load_of_escaped {fault : SnapshotFault} (hf : files p = .ok (some bytes))
    (h : Snapshot.load depth p bytes = .error (.escaped fault)) :
    load depth files p = .error (.fault (.snapshot fault)) := by
  unfold load
  simp only [hf, h]

/-! Reports -/

theorem report_inspect (depth : Depth) (p : Path) :
    (inspect p).report depth files = (load depth files p).map .ofSchema := by
  cases h : load depth files p <;> simp only [report, h] <;> rfl

theorem report_compare_error {stop : Interruption} (h : load depth files p = .error stop)
    (q : Path) : (compare p q).report depth files = .error stop := by
  simp only [report, h]
  rfl

theorem report_compare_error_right {stop : Interruption} (h : load depth files p = .ok s)
    (h' : load depth files q = .error stop) : (compare p q).report depth files = .error stop := by
  simp only [report, h, h']
  rfl

/-! Runs -/

/-- The command comes to an exit code: to 1 where the files are not readable, and otherwise to one
of its own. -/
def Exits (c : Command) (depth : Depth) (files : Files) (readable : Prop) (codes : List Nat) :
    Prop :=
  ∃ out, c.run depth files = .ok out ∧
    (readable ∧ out.exitCode ∈ codes ∨ ¬ readable ∧ out.exitCode = 1)

variable {c : Command} {readable : Prop} {codes : List Nat}

theorem exits_of_failed {line : Text} (h : c.report depth files = .error (.report (.failed line)))
    (hn : ¬ readable) : c.Exits depth files readable codes := by
  have hrun : c.run depth files = (Report.failed line).output.mapError .unencodable := by
    unfold run
    rw [h]
  exact ⟨_, hrun, Or.inr ⟨hn, rfl⟩⟩

theorem run_of_fault {fault : CommandFault} (h : c.report depth files = .error (.fault fault)) :
    c.run depth files = .error fault := by
  unfold run
  rw [h]

theorem run_inspect (h : load depth files p = .ok s) :
    (inspect p).run depth files = (Report.ofSchema s).output.mapError .unencodable := by
  unfold run
  rw [report_inspect, h]
  rfl

theorem exits_inspect_iff (hf : files p = .ok (some bytes)) (h : Snapshot.Reported depth p bytes) :
    (inspect p).Exits depth files (Snapshot.Loads depth p bytes) [0] ↔
      ∀ s, Snapshot.load depth p bytes = .ok s →
        ∀ line ∈ (Report.ofSchema s).out, line.OfCharacters := by
  rcases load_of_reported hf h with ⟨s, hs, hl⟩ | ⟨hn, line, hl⟩
  · constructor
    · rintro ⟨out, hout, -⟩ t ht
      cases hs.symm.trans ht
      rw [run_inspect hl, Except.mapError_eq_ok_iff] at hout
      exact Report.output_isOk_iff.1 ⟨out, hout⟩
    · intro hc
      have hrun := run_inspect hl
      rw [Report.output_eq (hc s hs)] at hrun
      exact ⟨_, hrun, Or.inl ⟨⟨s, hs⟩, List.mem_singleton_self 0⟩⟩
  · refine iff_of_true (exits_of_failed (by rw [report_inspect, hl]; rfl) hn) fun s hs => ?_
    exact absurd ⟨s, hs⟩ hn

theorem exits_compare (hf : files p = .ok (some bytes)) (h : Snapshot.Reported depth p bytes)
    (hf' : files q = .ok (some bytes')) (h' : Snapshot.Reported depth q bytes') :
    (compare p q).Exits depth files (Snapshot.Loads depth p bytes ∧ Snapshot.Loads depth q bytes')
      [0, 2] := by
  rcases load_of_reported hf h with ⟨s, hs, hl⟩ | ⟨hn, line, hl⟩
  -- The second file is looked at only where the first one is loaded.
  · rcases load_of_reported hf' h' with ⟨t, ht, hl'⟩ | ⟨hn, line, hl'⟩
    · have hboth : Snapshot.Loads depth p bytes ∧ Snapshot.Loads depth q bytes' := ⟨⟨s, hs⟩, t, ht⟩
      rcases run_compare_cases hl hl' with ⟨-, stdout, hout⟩ | ⟨-, hout⟩
      · exact ⟨_, hout, Or.inl ⟨hboth, by simp⟩⟩
      · exact ⟨_, hout, Or.inl ⟨hboth, by simp⟩⟩
    · exact exits_of_failed (report_compare_error_right hl hl') fun hboth => hn hboth.2
  · exact exits_of_failed (report_compare_error hl q) fun hboth => hn hboth.1

theorem run_of_escaped {fault : SnapshotFault} (hf : files p = .ok (some bytes))
    (h : Snapshot.load depth p bytes = .error (.escaped fault)) :
    (inspect p).run depth files = .error (.snapshot fault) ∧
      ∀ q, (compare p q).run depth files = .error (.snapshot fault) := by
  have hl := load_of_escaped hf h
  exact ⟨run_of_fault (by rw [report_inspect, hl]; rfl),
    fun q => run_of_fault (report_compare_error hl q)⟩

/-- Whatever a file holds, it is loaded or a failure is reported, or else the commands end without a
report at one of the things that an ordinary file does not hold. The comparison of ordinary files
comes to an exit code, which is 1 exactly where one of them holds no schema. To show a file comes to
an exit code exactly where what would be printed is made of characters. -/
theorem reports_ordinary_files (hf : files p = .ok (some bytes)) (depth : Depth) :
    (Snapshot.Reported depth p bytes ∨
        ∃ fault, Snapshot.Escape depth bytes fault ∧
          Snapshot.load depth p bytes = .error (.escaped fault) ∧
          (inspect p).run depth files = .error (.snapshot fault) ∧
          ∀ q, (compare p q).run depth files = .error (.snapshot fault)) ∧
      (Snapshot.Ordinary depth bytes → Snapshot.Reported depth p bytes ∧
        ∀ q bytes', files q = .ok (some bytes') → Snapshot.Ordinary depth bytes' →
          (compare p q).Exits depth files
            (Snapshot.Loads depth p bytes ∧ Snapshot.Loads depth q bytes') [0, 2]) ∧
      (Snapshot.Reported depth p bytes →
        ((inspect p).Exits depth files (Snapshot.Loads depth p bytes) [0] ↔
          ∀ s, Snapshot.load depth p bytes = .ok s →
            ∀ line ∈ (Report.ofSchema s).out, line.OfCharacters)) := by
  refine ⟨?_, fun h => ⟨h.reported p, fun q bytes' hf' h' =>
    exits_compare hf (h.reported p) hf' (h'.reported q)⟩, exits_inspect_iff hf⟩
  refine (Snapshot.reported_or_escape depth p bytes).imp_right ?_
  rintro ⟨fault, he, hload⟩
  exact ⟨fault, he, hload, run_of_escaped hf hload⟩

/-- A key that is a surrogate cannot be put into the words of the rule that it breaks. -/
example : (inspect ⟨false, ["m.json"]⟩).run .standard (fun _ =>
    .ok (some (Utf8.encode (String.join ["\x7b\"name\": \"M\", \"fields\": \x7b\"\\ud800\": ",
    "\x7b\"name\": \"a\", \"declared_type\": \"id\"\x7d\x7d\x7d"])))) =
    .error (.snapshot (.schema (.unencodable ⟨20, [.surrogate 0]⟩))) := by
  decide +kernel

/-! An empty file and a snapshot -/

def emptyPath : Path := ⟨false, ["empty.json"]⟩

def filesWithEmpty : Files := fun p =>
  .ok (some (if p = emptyPath then [] else Snapshot.bytes (Difference.bare "Post")))

theorem filesWithEmpty_empty : filesWithEmpty emptyPath = .ok (some []) := by
  unfold filesWithEmpty
  rw [if_pos rfl]

theorem filesWithEmpty_new :
    filesWithEmpty Difference.newPath = .ok (some (Snapshot.bytes (Difference.bare "Post"))) := by
  unfold filesWithEmpty
  rw [if_neg (by decide)]

theorem ofBytes_nil (depth : Depth) (j : Json) : Json.ofBytes depth [] ≠ .ok j := by
  have hread : Json.read depth [] = .error (.malformed .noValue ⟨1, 1, 0⟩) := by
    unfold Json.read
    simp only [Json.run_eq]
    rfl
  have hb : Json.ofBytes depth [] = (Json.read depth []).mapError .content := rfl
  rw [hb, hread]
  exact nofun

theorem not_loads_nil (depth : Depth) (path : Path) : ¬ Snapshot.Loads depth path [] := by
  rintro ⟨s, h⟩
  obtain ⟨j, hj, -⟩ := Snapshot.ofJson_of_load h
  exact ofBytes_nil depth j hj

theorem ordinary_nil (depth : Depth) : Snapshot.Ordinary depth [] :=
  Snapshot.ordinary_of_length rfl (Nat.zero_le _) (Nat.zero_le _)
    fun j hj => absurd hj (ofBytes_nil depth j)

theorem ordinary_bare : Snapshot.Ordinary .standard (Snapshot.bytes (Difference.bare "Post")) := by
  refine Snapshot.ordinary_of_length (Utf8.decode_encode _) (by decide +kernel) (by decide +kernel)
    fun j hj => ?_
  have hread : Json.ofBytes .standard (Snapshot.bytes (Difference.bare "Post")) = _ :=
    Snapshot.ofBytes_bytes (Difference.bare_wellFormed "Post").keys_nodup
      (Difference.bare_ofCharacters "Post") (Difference.bare_hasShortLimits "Post")
  cases hread.symm.trans hj
  exact Difference.bare_ofCharacters "Post"

theorem reports_ordinary_files_empty :
    filesWithEmpty emptyPath = .ok (some []) ∧
      (∃ out, (inspect emptyPath).run .standard filesWithEmpty = .ok out ∧ out.exitCode = 1) ∧
      ∃ out, (compare emptyPath Difference.newPath).run .standard filesWithEmpty = .ok out ∧
        out.exitCode = 1 := by
  obtain ⟨-, hordinary, hshow⟩ := reports_ordinary_files filesWithEmpty_empty .standard
  obtain ⟨hreported, hcompare⟩ := hordinary (ordinary_nil _)
  have hn := not_loads_nil .standard emptyPath
  obtain ⟨out, hout, hcode⟩ := (hshow hreported).2 fun s hs => absurd ⟨s, hs⟩ hn
  obtain ⟨out', hout', hcode'⟩ := hcompare _ _ filesWithEmpty_new ordinary_bare
  exact ⟨filesWithEmpty_empty, ⟨out, hout, (hcode.resolve_left fun hl => hn hl.1).2⟩,
    out', hout', (hcode'.resolve_left fun hl => hn hl.1.1).2⟩

/-! A number of too many digits -/

theorem load_of_longNumeral {text : List Char} (h : Json.LongNumeral text) (depth : Depth)
    (path : Path) : Snapshot.load depth path (Utf8.encode (String.ofList text)) =
      .error (.escaped (.document (.content (.longInteger text.length)))) := by
  unfold Snapshot.load
  rw [Json.ofBytes_of_longNumeral h]
  rfl

theorem longNumeral_ones {n : Nat} (h : Json.integerLimit < n) :
    Json.LongNumeral (List.replicate n '1') := by
  have hone : ∀ c ∈ List.replicate n '1', c = '1' := fun c hc => List.eq_of_mem_replicate hc
  constructor
  case areDigits =>
    intro c hc
    rw [hone c hc]
    rfl
  case long =>
    rw [List.length_replicate]
    exact h
  case noZero =>
    intro hz
    exact absurd (hone '0' (List.mem_of_mem_head? hz)) (by decide)

def longNumberPath : Path := ⟨false, ["s.json"]⟩

def longNumberBytes : List UInt8 := Utf8.encode (String.ofList (List.replicate 4301 '1'))

def filesWithLongNumber : Files := fun _ => .ok (some longNumberBytes)

theorem long_number_unreported :
    filesWithLongNumber longNumberPath = .ok (some longNumberBytes) ∧
      ¬ Snapshot.Reported .standard longNumberPath longNumberBytes ∧
      (inspect longNumberPath).run .standard filesWithLongNumber =
        .error (.snapshot (.document (.content (.longInteger 4301)))) ∧
      (compare longNumberPath longNumberPath).run .standard filesWithLongNumber =
        .error (.snapshot (.document (.content (.longInteger 4301)))) := by
  have hlong := longNumeral_ones (show Json.integerLimit < 4301 by decide)
  have hload := load_of_longNumeral hlong .standard longNumberPath
  rw [List.length_replicate] at hload
  have hf : filesWithLongNumber longNumberPath = .ok (some longNumberBytes) := rfl
  obtain ⟨hinspect, hcompare⟩ := run_of_escaped hf hload
  exact ⟨hf, Snapshot.not_reported_of_escaped hload, hinspect, hcompare longNumberPath⟩

/-! Brackets within brackets -/

/-- However deep the stack is, a file of brackets that are opened and not closed goes deeper. -/
theorem brackets_unreported (depth : Depth) {n : Nat} (h : depth.limit < n)
    (hf : files p = .ok (some (Utf8.encode (String.ofList (List.replicate n '['))))) :
    (inspect p).run depth files = .error (.snapshot (.document (.content (.tooDeep .array)))) ∧
      ∀ q, (compare p q).run depth files =
        .error (.snapshot (.document (.content (.tooDeep .array)))) := by
  refine run_of_escaped hf ?_
  unfold Snapshot.load
  rw [Json.ofBytes_of_brackets h]
  rfl

end Command

end CanonicalSchema
