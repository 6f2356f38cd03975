import CanonicalSchema.Proofs.NormalSchema
import CanonicalSchema.Proofs.Wording

/-!
What becomes of a description that is refused. It is refused at the first stage that finds a fault.
All that the stages find is made a failure with the name that was given, but for one thing: that the
stack is used up where an index is put into words. A failure in turn is made only if there are words
for the name.
-/

namespace CanonicalSchema

/-- What a declaration consists of, unless it is a ready index. -/
def IndexDeclaration.json : IndexDeclaration → Json
  | absent => .null
  | ready _ => .null
  | tuple items => .arr items
  | value j => j

namespace IndexDeclaration

variable {depth : Depth}

theorem ofParts_ne_tooDeep {name fields : Json} {cause : Malformed}
    (h : ofParts name fields = .error cause) : cause ≠ .unwordable .tooDeep := by
  unfold ofParts at h
  split at h
  · cases h
    nofun
  · split at h
    · cases h
      nofun
    · obtain ⟨_, -, rfl⟩ := Except.mapError_eq_error_iff.1 h
      nofun

theorem not_levelsWithin_of_unsupported {j : Json} {literal : String}
    (h : unsupported depth j literal = .unwordable .tooDeep) : ¬ j.LevelsWithin depth.limit := by
  unfold unsupported at h
  split at h
  · cases h
  · next fault hf =>
    cases h
    exact Json.not_levelsWithin_of_tooDeep hf

theorem not_levelsWithin_of_resolve {i : IndexDeclaration}
    (h : i.resolve depth = .error (.unwordable .tooDeep)) : ¬ i.json.LevelsWithin depth.limit := by
  unfold resolve at h
  split at h
  · cases h
  · cases h
  · exact absurd rfl (ofParts_ne_tooDeep h)
  · exact not_levelsWithin_of_unsupported (Except.error.inj h)
  · cases h
  · exact absurd rfl (ofParts_ne_tooDeep h)
  · exact not_levelsWithin_of_unsupported (Except.error.inj h)

end IndexDeclaration

theorem Table.faultClass_of_pair {position : Nat} {j : Json} {cause : Malformed}
    (h : pair position j = .error cause) :
    cause.faultClass = .type ∨ cause.faultClass = .value := by
  unfold pair at h
  split at h
  · cases h
    exact Or.inl rfl
  · split at h
    · cases h
    · cases h
      exact Or.inl rfl
  · cases h
    exact Or.inr rfl

theorem Table.faultClass_of_pairs {position : Nat} {js : List Json} {cause : Malformed}
    (h : (pairs position js).2 = some cause) :
    cause.faultClass = .type ∨ cause.faultClass = .value := by
  induction js generalizing position with
  | nil => cases h
  | cons j js ih =>
    unfold pairs at h
    split at h
    · next hp =>
      cases h
      exact faultClass_of_pair hp
    · exact ih h

theorem Table.faultClass_of_read {j : Json} {cause : Malformed} (h : read j = .error cause) :
    cause.faultClass = .type ∨ cause.faultClass = .value := by
  have hreadable : (readable j).2 = some cause := by
    unfold read at h
    split at h
    · next heq =>
      cases h
      rw [heq]
    · cases h
  unfold readable at hreadable
  split at hreadable
  · cases hreadable
  · split at hreadable
    · exact faultClass_of_pairs hreadable
    · cases hreadable
      exact Or.inl rfl

theorem Malformed.isHandled_iff {cause : Malformed} :
    cause.faultClass.isHandledBy Description.handled = true ↔ cause ≠ .unwordable .tooDeep := by
  cases cause with
  | unwordable fault =>
    cases fault with
    | longInteger => exact ⟨fun _ => nofun, fun _ => rfl⟩
    | tooDeep => exact ⟨fun h => absurd h (by decide), fun h => absurd rfl h⟩
  | _ => exact ⟨fun _ => nofun, fun _ => rfl⟩

namespace ConstructionFailure

variable {f : ConstructionFailure} {depth : Depth}

theorem raised_of_wordable (h : f.modelName.IsWordable depth) : f.raised depth = .failure f := by
  unfold raised message Json.inWords
  rw [Json.wordingFault?_eq_none_iff.2 h]
  rfl

theorem raised_of_not_wordable (h : ¬ f.modelName.IsWordable depth) :
    ∃ fault, f.raised depth = .escaped (.unwordable fault) := by
  unfold raised message Json.inWords
  cases hf : f.modelName.wordingFault? depth with
  | none => exact absurd (Json.wordingFault?_eq_none_iff.1 hf) h
  | some fault => exact ⟨fault, rfl⟩

end ConstructionFailure

namespace Description

variable {d : Description} {depth : Depth} {s : Schema} {cause : Malformed}

/-- The first stage at which a description is refused, and why. -/
inductive Refused (d : Description) (depth : Depth) : Malformed → Prop
  | index {cause : Malformed} (h : d.index.resolve depth = .error cause) : Refused d depth cause
  | table {index : Index} {cause : Malformed} (hi : d.index.resolve depth = .ok index)
      (h : d.fields.read = .error cause) : Refused d depth cause
  | schema {index : Index} {es : Entries Key FieldSource} {fault : SchemaFault}
      (hi : d.index.resolve depth = .ok index) (hf : d.fields.read = .ok es)
      (h : (d.draftOf index es).check = .error fault) : Refused d depth (.ofSchemaFault fault)

/-- What is put into words has words: the name, and an index that is refused. -/
structure Wordable (d : Description) (depth : Depth) : Prop where
  name : d.name.IsWordable depth
  index : d.index.json.LevelsWithin depth.limit

/-- The name and what the index is declared with are read from texts. -/
structure IsRead (d : Description) (reading : Depth) : Prop where
  name : ∃ text, Json.read reading text = .ok d.name
  index : ∃ text, Json.read reading text = .ok d.index.json

theorem IsRead.wordable {reading : Depth} (h : d.IsRead reading)
    (hroom : reading.limit < depth.limit) : d.Wordable depth := by
  obtain ⟨⟨_, hname⟩, _, hindex⟩ := h
  exact ⟨Json.isWordable_of_read hroom hname, (Json.isWordable_of_read hroom hindex).levels⟩

theorem checked_eq_error_iff : d.checked depth = .error cause ↔ d.Refused depth cause := by
  have hc : d.checked depth = d.index.resolve depth >>= fun index => d.fields.read >>= fun es =>
      (d.draftOf index es).check.mapError .ofSchemaFault := by
    unfold checked draft
    cases d.index.resolve depth with
    | error e => rfl
    | ok index => cases d.fields.read <;> rfl
  simp only [hc, Except.bind_eq_error_iff, Except.mapError_eq_error_iff]
  constructor
  · rintro (h | ⟨index, hi, h | ⟨es, hf, fault, h, rfl⟩⟩)
    · exact .index h
    · exact .table hi h
    · exact .schema hi hf h
  · rintro (h | ⟨hi, h⟩ | ⟨hi, hf, h⟩)
    · exact Or.inl h
    · exact Or.inr ⟨_, hi, Or.inl h⟩
    · exact Or.inr ⟨_, hi, Or.inr ⟨_, hf, _, h, rfl⟩⟩

theorem name_of_checked (h : d.checked depth = .ok s) : d.name = .str (.ofString s.name) := by
  obtain ⟨index, es, -, -, hc⟩ := checked_eq_ok_iff.1 h
  obtain ⟨hname, -⟩ := Draft.checkAttributes_eq_accepted_iff.1 (Draft.check_eq_ok_iff.1 hc).1
  rw [Draft.checkName_eq_accepted_iff, Draft.normalize_name] at hname
  exact Option.some.inj hname.1

theorem wordable_of_checked (h : d.checked depth = .ok s) : d.name.IsWordable depth := by
  rw [name_of_checked h]
  exact Json.isWordable_str _

theorem Wordable.ne_tooDeep (hw : d.Wordable depth) (h : d.Refused depth cause) :
    cause ≠ .unwordable .tooDeep := by
  cases h with
  | index h =>
    rintro rfl
    exact IndexDeclaration.not_levelsWithin_of_resolve h hw.index
  | table _ h =>
    rintro rfl
    unfold FieldMaterial.read at h
    split at h
    · rcases Table.faultClass_of_read (Except.map_eq_error_iff.1 h) with hc | hc <;> cases hc
    · cases h
  | @schema _ _ fault => cases fault <;> nofun

/-! Builds -/

theorem build_of_refused (h : d.Refused depth cause) :
    d.build depth = .error (d.failed depth cause) := by
  unfold build
  rw [checked_eq_error_iff.2 h]

theorem failed_of_ne_tooDeep (hc : cause ≠ .unwordable .tooDeep) :
    d.failed depth cause = ConstructionFailure.raised ⟨d.name, .malformed cause⟩ depth := by
  unfold failed
  rw [if_pos (Malformed.isHandled_iff.2 hc)]

theorem failed_of_wordable (hn : d.name.IsWordable depth) (hc : cause ≠ .unwordable .tooDeep) :
    d.failed depth cause = .failure ⟨d.name, .malformed cause⟩ := by
  rw [failed_of_ne_tooDeep hc]
  exact ConstructionFailure.raised_of_wordable hn

theorem failed_escapes_iff : (∃ cause', d.failed depth cause = .escaped cause') ↔
    cause = .unwordable .tooDeep ∨ ¬ d.name.IsWordable depth := by
  constructor
  · rintro ⟨cause', h⟩
    by_cases hc : cause = .unwordable .tooDeep
    · exact Or.inl hc
    · refine Or.inr fun hn => ?_
      rw [failed_of_wordable hn hc] at h
      cases h
  · intro h
    unfold failed
    split
    · next hc =>
      obtain ⟨fault, hf⟩ := ConstructionFailure.raised_of_not_wordable
        (f := ⟨d.name, .malformed cause⟩) (h.resolve_left (Malformed.isHandled_iff.1 hc))
      exact ⟨_, hf⟩
    · exact ⟨cause, rfl⟩

theorem build_of_checked (h : d.checked depth = .ok s) :
    d.build depth = .ok s ∨
      d.build depth =
        .error (.failure ⟨d.name, .unknownIndexFields s.index.name (unknownIndexFields s)⟩) := by
  have hraised := ConstructionFailure.raised_of_wordable (wordable_of_checked h)
    (f := ⟨d.name, .unknownIndexFields s.index.name (unknownIndexFields s)⟩)
  unfold build
  rw [h]
  simp only
  split
  · rw [hraised]
    exact Or.inr rfl
  · exact Or.inl rfl

theorem build_malformed_iff (hw : d.Wordable depth) :
    d.build depth = .error (.failure ⟨d.name, .malformed cause⟩) ↔ d.Refused depth cause := by
  constructor
  · intro h
    cases hc : d.checked depth with
    | ok s =>
      rcases build_of_checked hc with hb | hb <;> rw [hb] at h <;> cases h
    | error cause' =>
      have hr := checked_eq_error_iff.1 hc
      rw [build_of_refused hr, failed_of_wordable hw.name (hw.ne_tooDeep hr)] at h
      cases h
      exact hr
  · intro hr
    rw [build_of_refused hr, failed_of_wordable hw.name (hw.ne_tooDeep hr)]

theorem build_ok_or_failure (hw : d.Wordable depth) :
    (∃ s, d.build depth = .ok s) ∨ ∃ fault, d.build depth = .error (.failure ⟨d.name, fault⟩) := by
  cases hc : d.checked depth with
  | ok s => exact (build_of_checked hc).imp (fun hb => ⟨s, hb⟩) fun hb => ⟨_, hb⟩
  | error cause => exact Or.inr ⟨_, (build_malformed_iff hw).2 (checked_eq_error_iff.1 hc)⟩

/-- What escapes a build does so for want of words, for the index or for the name of a model that
is refused. -/
theorem build_escapes_iff : (∃ cause, d.build depth = .error (.escaped cause)) ↔
    ∃ cause, d.Refused depth cause ∧
      (cause = .unwordable .tooDeep ∨ ¬ d.name.IsWordable depth) := by
  constructor
  · rintro ⟨cause', h⟩
    cases hc : d.checked depth with
    | ok s =>
      rcases build_of_checked hc with hb | hb <;> rw [hb] at h <;> cases h
    | error cause =>
      have hr := checked_eq_error_iff.1 hc
      rw [build_of_refused hr] at h
      exact ⟨cause, hr, failed_escapes_iff.1 ⟨cause', Except.error.inj h⟩⟩
  · rintro ⟨cause, hr, hwords⟩
    obtain ⟨cause', h⟩ := failed_escapes_iff.2 hwords
    exact ⟨cause', by rw [build_of_refused hr, h]⟩

end Description

end CanonicalSchema
