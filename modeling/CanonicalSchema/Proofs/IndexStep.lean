import CanonicalSchema.Proofs.CharacterTexts
import CanonicalSchema.Proofs.StrictIndex
import CanonicalSchema.Schema.Builder

/-!
The index step of a builder against the declaration of the same index as a pair. The step takes
what it is given as the fields apart before a declaration is made of it, so the two agree on every
sequence. A text is no sequence to the declaration, but to the step it is that of its characters.
-/

namespace CanonicalSchema

open Checked

/-! What can be the name of an index, and what a declaration with such a name yields -/

/-- A name may be left out, and any text can be one. -/
def Index.CanBeName (j : Json) : Prop := ∃ name : Option Text, j = .ofOption .str name

theorem Index.canBeName_of_check {name fields : Json} {i : Index}
    (h : check (.obj [("index_name", name), ("index_field_names", fields)]) = accepted i) :
    CanBeName name := by
  obtain ⟨_, hms, -, hname, -, -⟩ := check_eq_accepted_iff.1 h
  cases hms
  rcases defaulted_eq_accepted_iff.1 hname with ⟨j, hj, hc⟩ | ⟨hn, -⟩
  · cases hj
    refine ⟨i.name, ?_⟩
    cases hi : i.name with
    | none =>
      rw [hi] at hc
      cases name with
      | null => rfl
      | _ => cases hc
    | some n =>
      rw [hi] at hc
      exact text_eq_accepted_iff.1 (nullable_eq_some_iff.1 hc).2
  · cases hn

namespace IndexDeclaration

def pair (name fields : Json) : IndexDeclaration := .tuple [name, fields]

variable {depth : Depth}

theorem resolve_pair (name fields : Json) :
    (pair name fields).resolve depth = ofParts name fields := rfl

theorem resolve_pair_items {name fields : Json} {items : List Json}
    (hi : fields.items? = some items) (ht : ∀ s, fields ≠ .str s) :
    (pair name fields).resolve depth = (pair name (.arr items)).resolve depth := by
  cases fields with
  | arr _ =>
    cases hi
    rfl
  | str s => exact absurd rfl (ht s)
  | obj members =>
    cases hi
    cases members <;> rfl
  | _ => cases hi

theorem resolve_pair_texts (depth : Depth) (name : Option Text) (fields : List Text) :
    (pair (.ofOption .str name) (.arr (fields.map .str))).resolve depth = .ok ⟨name, fields⟩ := by
  have hc := Index.check_toJson ⟨name, fields⟩
  unfold Index.toJson at hc
  have hitems : (if (Json.arr (fields.map .str)).isBlank then some []
      else (Json.arr (fields.map .str)).items?) = some (fields.map .str) := by
    cases fields <;> rfl
  rw [resolve_pair]
  unfold ofParts
  simp only [hitems, hc]
  rfl

theorem canBeName_of_resolve {name : Json} {items : List Json} {index : Index}
    (h : (pair name (.arr items)).resolve depth = .ok index) : Index.CanBeName name := by
  rw [resolve_pair] at h
  unfold ofParts at h
  simp only at h
  split at h
  · cases h
  · next items' _ =>
    rw [Except.mapError_eq_ok_iff] at h
    cases hc : Index.check (.obj [("index_name", name), ("index_field_names", .arr items')]) with
    | accepted i => exact Index.canBeName_of_check hc
    | rejected is =>
      rw [hc] at h
      cases h

end IndexDeclaration

namespace Description

variable {d : Description} {depth : Depth} {index : Index} {cause : Malformed}

def withIndex (d : Description) (declaration : IndexDeclaration) : Description :=
  { d with index := declaration }

theorem build_withIndex {i j : IndexDeclaration} (h : i.resolve depth = j.resolve depth) :
    (d.withIndex i).build depth = (d.withIndex j).build depth := by
  unfold build failed checked draft withIndex
  simp only [h]

theorem index_of_build {s : Schema} (hi : d.index.resolve depth = .ok index)
    (h : d.build depth = .ok s) : s.index = index := by
  obtain ⟨index', es, hi', -, hc⟩ := checked_eq_ok_iff.1 (build_eq_ok_iff.1 h).1
  cases hi.symm.trans hi'
  obtain ⟨-, -, -, hindex, -⟩ :=
    Draft.checkAttributes_eq_accepted_iff.1 (Draft.check_eq_ok_iff.1 hc).1
  rw [Draft.normalize_checkIndex] at hindex
  exact (accepted_inj.1 hindex).symm

end Description

namespace Builder

variable {b : Builder} {depth : Depth} {name fields : Json} {items : List Json}

theorem setIndex_items (h : fields.items? = some items) :
    b.setIndex name fields = ({ b with index := some (name, items) }, none) := by
  unfold setIndex
  rw [h]

theorem description_setIndex (h : fields.items? = some items) :
    (b.setIndex name fields).1.description =
      b.description.withIndex (.pair name (.arr items)) := by
  rw [setIndex_items h]
  rfl

theorem name_setIndex : (b.setIndex name fields).1.name = b.name := by
  unfold setIndex
  split <;> rfl

theorem build_setIndex_of_error {cause : Malformed}
    (h : (b.setIndex name fields).1.description.index.resolve depth = .error cause)
    (hc : cause ≠ .unwordable .tooDeep) : (b.setIndex name fields).1.build depth =
      .error (ConstructionFailure.raised ⟨b.name, .malformed cause⟩ depth) := by
  have hname : (b.setIndex name fields).1.name = b.name := name_setIndex
  rw [← hname]
  unfold Builder.build
  rw [Description.build_of_refused (.index h), Description.failed_of_ne_tooDeep hc]
  rfl

/-- The index step and a build after it do what the declaration as a pair does: they refuse an
index where it is refused, and build with the one that it yields otherwise. -/
structure AgreesOnIndex (b : Builder) (depth : Depth) (name fields : Json) : Prop where
  refuses : ∀ cause, (IndexDeclaration.pair name fields).resolve depth = .error cause → ∃ cause',
    (b.setIndex name fields).1.description.index.resolve depth = .error cause' ∧
      (b.setIndex name fields).1.build depth =
        .error (ConstructionFailure.raised ⟨b.name, .malformed cause'⟩ depth)
  yields : ∀ index, (IndexDeclaration.pair name fields).resolve depth = .ok index →
    (b.setIndex name fields).1.build depth =
        (b.description.withIndex (.pair name fields)).build depth ∧
      ∀ s, (b.setIndex name fields).1.build depth = .ok s → s.index = index

theorem agreesOnIndex_of_items (hi : fields.items? = some items) (ht : ∀ s, fields ≠ .str s) :
    b.AgreesOnIndex depth name fields := by
  have hd : (b.setIndex name fields).1.description = _ := description_setIndex hi
  have hr : (b.setIndex name fields).1.description.index.resolve depth =
      (IndexDeclaration.pair name fields).resolve depth := by
    rw [hd, IndexDeclaration.resolve_pair_items hi ht]
    rfl
  constructor
  case refuses =>
    intro cause hc
    rw [hc] at hr
    exact ⟨cause, hr, build_setIndex_of_error hr (IndexDeclaration.ofParts_ne_tooDeep hc)⟩
  case yields =>
    intro index hc
    rw [hc] at hr
    refine ⟨?_, fun s hs => Description.index_of_build hr hs⟩
    unfold Builder.build
    rw [hd]
    exact Description.build_withIndex (IndexDeclaration.resolve_pair_items hi ht).symm

/-! Texts in place of a sequence -/

theorem resolve_text (name : Json) (s : Text) :
    (IndexDeclaration.pair name (.str s)).resolve depth =
      .error (.textAsIndexFields (Quoted.text s)) := rfl

theorem resolve_setIndex_text (n : Option Text) (s : Text) :
    (b.setIndex (.ofOption .str n) (.str s)).1.description.index.resolve depth =
      .ok ⟨n, s.split⟩ := by
  rw [description_setIndex rfl]
  exact IndexDeclaration.resolve_pair_texts depth n s.split

theorem build_setIndex_text (n : Option Text) (s : Text) :
    (b.setIndex (.ofOption .str n) (.str s)).1.build depth =
      (b.description.withIndex (.ready ⟨n, s.split⟩)).build depth := by
  unfold Builder.build
  rw [description_setIndex rfl]
  exact Description.build_withIndex (IndexDeclaration.resolve_pair_texts depth n s.split)

theorem agreesOnIndex_text_iff {s : Text} :
    b.AgreesOnIndex depth name (.str s) ↔ ¬ Index.CanBeName name := by
  constructor
  · rintro h ⟨n, rfl⟩
    obtain ⟨cause, hc, -⟩ := h.refuses _ (resolve_text _ s)
    cases (resolve_setIndex_text n s).symm.trans hc
  · intro hname
    constructor
    case refuses =>
      intro _ _
      -- The declaration refuses the text, the step hands on its characters and the name is refused.
      cases hr : (b.setIndex name (.str s)).1.description.index.resolve depth with
      | ok index =>
        rw [description_setIndex rfl] at hr
        exact absurd (IndexDeclaration.canBeName_of_resolve hr) hname
      | error cause =>
        have hparts : IndexDeclaration.ofParts name (.arr (s.split.map .str)) = .error cause := by
          rwa [description_setIndex rfl] at hr
        have hc := IndexDeclaration.ofParts_ne_tooDeep hparts
        exact ⟨cause, rfl, build_setIndex_of_error hr hc⟩
    case yields =>
      intro _ hc
      cases hc

/-- The index step takes everything that can be gone through. It agrees with the declaration of the
same index unless it is given a text under what can be the name of an index: the declaration refuses
every such text, the step makes an index of its characters. -/
theorem agreesOnIndex_iff (b : Builder) (depth : Depth) (name fields : Json) (items : List Json)
    (h : fields.items? = some items) :
    (b.setIndex name fields).2 = none ∧
      (b.AgreesOnIndex depth name fields ↔ ∀ s, fields = .str s → ¬ Index.CanBeName name) ∧
      ∀ s n, fields = .str s → name = .ofOption .str n →
        (IndexDeclaration.pair name fields).resolve depth =
            .error (.textAsIndexFields (Quoted.text s)) ∧
          (b.setIndex name fields).1.build depth =
            (b.description.withIndex (.ready ⟨n, s.split⟩)).build depth := by
  refine ⟨by rw [setIndex_items h], ?_, ?_⟩
  · constructor
    · rintro hagrees s rfl
      exact agreesOnIndex_text_iff.1 hagrees
    · intro hname
      by_cases ht : ∃ s, fields = .str s
      · obtain ⟨s, rfl⟩ := ht
        exact agreesOnIndex_text_iff.2 (hname s rfl)
      · exact agreesOnIndex_of_items h fun s hs => ht ⟨s, hs⟩
  · rintro s n rfl rfl
    exact ⟨resolve_text _ s, build_setIndex_text n s⟩

def titled : Builder :=
  (start (.str "Post") { Options.standard with strictIndex := true }).addField
    ⟨"title", "title", .string, none, false, false, false, false, none, none⟩

theorem agreesOnIndex_titled :
    (titled.setIndex (.str "byTitle") (.arr [.str "title"])).2 = none ∧
      titled.AgreesOnIndex .standard (.str "byTitle") (.arr [.str "title"]) ∧
      ¬ titled.AgreesOnIndex .standard (.str "byTitle") (.str "title") := by
  obtain ⟨hstep, hagrees, -⟩ :=
    agreesOnIndex_iff titled .standard (.str "byTitle") (.arr [.str "title"]) [.str "title"] rfl
  obtain ⟨-, htext, -⟩ := agreesOnIndex_iff titled .standard (.str "byTitle") (.str "title") _ rfl
  exact ⟨hstep, hagrees.2 nofun, fun h => htext.1 h "title" rfl ⟨some "byTitle", rfl⟩⟩

theorem text_indexed_by_characters :
    (IndexDeclaration.pair (.str "byTitle") (.str "title")).resolve .standard =
        .error (.textAsIndexFields "'title'") ∧
      ((start (.str "Post") .standard).setIndex (.str "byTitle") (.str "title")).1.build
          .standard = .ok ⟨"Post", "Post", [], ⟨some "byTitle", ["t", "i", "t", "l", "e"]⟩⟩ := by
  refine ⟨by decide +kernel, ?_⟩
  exact Description.build_eq_ok_iff.2 ⟨by decide +kernel, nofun⟩

end Builder

end CanonicalSchema
