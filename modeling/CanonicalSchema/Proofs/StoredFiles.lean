import CanonicalSchema.Proofs.Entries
import CanonicalSchema.Storage.FileTree

/-!
A file that has been saved is read as it was saved, also after another one has been saved. Making
directories leaves everything there, and writing changes one node, which is no directory; a path
leads through directories only, so it leads where it did before.
-/

namespace CanonicalSchema.FileTree

variable {t t' : FileTree} {p : Path} {l m : Location} {bytes : List UInt8}

/-- The tree with one file more, or with another content of it. -/
def withFile (t : FileTree) (l : Location) (bytes : List UInt8) : FileTree :=
  { t with files := t.files.put l bytes }

theorem node?_withFile_of_ne (h : m ≠ l) : (t.withFile l bytes).node? m = t.node? m := by
  unfold node? withFile
  rw [Entries.get?_put_of_ne t.files bytes h]

theorem node?_withFile_self (h : l.names ≠ []) :
    (t.withFile l bytes).node? l = some (.file bytes) := by
  unfold node? withFile
  rw [if_neg (by simpa using h), Entries.get?_put_self]

theorem names_ne_nil (h : t.node? l ≠ some .directory) : l.names ≠ [] := by
  intro hn
  apply h
  unfold node?
  rw [if_pos (by simpa using hn)]

theorem enter_eq_ok_iff {part : String} :
    t.enter m part = .ok l ↔ t.node? m = some .directory ∧ Path.isLongName part = false ∧
      l = if part = ".." then m.parent else m.child part := by
  unfold enter
  split
  · next h => simp [h]
  · next h => simp [h]
  · next h =>
    cases Path.isLongName part with
    | true => simp
    | false => simp [h, eq_comm]

/-! Directories that are still there -/

def KeepsDirectories (t t' : FileTree) : Prop :=
  ∀ l, t.node? l = some .directory → t'.node? l = some .directory

theorem keepsDirectories_withFile (hl : t.node? l ≠ some .directory) :
    t.KeepsDirectories (t.withFile l bytes) := by
  intro m hm
  rw [node?_withFile_of_ne, hm]
  rintro rfl
  exact hl hm

theorem KeepsDirectories.foldlM_enter (h : t.KeepsDirectories t') {parts : List String}
    {start target : Location} (ht : parts.foldlM t.enter start = .ok target) :
    parts.foldlM t'.enter start = .ok target := by
  induction parts generalizing start with
  | nil => exact ht
  | cons part parts ih =>
    rw [List.foldlM_cons] at ht ⊢
    cases he : t.enter start part with
    | error problem =>
      rw [he] at ht
      contradiction
    | ok next =>
      obtain ⟨hdirectory, hname⟩ := enter_eq_ok_iff.1 he
      rw [he] at ht
      rw [enter_eq_ok_iff.2 ⟨h start hdirectory, hname⟩]
      exact ih ht

theorem KeepsDirectories.locate (h : t.KeepsDirectories t') (hl : t.locate p = .ok l) :
    t'.locate p = .ok l := by
  unfold FileTree.locate at hl ⊢
  split at hl
  · contradiction
  · split at hl
    · contradiction
    · next hnull hlong =>
      rw [if_neg hnull, if_neg hlong]
      cases hf : p.parts.foldlM t.enter .here with
      | error problem =>
        rw [hf] at hl
        contradiction
      | ok target =>
        rw [hf] at hl
        rw [h.foldlM_enter hf]
        exact hl

/-! Reading and writing -/

theorem write_eq_ok_iff :
    t.write p bytes = .ok t' ↔
      ∃ l, t.locate p = .ok l ∧ t.node? l ≠ some .directory ∧ t' = t.withFile l bytes := by
  unfold write
  cases hl : t.locate p with
  | error fault => simp
  | ok l =>
    simp only [Except.ok.injEq, exists_eq_left']
    split
    · next h => simp [h]
    · next h =>
      rw [Except.ok.injEq]
      exact ⟨fun ht => ⟨h, ht.symm⟩, fun ht => ht.2.symm⟩

theorem read_eq_ok_iff :
    t.read p = .ok bytes ↔ ∃ l, t.locate p = .ok l ∧ t.node? l = some (.file bytes) := by
  unfold read lookup
  cases t.locate p with
  | error fault => simp
  | ok l =>
    cases hn : t.node? l with
    | none => simp [hn]
    | some n => cases n <;> simp [hn]

theorem read_of_write (h : t.write p bytes = .ok t') : t'.read p = .ok bytes := by
  obtain ⟨l, hlocate, hnode, rfl⟩ := write_eq_ok_iff.1 h
  exact read_eq_ok_iff.2 ⟨l, (keepsDirectories_withFile hnode).locate hlocate,
    node?_withFile_self (names_ne_nil hnode)⟩

theorem read_of_write_of_ne {q : Path} {bytes' : List UInt8} (h : t.write q bytes' = .ok t')
    (hne : t'.locate p ≠ t'.locate q) (hr : t.read p = .ok bytes) : t'.read p = .ok bytes := by
  obtain ⟨l, hlocate, hnode, rfl⟩ := write_eq_ok_iff.1 h
  obtain ⟨m, hm, hfile⟩ := read_eq_ok_iff.1 hr
  have hkeeps : t.KeepsDirectories (t.withFile l bytes') := keepsDirectories_withFile hnode
  have hml : m ≠ l := by
    rintro rfl
    exact hne ((hkeeps.locate hm).trans (hkeeps.locate hlocate).symm)
  exact read_eq_ok_iff.2 ⟨m, hkeeps.locate hm, (node?_withFile_of_ne hml).trans hfile⟩

theorem file?_of_read (h : t.read p = .ok bytes) : t.file? p = .ok (some bytes) := by
  obtain ⟨l, hl, hfile⟩ := read_eq_ok_iff.1 h
  unfold file? find lookup
  simp only [hl, hfile]
  rfl

/-! Making directories -/

def Extends (t t' : FileTree) : Prop := ∀ l n, t.node? l = some n → t'.node? l = some n

theorem Extends.read (h : t.Extends t') (hr : t.read p = .ok bytes) : t'.read p = .ok bytes := by
  obtain ⟨l, hl, hfile⟩ := read_eq_ok_iff.1 hr
  have hkeeps : t.KeepsDirectories t' := fun m => h m _
  exact read_eq_ok_iff.2 ⟨l, hkeeps.locate hl, h l _ hfile⟩

theorem extends_makeDirectory (h : t.makeDirectory p = .ok t') : t.Extends t' := by
  unfold makeDirectory at h
  split at h
  · contradiction
  · split at h
    · contradiction
    · cases h
      intro m n hm
      unfold node? at hm ⊢
      split at hm
      · next hroot => rw [if_pos hroot, hm]
      · next hroot =>
        rw [if_neg hroot]
        split at hm
        · next hfile => rw [← hm, hfile]
        · next hfile =>
          split at hm
          · next hdirectory =>
            rw [List.contains_iff_mem] at hdirectory
            simp [hfile, hdirectory, ← hm]
          · contradiction

theorem extends_ensureDirectory (t : FileTree) (p : Path) :
    t.Extends (t.ensureDirectory p).1 := by
  unfold ensureDirectory
  split
  · next h => exact extends_makeDirectory h
  · exact fun _ _ h => h

theorem extends_makeDirectories (t : FileTree) (p : Path) :
    t.Extends (t.makeDirectories p).1 := by
  fun_induction makeDirectories t p with
  | case1 p h t' fault hm ih =>
    rw [hm] at ih
    exact ih
  | case2 p h t' hm ih =>
    rw [hm] at ih
    exact fun l n hn => extends_ensureDirectory t' p l n (ih l n hn)
  | case3 p h => exact extends_ensureDirectory t p

/-! Saving -/

theorem write_of_save (h : t.save p bytes = (t', none)) :
    ∃ made, t.Extends made ∧ made.write p bytes = .ok t' := by
  have hmade := extends_makeDirectories t p.parent
  unfold save at h
  split at h
  · cases h
  · next made hm =>
    rw [hm] at hmade
    split at h
    · next hw =>
      cases h
      exact ⟨made, hmade, hw⟩
    · cases h

theorem read_of_save (h : t.save p bytes = (t', none)) : t'.read p = .ok bytes := by
  obtain ⟨made, -, hw⟩ := write_of_save h
  exact read_of_write hw

theorem read_of_save_of_ne {q : Path} {bytes' : List UInt8} (h : t.save q bytes' = (t', none))
    (hne : t'.locate p ≠ t'.locate q) (hr : t.read p = .ok bytes) : t'.read p = .ok bytes := by
  obtain ⟨made, hmade, hw⟩ := write_of_save h
  exact read_of_write_of_ne hw hne (hmade.read hr)

end CanonicalSchema.FileTree
