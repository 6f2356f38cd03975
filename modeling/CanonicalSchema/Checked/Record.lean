import CanonicalSchema.Checked.Basic

/-!
Checks of records: objects with named attributes, some of which may be left out, and no others.
-/

namespace CanonicalSchema.Checked

variable {α : Type}

def required (members : Entries Text Json) (label : String) (check : Json → Checked α) :
    Checked α :=
  match members.get? label with
  | some j => (check j).under (.label label)
  | none => (fail .missing).under (.label label)

def defaulted (members : Entries Text Json) (label : String) (default : α)
    (check : Json → Checked α) : Checked α :=
  match members.get? label with
  | some j => (check j).under (.label label)
  | none => accepted default

/-- One issue for each unknown label, in the order in which they were given. -/
def noOthers (labels : List Text) : Checked Unit :=
  match labels with
  | [] => accepted ()
  | _ => rejected (labels.map fun l => ⟨[.label l.shown], .unknownAttribute⟩)

def onlyKnown (known : List Text) (members : Entries Text Json) : Checked Unit :=
  noOthers (members.keys.filter fun l => !known.contains l)

/-- Nothing more is said about a record with a label that holds a surrogate. -/
def record (title : String) (check : Entries Text Json → Checked α) : Json → Checked α
  | .obj members =>
    if members.any fun m => m.1.string?.isNone then fail .notUnicode else check members
  | _ => fail (.notRecord title)

end CanonicalSchema.Checked
