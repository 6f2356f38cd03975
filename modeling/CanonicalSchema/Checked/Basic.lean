import CanonicalSchema.Text.Quoted
import CanonicalSchema.Value.Literal

/-!
Values that have been checked against what is expected of them. A check goes on after the first
issue: what is rejected carries all issues, in the order of the attributes.
-/

namespace CanonicalSchema

/-- The rules that involve more than the shape of one attribute. -/
inductive Rule where
  | fieldName (name : String)
  | foreignKeyAndConnection (field target connectionTarget : String)
  | keyMismatch (model : String) (key : Text) (field : String)
  | sharedTarget (model first second : String) (target : Text)
  | severalPrimaryKeys (model : String) (names : List String)
deriving DecidableEq

def Rule.message : Rule → Text
  | fieldName name =>
    "Field name " ++ Quoted.text name ++ " is not a valid identifier. Must start with a letter "
      ++ "or underscore, contain only alphanumeric characters and underscores, and be at most "
      ++ "64 characters."
  | foreignKeyAndConnection field target connectionTarget =>
    "Field '" ++ field ++ "' cannot be both a belongs-to foreign key (-> " ++ target
      ++ ") and a connection (-> " ++ connectionTarget ++ ")"
  | keyMismatch model key field =>
    "Model '" ++ model ++ "' maps key '" ++ key ++ "' to field named '" ++ field ++ "'"
  | sharedTarget model first second target =>
    "Model '" ++ model ++ "' has fields '" ++ first ++ "' and '" ++ second
      ++ "' sharing target name '" ++ target ++ "'"
  | severalPrimaryKeys model names =>
    "Model '" ++ model ++ "' has multiple primary key fields: "
      ++ Json.literalTexts (names.map .ofString)

namespace Issue

inductive Problem where
  | missing
  | unknownAttribute
  | notText
  | notUnicode
  | emptyText
  | notBoolean
  | unreadableBoolean
  | notInteger
  | unreadableInteger
  | fractionalNumber
  | infiniteNumber
  | oversizedInteger
  | notPositive
  | notOneOf (labels : List String)
  | notSequence
  | notTable
  | notRecord (title : String)
  | broken (rule : Rule)
deriving DecidableEq

def alternatives : List String → String
  | [] => ""
  | [s] => "'" ++ s ++ "'"
  | [s, t] => "'" ++ s ++ "' or '" ++ t ++ "'"
  | s :: ss => "'" ++ s ++ "', " ++ alternatives ss

def Problem.code : Problem → String
  | missing => "missing"
  | unknownAttribute => "extra_forbidden"
  | notText => "string_type"
  | notUnicode => "string_unicode"
  | emptyText => "string_too_short"
  | notBoolean => "bool_type"
  | unreadableBoolean => "bool_parsing"
  | notInteger => "int_type"
  | unreadableInteger => "int_parsing"
  | fractionalNumber => "int_from_float"
  | infiniteNumber => "finite_number"
  | oversizedInteger => "int_parsing_size"
  | notPositive => "greater_than"
  | notOneOf _ => "enum"
  | notSequence => "tuple_type"
  | notTable => "dict_type"
  | notRecord _ => "model_type"
  | broken _ => "value_error"

def Problem.message : Problem → String
  | missing => "Field required"
  | unknownAttribute => "Extra inputs are not permitted"
  | notText => "Input should be a valid string"
  | notUnicode =>
    "Input should be a valid string, unable to parse raw data as a unicode string"
  | emptyText => "String should have at least 1 character"
  | notBoolean => "Input should be a valid boolean"
  | unreadableBoolean => "Input should be a valid boolean, unable to interpret input"
  | notInteger => "Input should be a valid integer"
  | unreadableInteger =>
    "Input should be a valid integer, unable to parse string as an integer"
  | fractionalNumber =>
    "Input should be a valid integer, got a number with a fractional part"
  | infiniteNumber => "Input should be a finite number"
  | oversizedInteger =>
    "Unable to parse input string as an integer, exceeded maximum size"
  | notPositive => "Input should be greater than 0"
  | notOneOf labels => "Input should be " ++ alternatives labels
  | notSequence => "Input should be a valid tuple"
  | notTable => "Input should be a valid dictionary"
  | notRecord title => "Input should be a valid dictionary or instance of " ++ title
  | broken rule => "Value error, " ++ rule.message.shown

inductive Step where
  | label (s : String)
  | position (n : Int)
deriving DecidableEq

end Issue

structure Issue where
  path : List Issue.Step
  problem : Issue.Problem
deriving DecidableEq

/-- A checked value of a named kind that was not accepted. -/
structure Rejection where
  title : String
  issues : List Issue
deriving DecidableEq

inductive Checked (α : Type) where
  | accepted (a : α)
  | rejected (issues : List Issue)
deriving DecidableEq

namespace Checked

variable {α β : Type}

def seq (f : Checked (α → β)) (x : Checked α) : Checked β :=
  match f, x with
  | accepted f, accepted a => accepted (f a)
  | accepted _, rejected is => rejected is
  | rejected is, accepted _ => rejected is
  | rejected is, rejected js => rejected (is ++ js)

instance : Applicative Checked where
  pure := accepted
  seq f x := seq f (x ())

def fail (problem : Issue.Problem) : Checked α := rejected [⟨[], problem⟩]

def under (step : Issue.Step) : Checked α → Checked α
  | accepted a => accepted a
  | rejected is => rejected (is.map fun i => ⟨step :: i.path, i.problem⟩)

/-- A rule is looked at only where everything before it was accepted. -/
def ensure (rule? : α → Option Rule) : Checked α → Checked α
  | accepted a =>
    match rule? a with
    | some rule => fail (.broken rule)
    | none => accepted a
  | rejected is => rejected is

def all (xs : List (Checked α)) : Checked (List α) :=
  xs.foldr (fun x acc => (· :: ·) <$> x <*> acc) (accepted [])

@[simp] theorem all_map_accepted (xs : List α) : all (xs.map accepted) = accepted xs := by
  induction xs with
  | nil => rfl
  | cons x xs ih =>
    simp only [all, List.map_cons, List.foldr_cons] at ih ⊢
    rw [ih]
    rfl

def titled (title : String) : Checked α → Except Rejection α
  | accepted a => .ok a
  | rejected is => .error ⟨title, is⟩

end Checked

end CanonicalSchema
