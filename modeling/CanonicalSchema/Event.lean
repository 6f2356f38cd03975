import CanonicalSchema.Schema.Extraction
import CanonicalSchema.Storage.Path

/-!
What is worth a line in a log. The events of an operation are determined by its outcome.
-/

namespace CanonicalSchema

inductive Event where
  | built (model : String) (fieldCount : Nat)
  | refused (model : Json) (cause : Malformed)
  | unknownIndexFields (model : Json) (index : Option Text) (names : List Text)
  | saved (model : String) (path : Path)
  | extracted (model : String) (valueCount : Nat)

namespace Event

def line : Event → Text
  | built model fieldCount =>
    "DEBUG Built ModelSchema " ++ model ++ " with " ++ toString fieldCount ++ " field(s)"
  | refused model cause =>
    "WARNING Error in constructing a ModelSchema for " ++ model.text ++ ": " ++ cause.message
  | unknownIndexFields model index names =>
    "WARNING Index " ++ (Json.ofOption Json.str index).literal ++ " of " ++ model.text
      ++ " names unknown field(s) " ++ Json.literalTexts names
  | saved model path => "DEBUG Saved schema " ++ model ++ " to " ++ path.text
  | extracted model valueCount =>
    "DEBUG Mapped " ++ toString valueCount ++ " field value(s) for model " ++ model

/-- Where the name cannot be put into words, there is no line with it either. -/
def ofBuild : Except BuildFault Schema → List Event
  | .ok s => [built s.name s.fields.length]
  | .error (.failure ⟨model, .malformed cause⟩) => [refused model cause]
  | .error (.failure ⟨model, .unknownIndexFields index names⟩) =>
    [unknownIndexFields model index names]
  | .error (.escaped _) => []

def ofExtraction {α : Type} (s : Schema) :
    Except ExtractionFailure (Entries Text α) → List Event
  | .ok values => [extracted s.name values.length]
  | .error _ => []

end Event

end CanonicalSchema
