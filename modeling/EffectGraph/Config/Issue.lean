/-!
# Issues of a configuration

What checking a configuration against its schema can find, and where.
-/

namespace EffectGraph.Config

/-- One step into a configuration: a field, or a place in a list or mapping. -/
inductive Step where
  | field (name : String)
  | index (i : Int)
  deriving DecidableEq, Repr

/-- What is wrong at a place. -/
inductive Fault where
  | missing
  | notText
  | notUnicode
  | notList
  | notMapping
  | notRecord
  deriving DecidableEq, Repr

/-- The word for a fault. -/
def Fault.word : Fault → String
  | .missing => "missing"
  | .notText => "string_type"
  | .notUnicode => "string_unicode"
  | .notList => "list_type"
  | .notMapping => "dict_type"
  | .notRecord => "model_type"

/-- A fault and the path to its place. -/
structure Issue where
  path : List Step
  fault : Fault
  deriving DecidableEq, Repr

/-- The issue one step further out. -/
def Issue.under (s : Step) (i : Issue) : Issue := { i with path := s :: i.path }

end EffectGraph.Config
