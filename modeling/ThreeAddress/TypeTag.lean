import ThreeAddress.Text.Blank

/-!
The type names of the language.
-/

namespace ThreeAddress

inductive TypeTag where
  | nil
  | bool
  | int
  | float
  | string
  | label
  | type
  deriving DecidableEq, Repr

namespace TypeTag

def all : List TypeTag := [nil, bool, int, float, string, label, type]

def name : TypeTag → String
  | nil => "nil"
  | bool => "bool"
  | int => "int"
  | float => "float"
  | string => "string"
  | label => "label"
  | type => "type"

/-- Blanks around a type name and its case do not matter. -/
def ofName? (cs : List Char) : Option TypeTag :=
  all.find? fun tag => Text.sameFolded tag.name.toList (Text.trim cs)

def readable : TypeTag → Bool
  | bool | int | float | string => true
  | nil | label | type => false

end TypeTag

end ThreeAddress
