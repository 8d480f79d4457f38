/-!
Kinds of failure and the exit codes that tell them apart.
-/

namespace ThreeAddress

inductive ExitCategory where
  | invalidParameters
  | inputFile
  | malformedSource
  | malformedProgram
  | semantic
  | operandType
  | undeclaredVariable
  | missingFrame
  | missingValue
  | badValue
  | badString
  | internal
  deriving DecidableEq, Repr

def ExitCategory.code : ExitCategory → Nat
  | invalidParameters => 10
  | inputFile => 11
  | malformedSource => 31
  | malformedProgram => 32
  | semantic => 52
  | operandType => 53
  | undeclaredVariable => 54
  | missingFrame => 55
  | missingValue => 56
  | badValue => 57
  | badString => 58
  | internal => 99

end ThreeAddress
