import ThreeAddress.Binary64.HexText
import ThreeAddress.LineReader
import ThreeAddress.Text.Escape
import ThreeAddress.Value

/-!
Input lines, and the values that they are read as.
-/

namespace ThreeAddress

/-- The lines still to come. A line that cannot be delivered as text takes its turn all the same;
after the last line there is nothing, however often it is asked for. -/
structure Input where
  pending : List (Option String) := []
  deriving DecidableEq, Repr

namespace Input

def next (input : Input) : Option String × Input :=
  match input.pending with
  | [] => (none, input)
  | line :: rest => (line, ⟨rest⟩)

/-- The lines of a byte stream. A stream that breaks off loses the line it is in the middle of. -/
def ofBytes (bytes : List UInt8) (breaksOff : Bool := false) : Input :=
  ⟨LineReader.remaining ⟨some ⟨bytes, breaksOff⟩⟩⟩

def ofLines (lines : List String) : Input := ⟨lines.map some⟩

def value (line : Option String) (requested : TypeTag) : Value :=
  match line, requested with
  | some line, .int => ((Text.int64? (Text.trim line.toList)).map Value.int).getD .nil
  | some line, .bool => .bool (Text.sameFolded line.toList "true".toList)
  | some line, .float => ((Binary64.parse? line.toList).map Value.float).getD .nil
  | some line, .string =>
    match Text.decodeEscapes line with
    | .ok s => .string s
    | .error _ => .nil
  | _, _ => .nil

end Input

end ThreeAddress
