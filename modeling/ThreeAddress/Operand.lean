import ThreeAddress.Value

/-!
Operands of instructions: variables, constants, labels and type names.
-/

namespace ThreeAddress

inductive FrameKind where
  | global
  | temporary
  | local
  deriving DecidableEq, Repr

namespace FrameKind

def name : FrameKind → String
  | global => "GF"
  | temporary => "TF"
  | .local => "LF"

/-- Frame names are taken as they are, without trimming or change of case. -/
def ofName? (cs : List Char) : Option FrameKind :=
  [global, temporary, .local].find? fun kind => kind.name.toList == cs

end FrameKind

structure Variable where
  frame : FrameKind
  name : String
  deriving DecidableEq, Repr

namespace Variable

def render (v : Variable) : String := v.frame.name ++ "@" ++ v.name

/-- A frame name, the first `@` and a name that is not empty. -/
def parse? (cs : List Char) : Option Variable :=
  match Text.splitAtFirst '@' (Text.trim cs) with
  | (frame, some (c :: rest)) =>
    (FrameKind.ofName? frame).map fun kind => ⟨kind, String.ofList (c :: rest)⟩
  | _ => none

end Variable

inductive Operand where
  | var (v : Variable)
  | const (v : Value)
  | label (name : String)
  | type (tag : TypeTag)
  deriving DecidableEq, Repr

namespace Operand

def kind : Operand → String
  | var _ => "var"
  | const v => v.tag.name
  | label _ => "label"
  | type _ => "type"

def render : Operand → String
  | var v => v.render
  | const v => v.typed
  | label name => "label@" ++ name
  | type tag => "type@" ++ tag.name

end Operand

end ThreeAddress
