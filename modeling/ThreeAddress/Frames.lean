import ThreeAddress.Operand
import ThreeAddress.Table

/-!
Frames of variables: the global one, a temporary one that need not exist, and a stack of local
ones of which the topmost is addressed.
-/

namespace ThreeAddress

/-- A frame has a place for every declared variable, vacant until the variable is assigned. -/
abbrev Frame := Table String (Option Value)

namespace Frame

def renderSlot (slot : String × Option Value) : String :=
  slot.1 ++ ": " ++ (slot.2.map Value.typed).getD "<uninitialized>"

def render (f : Frame) : String :=
  "\x7b" ++ ", ".intercalate (f.entries.map renderSlot) ++ "\x7d"

end Frame

structure Frames where
  global : Frame := .empty
  temporary : Option Frame := none
  /-- The local frames, the topmost first. -/
  locals : List Frame := []
  deriving DecidableEq, Repr

namespace Frames

inductive Fault where
  | missing (kind : FrameKind)
  | redefinition (v : Variable)
  | undeclared (v : Variable)
  | uninitialized (v : Variable)
  deriving DecidableEq, Repr

def resolve (fs : Frames) (kind : FrameKind) : Except Fault Frame :=
  match kind, fs.temporary, fs.locals with
  | .global, _, _ => .ok fs.global
  | .temporary, some f, _ => .ok f
  | .local, _, f :: _ => .ok f
  | _, _, _ => .error (.missing kind)

def put (fs : Frames) (kind : FrameKind) (f : Frame) : Frames :=
  match kind with
  | .global => { fs with global := f }
  | .temporary => { fs with temporary := fs.temporary.map fun _ => f }
  | .local => { fs with locals := match fs.locals with
      | [] => []
      | _ :: rest => f :: rest }

def declare (fs : Frames) (v : Variable) : Except Fault Frames := do
  let f ← fs.resolve v.frame
  if f.contains v.name then .error (.redefinition v)
  else .ok (fs.put v.frame (f.insert v.name none))

/-- What a declared variable holds; nothing if it was never assigned. -/
def lookup (fs : Frames) (v : Variable) : Except Fault (Option Value) := do
  let f ← fs.resolve v.frame
  match f.get? v.name with
  | some slot => .ok slot
  | none => .error (.undeclared v)

def read (fs : Frames) (v : Variable) : Except Fault Value := do
  match ← fs.lookup v with
  | some value => .ok value
  | none => .error (.uninitialized v)

def assign (fs : Frames) (v : Variable) (value : Value) : Except Fault Frames := do
  let f ← fs.resolve v.frame
  if f.contains v.name then .ok (fs.put v.frame (f.replace v.name (some value)))
  else .error (.undeclared v)

/-- A new temporary frame; one that was there is lost. -/
def create (fs : Frames) : Frames := { fs with temporary := some .empty }

/-- Makes the temporary frame the topmost local one. -/
def push (fs : Frames) : Except Fault Frames :=
  match fs.temporary with
  | some f => .ok { fs with temporary := none, locals := f :: fs.locals }
  | none => .error (.missing .temporary)

/-- Makes the topmost local frame the temporary one. -/
def pop (fs : Frames) : Except Fault Frames :=
  match fs.locals with
  | f :: rest => .ok { fs with temporary := some f, locals := rest }
  | [] => .error (.missing .local)

end Frames

end ThreeAddress
