/-!
Output channels. A channel takes a text as a whole or refuses it, and what it has taken is never
lost.
-/

namespace ThreeAddress

/-- The conduct of whatever stands behind a channel: the reason why it refuses a request, if it
does. It may go by the time, by what was taken before and by the text on offer. -/
structure Gate where
  write : (time : Nat) → (taken offered : String) → Option String := fun _ _ _ => none
  flush : (time : Nat) → (taken : String) → Option String := fun _ _ => none

def Gate.limited (limit : Option Nat) (refuseFlush : Bool) : Gate where
  write _ taken offered :=
    match limit with
    | some n => if n < taken.utf8ByteSize + offered.utf8ByteSize then some "sink full" else none
    | none => none
  flush _ _ := if refuseFlush then some "flush refused" else none

structure Channel where
  taken : String := ""
  gate : Gate := {}

namespace Channel

/-- The gate is not asked about an empty text. -/
def write (c : Channel) (time : Nat) (text : String) : Except String Channel :=
  if text = "" then .ok c
  else
    match c.gate.write time c.taken text with
    | some reason => .error reason
    | none => .ok { c with taken := c.taken ++ text }

def flush (c : Channel) (time : Nat) : Except String Unit :=
  match c.gate.flush time c.taken with
  | some reason => .error reason
  | none => .ok ()

end Channel

end ThreeAddress
