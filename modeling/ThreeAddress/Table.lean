/-!
Tables from keys to items, kept in ascending order of the keys.
-/

namespace ThreeAddress

structure Table (κ α : Type) where
  entries : List (κ × α) := []
  deriving DecidableEq, Repr

namespace Table

variable {κ α : Type}

def empty : Table κ α := ⟨[]⟩

def size (t : Table κ α) : Nat := t.entries.length

def isEmpty (t : Table κ α) : Bool := t.entries.isEmpty

def items (t : Table κ α) : List α := t.entries.map Prod.snd

def get? [DecidableEq κ] (t : Table κ α) (k : κ) : Option α := t.entries.lookup k

def contains [DecidableEq κ] (t : Table κ α) (k : κ) : Bool := (t.get? k).isSome

def insertEntry [LT κ] [DecidableLT κ] (k : κ) (a : α) : List (κ × α) → List (κ × α)
  | [] => [(k, a)]
  | e :: rest => if k < e.1 then (k, a) :: e :: rest else e :: insertEntry k a rest

def insert [LT κ] [DecidableLT κ] (t : Table κ α) (k : κ) (a : α) : Table κ α :=
  ⟨insertEntry k a t.entries⟩

def replace [DecidableEq κ] (t : Table κ α) (k : κ) (a : α) : Table κ α :=
  ⟨t.entries.map fun e => if e.1 = k then (k, a) else e⟩

/-- The item with the least key above `k`. -/
def above? [LT κ] [DecidableLT κ] (t : Table κ α) (k : κ) : Option α :=
  (t.entries.find? fun e => k < e.1).map Prod.snd

end Table

end ThreeAddress
