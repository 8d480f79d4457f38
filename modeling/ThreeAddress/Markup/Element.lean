/-!
Elements of a document tree.
-/

namespace ThreeAddress.Markup

structure Element where
  name : String
  /-- In document order. -/
  attributes : List (String × String) := []
  /-- All character data directly inside the element, joined. -/
  text : String := ""
  children : List Element := []
  /-- The line that the name stands on in the start tag, counted from one. -/
  line : Nat

namespace Element

def attribute? (e : Element) (name : String) : Option String := e.attributes.lookup name

mutual

/-- The elements of a tree with their depths, parents before children. -/
def preorder (depth : Nat) : Element → List (Nat × Element)
  | e@⟨_, _, _, children, _⟩ => (depth, e) :: preorderAll (depth + 1) children

def preorderAll (depth : Nat) : List Element → List (Nat × Element)
  | [] => []
  | e :: rest => e.preorder depth ++ preorderAll depth rest

end

end Element

end ThreeAddress.Markup
