/-!
Why a text is not a document.
-/

namespace ThreeAddress.Markup

def maxDepth : Nat := 64

inductive Wanted where
  | rootElement
  | name
  | blankBeforeAttribute
  | equalsSign
  | quotedValue
  | valueWithoutMarkup
  | endOfEndTag
  deriving DecidableEq, Repr

def Wanted.description : Wanted → String
  | rootElement => "root element"
  | name => "name"
  | blankBeforeAttribute => "whitespace before attribute"
  | equalsSign => "'=' after attribute name"
  | quotedValue => "quoted attribute value"
  | valueWithoutMarkup => "attribute value without '<'"
  | endOfEndTag => "'>' after end tag name"

inductive Error where
  | unexpectedEnd (line : Nat)
  | expected (line : Nat) (wanted : Wanted)
  | mismatchedTag (line : Nat) (opened closed : String)
  | badReference (line : Nat) (reference : String)
  | duplicateAttribute (line : Nat) (name : String)
  | trailingContent (line : Nat)
  | tooDeep (line : Nat)
  | invalidEncoding (line : Nat)
  deriving DecidableEq, Repr

def Error.message : Error → String
  | unexpectedEnd line => s!"line {line}: unexpected end of document"
  | expected line wanted => s!"line {line}: expected {wanted.description}"
  | mismatchedTag line opened closed =>
    s!"line {line}: closing tag </{closed}> does not match <{opened}>"
  | badReference line reference => s!"line {line}: unknown entity '&{reference};'"
  | duplicateAttribute line name => s!"line {line}: duplicate attribute '{name}'"
  | trailingContent line => s!"line {line}: content after the root element"
  | tooDeep line => s!"line {line}: elements nested deeper than {maxDepth} levels"
  | invalidEncoding line => s!"line {line}: source is not valid UTF-8"

end ThreeAddress.Markup
