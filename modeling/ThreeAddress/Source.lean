import ThreeAddress.Binary64.HexText
import ThreeAddress.Markup.Reader
import ThreeAddress.Program
import ThreeAddress.Text.Escape
import ThreeAddress.Text.Utf8

/-!
Programs from their markup representation. Instructions are added to the program one by one in
document order, and the first error ends it.
-/

namespace ThreeAddress.Source

open Markup (Element)

inductive Error where
  | markup (e : Markup.Error)
  | wrongRoot (line : Nat) (found : String)
  | wrongLanguage (line : Nat) (found : String)
  | unexpectedElement (line : Nat) (parent found : String)
  | missingAttribute (line : Nat) (element key : String)
  | invalidOrder (line : Nat) (text : String)
  | unknownOpcode (line : Nat) (text : String)
  | duplicateArgument (line : Nat) (name : String)
  | unknownArgumentType (line : Nat) (text : String)
  | invalidValue (line : Nat) (kind text : String)
  | program (e : Program.Error)
  deriving DecidableEq, Repr

namespace Error

def message : Error → String
  | markup e => "malformed XML: " ++ e.message
  | wrongRoot line found => s!"line {line}: root element must be <program>, found <{found}>"
  | wrongLanguage line found => s!"line {line}: unsupported language '{found}'"
  | unexpectedElement line parent found =>
    s!"line {line}: unexpected element <{found}> in <{parent}>"
  | missingAttribute line element key =>
    s!"line {line}: <{element}> is missing the '{key}' attribute"
  | invalidOrder line text => s!"line {line}: invalid instruction order '{text}'"
  | unknownOpcode line text => s!"line {line}: unknown opcode '{text}'"
  | duplicateArgument line name => s!"line {line}: duplicate <{name}>"
  | unknownArgumentType line text => s!"line {line}: unknown argument type '{text}'"
  | invalidValue line kind text => s!"line {line}: invalid {kind} value '{text}'"
  | program e => e.message

def category : Error → ExitCategory
  | markup _ => .malformedSource
  | program e => e.category
  | _ => .malformedProgram

end Error

def language : String := "IPPcode22"

def required (e : Element) (key : String) : Except Error String :=
  match e.attribute? key with
  | some value => .ok value
  | none => .error (.missingAttribute e.line e.name key)

/-- The operand that a text denotes as the given kind. Blanks around the text belong to it only
if it is a string. -/
def operand (kind text : String) (line : Nat) : Except Error Operand :=
  let trimmed := Text.trim text.toList
  let orInvalid (kind : String) (operand : Option Operand) : Except Error Operand :=
    match operand with
    | some a => .ok a
    | none => .error (.invalidValue line kind text)
  match String.ofList ((Text.trim kind.toList).map Char.toLower) with
  | "var" => orInvalid "var" ((Variable.parse? trimmed).map .var)
  | "int" => orInvalid "int" ((Text.int64? trimmed).map fun n => .const (.int n))
  | "bool" => .ok (.const (.bool (Text.sameFolded trimmed "true".toList)))
  | "nil" => .ok (.const .nil)
  | "float" => orInvalid "float" ((Binary64.parse? trimmed).map fun x => .const (.float x))
  | "string" =>
    orInvalid "string" ((Text.decodeEscapes text).toOption.map fun s => .const (.string s))
  | "label" =>
    orInvalid "label" (if trimmed = [] then none else some (.label (String.ofList trimmed)))
  | "type" => orInvalid "type" ((TypeTag.ofName? trimmed).map .type)
  | _ => .error (.unknownArgumentType line kind)

def position? (name : String) : Option Nat :=
  match name with
  | "arg1" => some 1
  | "arg2" => some 2
  | "arg3" => some 3
  | _ => none

def addArgument (i : Instruction) (e : Element) : Except Error Instruction :=
  match position? e.name with
  | none => .error (.unexpectedElement e.line "instruction" e.name)
  | some position =>
    if (i.get? position).isSome then .error (.duplicateArgument e.line e.name)
    else do
      let kind ← required e "type"
      let a ← operand kind e.text e.line
      return i.set position a

def order (e : Element) : Except Error Order := do
  let text ← required e "order"
  match Text.int64? (Text.trim text.toList) with
  | some n => if 0 < n then .ok n else .error (.invalidOrder e.line text)
  | none => .error (.invalidOrder e.line text)

def opcode (e : Element) : Except Error Opcode := do
  let text ← required e "opcode"
  match Opcode.ofMnemonic? text.toList with
  | some opcode => .ok opcode
  | none => .error (.unknownOpcode e.line text)

def instruction (e : Element) : Except Error Instruction :=
  if e.name = "instruction" then do
    let order ← order e
    let opcode ← opcode e
    e.children.foldlM addArgument { order := order, opcode := opcode }
  else
    .error (.unexpectedElement e.line "program" e.name)

def addInstruction (p : Program) (e : Element) : Except Error Program := do
  let i ← instruction e
  (p.add i).mapError .program

def program (root : Element) : Except Error Program :=
  if root.name = "program" then
    let found := root.attribute? "language"
    if found.any fun text => Text.sameFolded (Text.trim text.toList) language.toList then
      root.children.foldlM addInstruction .empty
    else
      .error (.wrongLanguage root.line (found.getD ""))
  else
    .error (.wrongRoot root.line root.name)

def load (text : String) : Except Error Program := do
  let root ← (Markup.readDocument text).mapError Error.markup
  program root

/-- The line on which a byte sequence stops being valid UTF-8. -/
def invalidLine (bytes : ByteArray) : Nat :=
  (bytes.toList.take (Text.validUtf8End bytes 0)).count 10 + 1

def loadBytes (bytes : ByteArray) : Except Error Program :=
  match String.fromUTF8? bytes with
  | some text => load text
  | none => .error (.markup (.invalidEncoding (invalidLine bytes)))

end ThreeAddress.Source
