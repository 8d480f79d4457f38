import ThreeAddress.Text.Numeral

/-!
References to characters, by name or by number, between an ampersand and a semicolon.
-/

namespace ThreeAddress.Markup

open Text

def dropPlus : List Char → List Char
  | '+' :: cs => cs
  | cs => cs

def resolveReference? (body : List Char) : Option Char :=
  if body = "lt".toList then some '<'
  else if body = "gt".toList then some '>'
  else if body = "amp".toList then some '&'
  else if body = "quot".toList then some '"'
  else if body = "apos".toList then some (Char.ofNat 39)
  else
    match body with
    | '#' :: 'x' :: digits => (hexadecimal? (dropPlus digits)).bind scalar?
    | '#' :: 'X' :: digits => (hexadecimal? (dropPlus digits)).bind scalar?
    | '#' :: digits => (decimal? (dropPlus digits)).bind scalar?
    | _ => none

/-- Decoding in the middle of a text. Inside a reference, `body` holds what has been read of it,
backwards. -/
def decodeReferencesFrom : (body : Option (List Char)) → List Char →
    Except (List Char) (List Char)
  | none, [] => .ok []
  | none, c :: rest =>
    if c = '&' then decodeReferencesFrom (some []) rest
    else (decodeReferencesFrom none rest).map (c :: ·)
  | some body, [] => .error (body.reverse.take 8)
  | some body, c :: rest =>
    if c = ';' then
      match resolveReference? body.reverse with
      | some d => (decodeReferencesFrom none rest).map (d :: ·)
      | none => .error body.reverse
    else decodeReferencesFrom (some (c :: body)) rest

/-- The text with each reference replaced by its character; otherwise the body of the first
reference that stands for none, cut to eight characters if it has no semicolon. -/
def decodeReferences (cs : List Char) : Except (List Char) (List Char) :=
  decodeReferencesFrom none cs

end ThreeAddress.Markup
