import ThreeAddress.Markup.Error
import ThreeAddress.Markup.Reference
import ThreeAddress.Result
import ThreeAddress.Text.Blank
import ThreeAddress.Text.Letter

/-!
A place in a text and the pieces that are read from there. Every move forward goes through
`Cursor.skip`, which keeps the line number.
-/

namespace ThreeAddress.Markup

/-- The text not yet read, and the line it starts on. -/
structure Cursor where
  line : Nat := 1
  rest : List Char
  deriving DecidableEq, Repr

/-- The characters that separate the parts of a tag. -/
def isSpace (c : Char) : Bool := c == ' ' || c == '\t' || c == '\r' || c == '\n'

def isNameStart (c : Char) : Bool := Text.isAlphabetic c || c == '_' || c == ':'

def isNameChar (c : Char) : Bool :=
  Text.isAlphanumeric c || c == '_' || c == ':' || c == '-' || c == '.'

def indexOf? (token : List Char) : List Char → Option Nat
  | [] => if token = [] then some 0 else none
  | c :: cs => if token.isPrefixOf (c :: cs) then some 0 else (indexOf? token cs).map (· + 1)

/-- The length up to the first closing angle that is not inside square brackets. -/
def doctypeLength? (depth : Nat) : List Char → Option Nat
  | [] => none
  | c :: cs =>
    if c = '>' ∧ depth = 0 then some 1
    else
      let depth := if c = '[' then depth + 1 else if c = ']' then depth - 1 else depth
      (doctypeLength? depth cs).map (· + 1)

theorem isNameChar_of_isNameStart {c : Char} (h : isNameStart c = true) :
    isNameChar c = true := by
  simp only [isNameStart, isNameChar, Text.isAlphanumeric, Bool.or_eq_true] at h ⊢
  rcases h with (h | h) | h <;> simp [h]

theorem indexOf?_le {token cs : List Char} {n : Nat} (h : indexOf? token cs = some n) :
    n + token.length ≤ cs.length := by
  induction cs generalizing n with
  | nil =>
    simp only [indexOf?] at h
    split at h
    · rename_i ht
      injection h with h
      subst h
      simp [ht]
    · nomatch h
  | cons c cs ih =>
    simp only [indexOf?] at h
    split at h
    · rename_i hp
      have := (List.isPrefixOf_iff_prefix.mp hp).length_le
      injection h with h
      omega
    · obtain ⟨m, hm, rfl⟩ := Option.map_eq_some_iff.mp h
      have := ih hm
      simp only [List.length_cons]
      omega

theorem doctypeLength?_pos {depth n : Nat} {cs : List Char} (h : doctypeLength? depth cs = some n) :
    0 < n ∧ 0 < cs.length := by
  cases cs with
  | nil => nomatch h
  | cons c cs =>
    refine ⟨?_, by simp⟩
    simp only [doctypeLength?] at h
    split at h
    · injection h with h
      omega
    · obtain ⟨m, _, rfl⟩ := Option.map_eq_some_iff.mp h
      omega

namespace Cursor

def atEnd (c : Cursor) : Bool := c.rest.isEmpty

def skip (n : Nat) (c : Cursor) : Cursor :=
  ⟨c.line + (c.rest.take n).count '\n', c.rest.drop n⟩

def startsWith (c : Cursor) (token : String) : Bool := token.toList.isPrefixOf c.rest

def skipSpaces (c : Cursor) : Cursor := c.skip (c.rest.takeWhile isSpace).length

/-- At the end of the text nothing else is said than that it ended. -/
def missing (c : Cursor) (wanted : Wanted) : Error :=
  if c.atEnd then .unexpectedEnd c.line else .expected c.line wanted

def ranOut (c : Cursor) : Error := .unexpectedEnd (c.skip c.rest.length).line

def skipPast (token : String) (c : Cursor) : Except Error (List Char × Cursor) :=
  match indexOf? token.toList c.rest with
  | some n => .ok (c.rest.take n, c.skip (n + token.toList.length))
  | none => .error c.ranOut

def skipDoctype (c : Cursor) : Except Error Cursor :=
  match doctypeLength? 0 c.rest with
  | some n => .ok (c.skip n)
  | none => .error c.ranOut

def expect (token : String) (wanted : Wanted) (c : Cursor) : Except Error Cursor :=
  if c.startsWith token then .ok (c.skip token.toList.length) else .error (c.missing wanted)

def name (c : Cursor) : Except Error (String × Cursor) :=
  if c.rest.head?.any isNameStart then
    let cs := c.rest.takeWhile isNameChar
    .ok (String.ofList cs, c.skip cs.length)
  else
    .error (c.missing .name)

/-- Text with its references replaced; a bad one is reported at the given line. -/
def decode (line : Nat) (raw : List Char) : Except Error String :=
  match decodeReferences raw with
  | .ok cs => .ok (String.ofList cs)
  | .error body => .error (.badReference line (String.ofList body))

def valueUpTo (quote : Char) (c : Cursor) : Except Error (String × Cursor) :=
  match Text.splitAtFirst quote c.rest with
  | (_, none) => .error (.unexpectedEnd c.line)
  | (raw, some _) =>
    if raw.contains '<' then .error (.expected c.line .valueWithoutMarkup)
    else (decode c.line raw).map fun value => (value, c.skip (raw.length + 1))

def quotedValue (c : Cursor) : Except Error (String × Cursor) :=
  match c.rest with
  | quote :: _ =>
    if quote = '"' ∨ quote = Char.ofNat 39 then (c.skip 1).valueUpTo quote
    else .error (c.missing .quotedValue)
  | [] => .error (c.missing .quotedValue)

def namedValue (c : Cursor) : Except Error ((String × String) × Cursor) := do
  let (key, c) ← c.name
  let c ← c.skipSpaces.expect "=" .equalsSign
  let (value, c) ← c.skipSpaces.quotedValue
  return ((key, value), c)

/-! Every piece that is read takes the cursor forward. -/

@[simp] theorem length_skip (n : Nat) (c : Cursor) :
    (c.skip n).rest.length = c.rest.length - n := by
  simp [skip]

theorem length_of_startsWith {c : Cursor} {token : String} (h : c.startsWith token = true) :
    token.toList.length ≤ c.rest.length :=
  (List.isPrefixOf_iff_prefix.mp h).length_le

theorem length_skipSpaces (c : Cursor) : c.skipSpaces.rest.length ≤ c.rest.length := by
  simp [skipSpaces]

theorem length_skipSpaces_lt {c : Cursor} (h : c.rest.head?.any isSpace = true) :
    c.skipSpaces.rest.length < c.rest.length := by
  cases hc : c.rest with
  | nil => simp [hc] at h
  | cons d cs =>
    have hd : isSpace d = true := by simpa [hc] using h
    simp only [skipSpaces, length_skip, hc, List.takeWhile_cons, hd, if_true, List.length_cons]
    omega

theorem length_skipPast {token : String} {c d : Cursor} {data : List Char}
    (h : c.skipPast token = .ok (data, d)) :
    d.rest.length + token.toList.length ≤ c.rest.length := by
  unfold skipPast at h
  split at h
  · rename_i n hn
    have := indexOf?_le hn
    injection h with h
    injection h with _ h
    subst h
    rw [length_skip]
    omega
  · nomatch h

theorem length_skipDoctype {c d : Cursor} (h : c.skipDoctype = .ok d) :
    d.rest.length < c.rest.length := by
  unfold skipDoctype at h
  split at h
  · rename_i n hn
    have := doctypeLength?_pos hn
    injection h with h
    subst h
    rw [length_skip]
    omega
  · nomatch h

theorem length_expect {token : String} {wanted : Wanted} {c d : Cursor}
    (h : c.expect token wanted = .ok d) : d.rest.length ≤ c.rest.length := by
  unfold expect at h
  split at h
  · injection h with h
    subst h
    rw [length_skip]
    omega
  · nomatch h

theorem length_name {c d : Cursor} {name : String} (h : c.name = .ok (name, d)) :
    d.rest.length < c.rest.length := by
  unfold Cursor.name at h
  split at h
  · rename_i hs
    injection h with h
    injection h with _ h
    subst h
    cases hc : c.rest with
    | nil => simp [hc] at hs
    | cons a cs =>
      have ha : isNameChar a = true := isNameChar_of_isNameStart (by simpa [hc] using hs)
      simp only [length_skip, hc, List.takeWhile_cons, ha, if_true, List.length_cons]
      omega
  · nomatch h

theorem length_valueUpTo {quote : Char} {c d : Cursor} {value : String}
    (h : c.valueUpTo quote = .ok (value, d)) : d.rest.length ≤ c.rest.length := by
  unfold valueUpTo at h
  split at h
  · nomatch h
  · split at h
    · nomatch h
    · obtain ⟨_, _, h⟩ := map_eq_ok.mp h
      injection h with _ h
      subst h
      rw [length_skip]
      omega

theorem length_quotedValue {c d : Cursor} {value : String}
    (h : c.quotedValue = .ok (value, d)) : d.rest.length ≤ c.rest.length := by
  unfold quotedValue at h
  split at h
  · split at h
    · have := length_valueUpTo h
      rw [length_skip] at this
      omega
    · nomatch h
  · nomatch h

theorem length_namedValue {c d : Cursor} {pair : String × String}
    (h : c.namedValue = .ok (pair, d)) : d.rest.length < c.rest.length := by
  obtain ⟨⟨_, c₁⟩, h₁, h⟩ := bind_eq_ok.mp h
  obtain ⟨c₂, h₂, h⟩ := bind_eq_ok.mp h
  obtain ⟨⟨_, c₃⟩, h₃, h⟩ := bind_eq_ok.mp h
  injection h with h
  injection h with _ h
  subst h
  have := length_name h₁
  have := length_expect h₂
  have := length_quotedValue h₃
  have := length_skipSpaces c₁
  have := length_skipSpaces c₂
  dsimp only at *
  omega

end Cursor

end ThreeAddress.Markup
