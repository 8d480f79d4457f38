import ThreeAddress.Markup.Reader
import ThreeAddress.Proofs.Numerals

/-! Texts that render a document, and that reading them gives the document back. The renderings are
given by relations, so that blanks, quotes, references, character data sections and the form of an
empty element are free; the lines on which elements stand are part of them. -/

namespace ThreeAddress.Markup

def IsSpaces (cs : List Char) : Prop := ∀ c ∈ cs, isSpace c = true

def IsName (cs : List Char) : Prop :=
  cs.head?.any isNameStart = true ∧ ∀ c ∈ cs, isNameChar c = true

instance decidableIsName (cs : List Char) : Decidable (IsName cs) :=
  decidable_of_iff (cs.head?.any isNameStart = true ∧ cs.all isNameChar = true)
    (and_congr_right fun _ => List.all_eq_true)

theorem IsName.exists_cons {cs : List Char} (h : IsName cs) :
    ∃ c rest, cs = c :: rest ∧ isNameStart c = true := by
  cases cs with
  | nil => nomatch h.1
  | cons c rest => exact ⟨c, rest, rfl, h.1⟩

/-- What stands between the ampersand and the semicolon of a reference to a character. -/
inductive Denotes : List Char → Char → Prop where
  | lt : Denotes "lt".toList '<'
  | gt : Denotes "gt".toList '>'
  | amp : Denotes "amp".toList '&'
  | quot : Denotes "quot".toList '"'
  | apos : Denotes "apos".toList (Char.ofNat 39)
  | decimal {digits c} (hne : digits ≠ []) (hdigits : ∀ d ∈ digits, Text.isDecimalDigit d = true)
      (hvalue : Text.numeral 10 digits = c.toNat) : Denotes ('#' :: digits) c
  | hexadecimal {x digits c} (hx : x = 'x' ∨ x = 'X') (hne : digits ≠ [])
      (hdigits : ∀ d ∈ digits, Text.isHexDigit d = true)
      (hvalue : Text.numeral 16 digits = c.toNat) : Denotes ('#' :: x :: digits) c

/-- The first text, with its references replaced, is the second one. -/
inductive Spells : List Char → List Char → Prop where
  | nil : Spells [] []
  | plain {c raw cs} (hc : c ≠ '&') : Spells raw cs → Spells (c :: raw) (c :: cs)
  | reference {body c raw cs} (hc : Denotes body c) :
      Spells raw cs → Spells ('&' :: body ++ ';' :: raw) (c :: cs)

inductive SpellsQuoted : List Char → List Char → Prop where
  | mk {quote raw value} (hquote : quote = '"' ∨ quote = Char.ofNat 39) (hraw : quote ∉ raw)
      (hangle : '<' ∉ raw) (hvalue : Spells raw value) :
      SpellsQuoted (quote :: (raw ++ [quote])) value

inductive SpellsAttribute : List Char → String → String → Prop where
  | mk {key before after raw value} (hkey : IsName key) (hbefore : IsSpaces before)
      (hafter : IsSpaces after) (hvalue : SpellsQuoted raw value) :
      SpellsAttribute (key ++ (before ++ '=' :: (after ++ raw))) (String.ofList key)
        (String.ofList value)

inductive SpellsAttributes : List Char → List (String × String) → Prop where
  | nil : SpellsAttributes [] []
  | cons {blanks raw key value rest attributes} (hne : blanks ≠ []) (hblanks : IsSpaces blanks)
      (hraw : SpellsAttribute raw key value) : SpellsAttributes rest attributes →
      SpellsAttributes (blanks ++ (raw ++ rest)) ((key, value) :: attributes)

/-- A tag that is no end tag, without its opening angle. It ends with `close`. -/
inductive SpellsTag (close : List Char) : List Char → String → List (String × String) → Prop where
  | mk {name raw attributes blanks} (hname : IsName name) (hraw : SpellsAttributes raw attributes)
      (hkeys : (attributes.map Prod.fst).Nodup) (hblanks : IsSpaces blanks) :
      SpellsTag close (name ++ (raw ++ (blanks ++ close))) (String.ofList name) attributes

inductive SpellsEndTag : List Char → String → Prop where
  | mk {name blanks} (hname : IsName name) (hblanks : IsSpaces blanks) :
      SpellsEndTag (name ++ (blanks ++ ['>'])) (String.ofList name)

mutual

/-- An element without its opening angle, on the line that it begins on. -/
inductive SpellsElement : Nat → List Char → Element → Prop where
  | void {line tag name attributes} (htag : SpellsTag ['/', '>'] tag name attributes) :
      SpellsElement line tag ⟨name, attributes, "", [], line⟩
  | tags {line tag name attributes inner text children close}
      (htag : SpellsTag ['>'] tag name attributes) (hclose : SpellsEndTag close name) :
      SpellsContent (line + tag.count '\n') inner text children →
      SpellsElement line (tag ++ (inner ++ '<' :: '/' :: close))
        ⟨name, attributes, String.ofList text, children, line⟩

/-- What stands between the tags of an element from a line on: the joined text, and the
children. -/
inductive SpellsContent : Nat → List Char → List Char → List Element → Prop where
  | nil {line} : SpellsContent line [] [] []
  | text {line raw text rest restText children} (hangle : '<' ∉ raw) (htext : Spells raw text) :
      SpellsContent (line + raw.count '\n') rest restText children →
      SpellsContent line (raw ++ rest) (text ++ restText) children
  | data {line data rest restText children} (hdata : ¬ [']', ']', '>'] <:+: data) :
      SpellsContent (line + data.count '\n') rest restText children →
      SpellsContent line ("<![CDATA[".toList ++ (data ++ (']' :: ']' :: '>' :: rest)))
        (data ++ restText) children
  | child {line raw e rest text siblings} :
      SpellsElement line raw e → SpellsContent (line + raw.count '\n') rest text siblings →
      SpellsContent line ('<' :: (raw ++ rest)) text (e :: siblings)

end

/-- A whole text: the root element between blanks, perhaps with a byte-order mark in front. -/
inductive SpellsDocument : List Char → Element → Prop where
  | mk {mark before raw after root} (hmark : mark = [] ∨ mark = [Char.ofNat 0xfeff])
      (hbefore : IsSpaces before) (hafter : IsSpaces after) :
      SpellsElement (1 + before.count '\n') raw root →
      SpellsDocument (mark ++ (before ++ '<' :: (raw ++ after))) root

namespace Element

mutual

def depth : Element → Nat
  | ⟨_, _, _, children, _⟩ => depthAll children + 1

def depthAll : List Element → Nat
  | [] => 0
  | e :: rest => max e.depth (depthAll rest)

end

end Element

/-! References. -/

theorem dropPlus_of_digits {digits : List Char} (h : ∀ d ∈ digits, Text.isHexDigit d = true) :
    dropPlus digits = digits := by
  unfold dropPlus
  split
  · exact absurd (h '+' (by simp)) (by decide)
  · rfl

theorem resolveReference?_of_denotes {body : List Char} {c : Char} (h : Denotes body c) :
    resolveReference? body = some c := by
  cases h with
  | lt | gt | amp | quot | apos => rfl
  | @decimal digits _ hne hdigits hvalue =>
    have hhex : ∀ d ∈ digits, Text.isHexDigit d = true := fun d hd =>
      Text.isHexDigit_of_isDecimalDigit (hdigits d hd)
    have hdecimal : Text.decimal? digits = some c.toNat := by
      rw [Text.decimal?, if_pos ⟨hne, List.all_eq_true.mpr hdigits⟩, hvalue]
    -- A decimal numeral is not taken for a hexadecimal one, which begins with a letter.
    have hbody : resolveReference? ('#' :: digits) =
        (Text.decimal? (dropPlus digits)).bind Text.scalar? := by
      rw [resolveReference?.eq_def, if_neg (by simp), if_neg (by simp), if_neg (by simp),
        if_neg (by simp), if_neg (by simp)]
      split
      · rename_i heq
        exact absurd (hdigits 'x' (by simp [List.cons.inj heq])) (by decide)
      · rename_i heq
        exact absurd (hdigits 'X' (by simp [List.cons.inj heq])) (by decide)
      · rename_i heq
        rw [(List.cons.inj heq).2]
      · rename_i hother
        exact absurd rfl (hother digits)
    rw [hbody, dropPlus_of_digits hhex, hdecimal, Option.bind_some, Text.scalar?_toNat]
  | @hexadecimal x digits _ hx hne hdigits hvalue =>
    have hhexadecimal : Text.hexadecimal? digits = some c.toNat := by
      rw [Text.hexadecimal?, if_pos ⟨hne, List.all_eq_true.mpr hdigits⟩, hvalue]
    have hbody : resolveReference? ('#' :: x :: digits) =
        (Text.hexadecimal? (dropPlus digits)).bind Text.scalar? := by
      rcases hx with rfl | rfl <;> rfl
    rw [hbody, dropPlus_of_digits hdigits, hhexadecimal, Option.bind_some, Text.scalar?_toNat]

theorem not_mem_of_denotes {body : List Char} {c : Char} (h : Denotes body c) : ';' ∉ body := by
  cases h with
  | lt | gt | amp | quot | apos => decide
  | decimal _ hdigits =>
    intro hmem
    rcases List.mem_cons.mp hmem with hhash | hmem
    · nomatch hhash
    · exact absurd (hdigits ';' hmem) (by decide)
  | hexadecimal hx _ hdigits =>
    intro hmem
    rcases List.mem_cons.mp hmem with hhash | hmem
    · nomatch hhash
    rcases List.mem_cons.mp hmem with rfl | hmem
    · exact absurd hx (by decide)
    · exact absurd (hdigits ';' hmem) (by decide)

theorem Spells.append {raw raw' cs cs' : List Char} (h : Spells raw cs) (h' : Spells raw' cs') :
    Spells (raw ++ raw') (cs ++ cs') := by
  induction h with
  | nil => exact h'
  | plain hc _ ih => exact .plain hc ih
  | reference hc _ ih =>
    have hspells := Spells.reference hc ih
    simpa using hspells

theorem decodeReferencesFrom_body {body c rest} (read : List Char) (hb : ';' ∉ body)
    (hc : resolveReference? (read.reverse ++ body) = some c) :
    decodeReferencesFrom (some read) (body ++ ';' :: rest) =
      (decodeReferencesFrom none rest).map (c :: ·) := by
  induction body generalizing read with
  | nil =>
    rw [List.append_nil] at hc
    simp [decodeReferencesFrom, hc]
  | cons b body ih =>
    rw [List.mem_cons, not_or] at hb
    rw [List.cons_append, decodeReferencesFrom, if_neg (Ne.symm hb.1)]
    exact ih (b :: read) hb.2 (by simpa using hc)

theorem decodeReferences_of_spells {raw cs : List Char} (h : Spells raw cs) :
    decodeReferences raw = .ok cs := by
  induction h with
  | nil => rfl
  | plain hc _ ih =>
    rw [decodeReferences] at ih ⊢
    rw [decodeReferencesFrom, if_neg hc, ih]
    rfl
  | reference hc _ ih =>
    rw [decodeReferences] at ih ⊢
    rw [List.cons_append, decodeReferencesFrom, if_pos rfl,
      decodeReferencesFrom_body [] (not_mem_of_denotes hc) (resolveReference?_of_denotes hc), ih]
    rfl

/-! Pieces of markup. -/

theorem indexOf?_of_isPrefixOf {token cs : List Char} (h : token.isPrefixOf cs = true) :
    indexOf? token cs = some 0 := by
  cases cs with
  | nil => rw [indexOf?, if_pos (List.prefix_nil.mp (List.isPrefixOf_iff_prefix.mp h))]
  | cons c cs => rw [indexOf?, if_pos h]

/-- A token that has its last character only once is found where it stands first: an earlier place
would end inside of it. -/
theorem indexOf?_append_token {front data : List Char} {z : Char} (hz : z ∉ front)
    (h : ¬ (front ++ [z]) <:+: data) (rest : List Char) :
    indexOf? (front ++ [z]) (data ++ (front ++ z :: rest)) = some data.length := by
  induction data with
  | nil => exact indexOf?_of_isPrefixOf (List.isPrefixOf_iff_prefix.mpr ⟨rest, by simp⟩)
  | cons c data ih =>
    have hnot : ¬ (front ++ [z]).isPrefixOf (c :: (data ++ (front ++ z :: rest))) = true := by
      rw [List.isPrefixOf_iff_prefix, ← List.cons_append]
      intro hprefix
      by_cases hlen : (front ++ [z]).length ≤ (c :: data).length
      · exact h (List.prefix_of_prefix_length_le hprefix (List.prefix_append _ _) hlen).isInfix
      · obtain ⟨tail, htail⟩ := hprefix
        have hlast : (front ++ [z] ++ tail)[front.length]? = some z := by simp
        simp only [List.length_append, List.length_cons, List.length_nil] at hlen
        rw [htail, List.getElem?_append_right (by simp only [List.length_cons]; omega),
          List.getElem?_append_left (by simp only [List.length_cons]; omega)] at hlast
        exact hz (List.mem_of_getElem? hlast)
    have hrest := ih fun hinside => h (hinside.trans (List.suffix_cons c data).isInfix)
    rw [List.cons_append, indexOf?, if_neg hnot, hrest]
    rfl

namespace Cursor

variable {line : Nat} {rest : List Char}

theorem takeWhile_append_stop {p : Char → Bool} {cs : List Char} (h : ∀ c ∈ cs, p c = true)
    (hstop : ∀ c, rest.head? = some c → p c = false) : (cs ++ rest).takeWhile p = cs := by
  rw [List.takeWhile_append_of_pos h]
  cases rest with
  | nil => simp
  | cons c rest => simp [hstop c rfl]

theorem skip_append (line : Nat) (raw rest : List Char) :
    (⟨line, raw ++ rest⟩ : Cursor).skip raw.length = ⟨line + raw.count '\n', rest⟩ := by
  simp [skip]

theorem skipSpaces_append {blanks : List Char} (h : IsSpaces blanks)
    (hstop : ∀ c, rest.head? = some c → isSpace c = false) :
    (⟨line, blanks ++ rest⟩ : Cursor).skipSpaces = ⟨line + blanks.count '\n', rest⟩ := by
  rw [skipSpaces, takeWhile_append_stop h hstop, skip_append]

theorem name_append {name : List Char} (h : IsName name)
    (hstop : ∀ c, rest.head? = some c → isNameChar c = false) :
    (⟨line, name ++ rest⟩ : Cursor).name =
      .ok (String.ofList name, ⟨line + name.count '\n', rest⟩) := by
  have hhead : (name ++ rest).head?.any isNameStart = true := by
    obtain ⟨c, tail, rfl, hs⟩ := h.exists_cons
    exact hs
  rw [Cursor.name, if_pos hhead]
  simp only [takeWhile_append_stop h.2 hstop, skip_append]

theorem expect_append (token : String) (wanted : Wanted) (line : Nat) (rest : List Char) :
    (⟨line, token.toList ++ rest⟩ : Cursor).expect token wanted =
      .ok ⟨line + token.toList.count '\n', rest⟩ := by
  have hstarts : (⟨line, token.toList ++ rest⟩ : Cursor).startsWith token = true :=
    List.isPrefixOf_iff_prefix.mpr (List.prefix_append _ _)
  rw [expect, if_pos hstarts, skip_append]

theorem skipPast_append {front data : List Char} {z : Char} (token : String) (hz : z ∉ front)
    (ht : token.toList = front ++ [z]) (h : ¬ (front ++ [z]) <:+: data) (line : Nat)
    (rest : List Char) :
    (⟨line, data ++ (front ++ z :: rest)⟩ : Cursor).skipPast token =
      .ok (data, ⟨line + (data ++ (front ++ [z])).count '\n', rest⟩) := by
  have hskip := skip_append line (data ++ (front ++ [z])) rest
  rw [List.length_append] at hskip
  rw [skipPast, ht, indexOf?_append_token hz h rest]
  simpa using hskip

theorem quotedValue_append {raw value : List Char} (h : SpellsQuoted raw value) (line : Nat)
    (rest : List Char) :
    (⟨line, raw ++ rest⟩ : Cursor).quotedValue =
      .ok (String.ofList value, ⟨line + raw.count '\n', rest⟩) := by
  obtain ⟨hquote, hraw, hangle, hvalue⟩ := h
  rename_i quote raw
  have hopen : (⟨line, quote :: (raw ++ quote :: rest)⟩ : Cursor).skip 1 =
      ⟨line + [quote].count '\n', raw ++ quote :: rest⟩ :=
    skip_append line [quote] _
  have hclose : (⟨line + [quote].count '\n', raw ++ quote :: rest⟩ : Cursor).skip (raw.length + 1) =
      ⟨line + [quote].count '\n' + (raw ++ [quote]).count '\n', rest⟩ := by
    simpa using skip_append (line + [quote].count '\n') (raw ++ [quote]) rest
  have hc : raw.contains '<' = false := by simpa using hangle
  simp only [List.cons_append, List.append_assoc, List.nil_append, quotedValue, if_pos hquote,
    hopen, valueUpTo, Text.splitAtFirst_of_mem hraw, hc, Bool.false_eq_true, if_false, decode,
    decodeReferences_of_spells hvalue, hclose]
  simp [Except.map, List.count_cons, List.count_append, Nat.add_assoc, Nat.add_comm]

end Cursor

theorem isNameChar_of_isSpace {c : Char} (h : isSpace c = true) : isNameChar c = false := by
  simp only [isSpace, Bool.or_eq_true, beq_iff_eq] at h
  rcases h with ((rfl | rfl) | rfl) | rfl <;> decide

theorem isSpace_of_isNameChar {c : Char} (h : isNameChar c = true) : isSpace c = false := by
  cases hs : isSpace c with
  | false => rfl
  | true => rw [isNameChar_of_isSpace hs] at h; nomatch h

theorem head_not_space_of_isName {name rest : List Char} (h : IsName name) :
    ∀ c, (name ++ rest).head? = some c → isSpace c = false := by
  obtain ⟨d, name, rfl, hs⟩ := h.exists_cons
  intro c hc
  obtain rfl : d = c := Option.some.inj hc
  exact isSpace_of_isNameChar (isNameChar_of_isNameStart hs)

theorem head_of_spaces {blanks rest : List Char} {c d : Char} (h : IsSpaces blanks)
    (hd : isNameChar d = false) (hc : (blanks ++ d :: rest).head? = some c) :
    isNameChar c = false := by
  cases blanks with
  | nil => obtain rfl : d = c := Option.some.inj hc; exact hd
  | cons b blanks =>
    obtain rfl : b = c := Option.some.inj hc
    exact isNameChar_of_isSpace (h b (by simp))

theorem namedValue_append {raw : List Char} {key value : String} (h : SpellsAttribute raw key value)
    (line : Nat) (rest : List Char) :
    (⟨line, raw ++ rest⟩ : Cursor).namedValue =
      .ok ((key, value), ⟨line + raw.count '\n', rest⟩) := by
  obtain ⟨hkey, hbefore, hafter, hvalue⟩ := h
  rename_i key before after raw value
  have hquote : ∀ c, (raw ++ rest).head? = some c → isSpace c = false := by
    obtain ⟨hquote, -, -, -⟩ := hvalue
    rintro c ⟨⟩
    rcases hquote with rfl | rfl <;> decide
  have hequals := Cursor.expect_append "=" .equalsSign
    (line + key.count '\n' + before.count '\n') (after ++ (raw ++ rest))
  simp only [String.reduceToList, List.cons_append, List.nil_append] at hequals
  simp only [List.append_assoc, List.cons_append]
  rw [Cursor.namedValue, Cursor.name_append hkey fun c => head_of_spaces hbefore (by decide)]
  simp only [bind, Except.bind]
  rw [Cursor.skipSpaces_append hbefore (by simp; decide), hequals]
  simp only [Cursor.skipSpaces_append hafter hquote, Cursor.quotedValue_append hvalue]
  simp [pure, Except.pure, List.count_append, Nat.add_assoc]

namespace Stage

theorem run_of_step {stage stage' : Stage} {c d : Cursor}
    (h : stage.step c = .ok (.next stage' d)) : stage.run c = stage'.run d := by
  rw [run_eq, h]

theorem isPrefixOf_eq_false {c d : Char} {cs ds : List Char} (h : c ≠ d) :
    (c :: cs).isPrefixOf (d :: ds) = false := by
  rw [List.isPrefixOf_cons_cons, beq_eq_false_iff_ne.mpr h, Bool.false_and]

theorem isPrefixOf_isName {c : Char} {cs name rest : List Char} (h : IsName name)
    (hc : isNameChar c = false) : (c :: cs).isPrefixOf (name ++ rest) = false := by
  obtain ⟨d, name, rfl, hs⟩ := h.exists_cons
  refine isPrefixOf_eq_false ?_
  rintro rfl
  rw [isNameChar_of_isNameStart hs] at hc
  nomatch hc

theorem run_attribute {e : OpenElement} {blanks raw : List Char} {key value : String}
    (hne : blanks ≠ []) (hblanks : IsSpaces blanks) (h : SpellsAttribute raw key value)
    (hnew : key ∉ e.attributes.map Prod.fst) (outer : List OpenElement) (line : Nat)
    (rest : List Char) :
    run (.startTag e outer) ⟨line, blanks ++ (raw ++ rest)⟩ =
      run (.startTag (e.addAttribute key value) outer)
        ⟨line + (blanks ++ raw).count '\n', rest⟩ := by
  obtain ⟨name, tail, rfl, hname⟩ : ∃ name tail, raw = name ++ tail ∧ IsName name := by
    obtain ⟨hkey, -, -, -⟩ := h
    exact ⟨_, _, rfl, hkey⟩
  have hspaces : (⟨line, blanks ++ (name ++ tail ++ rest)⟩ : Cursor).skipSpaces =
      ⟨line + blanks.count '\n', name ++ tail ++ rest⟩ := by
    rw [List.append_assoc name]
    exact Cursor.skipSpaces_append hblanks (head_not_space_of_isName hname)
  have hhead : (blanks ++ (name ++ tail ++ rest)).head?.any isSpace = true := by
    obtain ⟨b, blanks, rfl⟩ := List.exists_cons_of_ne_nil hne
    simp [hblanks b (by simp)]
  have hfresh : (e.attributes.any fun kv => kv.1 == key) = false := by
    rw [List.any_eq_false]
    intro kv hkv heq
    exact hnew (List.mem_map.mpr ⟨kv, hkv, beq_iff_eq.mp heq⟩)
  have hvoid (line) : (⟨line, name ++ tail ++ rest⟩ : Cursor).startsWith "/>" = false := by
    rw [List.append_assoc]
    exact isPrefixOf_isName hname (by decide)
  have hend (line) : (⟨line, name ++ tail ++ rest⟩ : Cursor).startsWith ">" = false := by
    rw [List.append_assoc]
    exact isPrefixOf_isName hname (by decide)
  apply run_of_step
  simp only [step, stepStartTag, hspaces, hvoid, hend, hhead, if_true, Bool.false_eq_true, if_false,
    namedValue_append h, bind, Except.bind, hfresh, pure, Except.pure]
  simp [List.count_append, Nat.add_assoc]

theorem run_attributes {raw : List Char} {attributes : List (String × String)}
    (h : SpellsAttributes raw attributes) (e : OpenElement) (outer : List OpenElement) (line : Nat)
    (rest : List Char) (hkeys : ((e.attributes ++ attributes).map Prod.fst).Nodup) :
    run (.startTag e outer) ⟨line, raw ++ rest⟩ =
      run (.startTag { e with attributes := e.attributes ++ attributes } outer)
        ⟨line + raw.count '\n', rest⟩ := by
  induction h generalizing e line with
  | nil => simp
  | @cons blanks raw key value more attributes hne hblanks hraw _ ih =>
    have hassoc : e.attributes ++ (key, value) :: attributes =
        (e.addAttribute key value).attributes ++ attributes := by
      simp [OpenElement.addAttribute]
    have hnew : key ∉ e.attributes.map Prod.fst := by
      rw [List.map_append, List.nodup_append] at hkeys
      intro hmem
      exact hkeys.2.2 _ hmem _ (by simp) rfl
    have hread := run_attribute hne hblanks hraw hnew outer line (more ++ rest)
    rw [hassoc] at hkeys ⊢
    rw [List.append_assoc, List.append_assoc, hread, ih _ _ hkeys]
    simp [OpenElement.addAttribute, List.count_append, Nat.add_assoc]

theorem head_of_attributes {raw blanks rest : List Char} {attributes : List (String × String)}
    (h : SpellsAttributes raw attributes) (hblanks : IsSpaces blanks) {d : Char}
    (hd : isNameChar d = false) :
    ∀ c, (raw ++ (blanks ++ d :: rest)).head? = some c → isNameChar c = false := by
  intro c hc
  cases h with
  | nil => exact head_of_spaces hblanks hd hc
  | cons hne hspaces =>
    obtain ⟨b, blanks', rfl⟩ := List.exists_cons_of_ne_nil hne
    obtain rfl : b = c := Option.some.inj hc
    exact isNameChar_of_isSpace (hspaces b (by simp))

theorem run_tag {d : Char} {close tag : List Char} {name : String}
    {attributes : List (String × String)} (h : SpellsTag (d :: close) tag name attributes)
    (hd : isNameChar d = false) (outer : List OpenElement) (hdepth : outer.length < maxDepth)
    (line : Nat) (rest : List Char) :
    ∃ stage c line' blanks, openElement outer ⟨line, tag ++ rest⟩ = .ok (.next stage c) ∧
      IsSpaces blanks ∧ line' + (blanks ++ d :: close).count '\n' = line + tag.count '\n' ∧
      run stage c = run (.startTag { name := name, line := line, attributes := attributes } outer)
        ⟨line', blanks ++ d :: (close ++ rest)⟩ := by
  obtain ⟨hname, hraw, hkeys, hblanks⟩ := h
  rename_i name raw blanks
  have hopen : openElement outer ⟨line, name ++ (raw ++ (blanks ++ d :: (close ++ rest)))⟩ =
      .ok (.next (.startTag { name := String.ofList name, line := line } outer)
        ⟨line + name.count '\n', raw ++ (blanks ++ d :: (close ++ rest))⟩) := by
    rw [openElement, if_neg (Nat.ne_of_lt hdepth),
      Cursor.name_append hname (head_of_attributes hraw hblanks hd)]
    rfl
  have hattributes := run_attributes hraw { name := String.ofList name, line := line } outer
    (line + name.count '\n') (blanks ++ d :: (close ++ rest)) (by simpa using hkeys)
  refine ⟨_, _, line + name.count '\n' + raw.count '\n', blanks, by simpa using hopen, hblanks, ?_,
    hattributes⟩
  simp only [List.count_append]
  omega

theorem run_startTag {tag : List Char} {name : String} {attributes : List (String × String)}
    (h : SpellsTag ['>'] tag name attributes) (outer : List OpenElement)
    (hdepth : outer.length < maxDepth) (line : Nat) (rest : List Char) :
    ∃ stage d, openElement outer ⟨line, tag ++ rest⟩ = .ok (.next stage d) ∧
      run stage d = run (.content { name := name, line := line, attributes := attributes } outer)
        ⟨line + tag.count '\n', rest⟩ := by
  obtain ⟨stage, c, line', blanks, hopen, hblanks, hline, hrun⟩ :=
    run_tag h (by decide) outer hdepth line rest
  refine ⟨stage, c, hopen, hrun.trans (run_of_step ?_)⟩
  have hvoid (line) : (⟨line, '>' :: rest⟩ : Cursor).startsWith "/>" = false := rfl
  have hend (line) : (⟨line, '>' :: rest⟩ : Cursor).startsWith ">" = true := rfl
  rw [List.nil_append, step, stepStartTag, Cursor.skipSpaces_append hblanks (by simp; decide)]
  simp only [hvoid, hend, Bool.false_eq_true, if_false, if_true, ← hline]
  simp [Cursor.skip, List.count_append]

theorem run_voidTag {tag : List Char} {name : String} {attributes : List (String × String)}
    (h : SpellsTag ['/', '>'] tag name attributes) (outer : List OpenElement)
    (hdepth : outer.length < maxDepth) (line : Nat) (rest : List Char) :
    ∃ stage d, openElement outer ⟨line, tag ++ rest⟩ = .ok (.next stage d) ∧
      run stage d =
        run (afterElement { name := name, line := line, attributes := attributes } outer)
          ⟨line + tag.count '\n', rest⟩ := by
  obtain ⟨stage, c, line', blanks, hopen, hblanks, hline, hrun⟩ :=
    run_tag h (by decide) outer hdepth line rest
  refine ⟨stage, c, hopen, hrun.trans (run_of_step ?_)⟩
  have hvoid (line) : (⟨line, '/' :: '>' :: rest⟩ : Cursor).startsWith "/>" = true := rfl
  rw [List.cons_append, List.nil_append, step, stepStartTag,
    Cursor.skipSpaces_append hblanks (by simp; decide)]
  simp only [hvoid, if_true, ← hline]
  simp [Cursor.skip, List.count_append]

theorem run_endTag {close : List Char} {e : OpenElement} (h : SpellsEndTag close e.name)
    (outer : List OpenElement) (line : Nat) (rest : List Char) :
    run (.content e outer) ⟨line, '<' :: '/' :: (close ++ rest)⟩ =
      run (afterElement e outer) ⟨line + close.count '\n', rest⟩ := by
  generalize hn : e.name = name at h
  obtain ⟨hname, hblanks⟩ := h
  rename_i name blanks
  apply run_of_step
  have hend : (⟨line, '<' :: '/' :: (name ++ (blanks ++ ['>']) ++ rest)⟩ : Cursor).startsWith "</" =
      true := rfl
  have hskip : (⟨line, '<' :: '/' :: (name ++ (blanks ++ ['>']) ++ rest)⟩ : Cursor).skip 2 =
      ⟨line, name ++ (blanks ++ '>' :: rest)⟩ := by
    simp [Cursor.skip]
  rw [step, stepContent, if_neg (by simp [Cursor.atEnd]), if_pos hend, hskip, endTag,
    Cursor.name_append hname fun c => head_of_spaces hblanks (by decide)]
  have hstop : ∀ c, ('>' :: rest).head? = some c → isSpace c = false := by
    simp
    decide
  have hclose := Cursor.expect_append ">" .endOfEndTag
    (line + name.count '\n' + blanks.count '\n') rest
  simp only [String.reduceToList, List.cons_append, List.nil_append] at hclose
  simp only [bind, Except.bind, Cursor.skipSpaces_append hblanks hstop, hclose, hn, if_true]
  simp [pure, Except.pure, List.count_append, Nat.add_assoc]

theorem run_text {raw text rest : List Char} (hangle : '<' ∉ raw) (h : Spells raw text)
    (hrest : rest.head? = some '<') (e : OpenElement) (outer : List OpenElement) (line : Nat) :
    run (.content e outer) ⟨line, raw ++ rest⟩ =
      run (.content (e.addText (String.ofList text)) outer) ⟨line + raw.count '\n', rest⟩ := by
  cases raw with
  | nil =>
    cases h
    simp [OpenElement.addText]
  | cons c raw =>
    apply run_of_step
    have hc : c ≠ '<' := fun h => hangle (by simp [h])
    have htake : ((c :: raw) ++ rest).takeWhile (· != '<') = c :: raw := by
      apply Cursor.takeWhile_append_stop
      · intro d hd
        rw [bne_iff_ne]
        rintro rfl
        exact hangle hd
      · intro d hd
        obtain rfl : '<' = d := Option.some.inj (hrest.symm.trans hd)
        decide
    have hmarkup (token : String) (ht : token.toList.head? = some '<') :
        (⟨line, c :: raw ++ rest⟩ : Cursor).startsWith token = false := by
      obtain ⟨cs, hcs⟩ := List.head?_eq_some_iff.mp ht
      rw [Cursor.startsWith, hcs]
      exact isPrefixOf_eq_false hc.symm
    simp only [step, stepContent, Cursor.atEnd, hmarkup "</" rfl, hmarkup "<!--" rfl,
      hmarkup "<![CDATA[" rfl, hmarkup "<?" rfl, hmarkup "<" rfl, htake, Cursor.decode,
      decodeReferences_of_spells h, Cursor.skip_append]
    rfl

theorem run_data {data rest : List Char} (h : ¬ [']', ']', '>'] <:+: data) (e : OpenElement)
    (outer : List OpenElement) (line : Nat) :
    run (.content e outer) ⟨line, "<![CDATA[".toList ++ (data ++ (']' :: ']' :: '>' :: rest))⟩ =
      run (.content (e.addText (String.ofList data)) outer)
        ⟨line + data.count '\n', rest⟩ := by
  apply run_of_step
  let c : Cursor := ⟨line, "<![CDATA[".toList ++ (data ++ (']' :: ']' :: '>' :: rest))⟩
  have hend : c.startsWith "</" = false := rfl
  have hcomment : c.startsWith "<!--" = false := rfl
  have hdata : c.startsWith "<![CDATA[" = true := rfl
  have hskip : c.skip 9 = ⟨line, data ++ (']' :: ']' :: '>' :: rest)⟩ :=
    Cursor.skip_append line "<![CDATA[".toList _
  have hpast := Cursor.skipPast_append "]]>" (show '>' ∉ [']', ']'] by decide) rfl h line rest
  rw [step, stepContent, if_neg (by simp [Cursor.atEnd]), if_neg (Bool.eq_false_iff.mp hend),
    if_neg (Bool.eq_false_iff.mp hcomment), if_pos hdata, hskip]
  change Cursor.skipPast "]]>" ⟨line, data ++ ([']', ']'] ++ '>' :: rest)⟩ >>= _ = _
  rw [hpast]
  simp [bind, Except.bind, pure, Except.pure, List.count_append]

theorem startsWith_element {line : Nat} {raw : List Char} {e : Element}
    (h : SpellsElement line raw e) (rest : List Char) (token : String) {c : Char} {cs : List Char}
    (ht : token.toList = '<' :: c :: cs) (hc : isNameChar c = false) :
    (⟨line, '<' :: (raw ++ rest)⟩ : Cursor).startsWith token = false := by
  obtain ⟨name, tail, rfl, hname⟩ : ∃ name tail, raw = name ++ tail ∧ IsName name := by
    cases h with
    | void htag =>
      obtain ⟨hname, -, -, -⟩ := htag
      exact ⟨_, _, rfl, hname⟩
    | tags htag =>
      obtain ⟨hname, -, -, -⟩ := htag
      exact ⟨_, _, List.append_assoc _ _ _, hname⟩
  rw [Cursor.startsWith, ht, List.isPrefixOf_cons_cons, List.append_assoc,
    isPrefixOf_isName hname hc, Bool.and_false]

theorem run_child {line : Nat} {raw rest : List Char} {child : Element} {stage : Stage}
    {e : OpenElement} {outer : List OpenElement} {d : Cursor} (h : SpellsElement line raw child)
    (hopen : openElement (e :: outer) ⟨line, raw ++ rest⟩ = .ok (.next stage d)) :
    run (.content e outer) ⟨line, '<' :: (raw ++ rest)⟩ = run stage d := by
  apply run_of_step
  have hmarkup := startsWith_element h rest
  have hangle : (⟨line, '<' :: (raw ++ rest)⟩ : Cursor).startsWith "<" = true := rfl
  have hskip : (⟨line, '<' :: (raw ++ rest)⟩ : Cursor).skip 1 = ⟨line, raw ++ rest⟩ := by
    simp [Cursor.skip]
  simp only [step, stepContent, Cursor.atEnd, hmarkup "</" rfl (by decide),
    hmarkup "<!--" rfl (by decide), hmarkup "<![CDATA[" rfl (by decide),
    hmarkup "<?" rfl (by decide), hangle, hskip, hopen]
  rfl

theorem run_root {line : Nat} {raw rest : List Char} {root : Element} {stage : Stage} {d : Cursor}
    (h : SpellsElement line raw root)
    (hopen : openElement [] ⟨line, raw ++ rest⟩ = .ok (.next stage d)) :
    run (.prolog true) ⟨line, '<' :: (raw ++ rest)⟩ = run stage d := by
  apply run_of_step
  have hmarkup := startsWith_element h rest
  have hangle : (⟨line, '<' :: (raw ++ rest)⟩ : Cursor).startsWith "<" = true := rfl
  have hskip : (⟨line, '<' :: (raw ++ rest)⟩ : Cursor).skip 1 = ⟨line, raw ++ rest⟩ := by
    simp [Cursor.skip]
  simp only [step, stepProlog, hmarkup "<!--" rfl (by decide), hmarkup "<!DOCTYPE" rfl (by decide),
    hmarkup "<?" rfl (by decide), hangle, hskip, hopen]
  rfl

end Stage

namespace OpenElement

def addContent (e : OpenElement) (text : List Char) (children : List Element) : OpenElement :=
  { e with text := e.text ++ String.ofList text, children := e.children ++ children.toArray }

variable (e : OpenElement)

theorem addText_eq (text : List Char) : e.addText (String.ofList text) = e.addContent text [] := by
  simp [addText, addContent]

theorem addChild_eq (child : Element) : e.addChild child = e.addContent [] [child] := by
  simp [addChild, addContent]

theorem addContent_addContent (text text' : List Char) (children children' : List Element) :
    (e.addContent text children).addContent text' children' =
      e.addContent (text ++ text') (children ++ children') := by
  simp [addContent, String.append_assoc, Array.append_assoc]

end OpenElement

namespace Stage

def behind (child : Element) : List OpenElement → Stage
  | [] => .epilog child
  | parent :: outer => .content (parent.addChild child) outer

theorem afterElement_eq (e : OpenElement) (outer : List OpenElement) :
    afterElement e outer = behind e.close outer := by
  cases outer <;> rfl

/-- The reader gets from the name of an element to the place behind the element. -/
def ReadsElement (line : Nat) (raw : List Char) (e : Element) : Prop :=
  ∀ outer : List OpenElement, outer.length + e.depth ≤ maxDepth → ∀ rest,
    ∃ stage d, openElement outer ⟨line, raw ++ rest⟩ = .ok (.next stage d) ∧
      run stage d = run (behind e outer) ⟨line + raw.count '\n', rest⟩

/-- The reader gets from the content of an element to the end tag that follows it. Text in front of
the content is carried along, because pieces of text that touch each other are read at once. -/
def ReadsContent (line : Nat) (raw text : List Char) (children : List Element) : Prop :=
  ∀ (e : OpenElement) (outer : List OpenElement) (rest lead leadText : List Char) (start : Nat),
    outer.length + 1 + Element.depthAll children ≤ maxDepth → rest.head? = some '<' →
    '<' ∉ lead → Spells lead leadText → start + lead.count '\n' = line →
    run (.content e outer) ⟨start, lead ++ (raw ++ rest)⟩ =
      run (.content (e.addContent (leadText ++ text) children) outer)
        ⟨line + raw.count '\n', rest⟩

theorem readsElement_void {line : Nat} {tag : List Char} {name : String}
    {attributes : List (String × String)} (htag : SpellsTag ['/', '>'] tag name attributes) :
    ReadsElement line tag ⟨name, attributes, "", [], line⟩ := by
  intro outer hdepth rest
  rw [Element.depth] at hdepth
  obtain ⟨stage, d, hopen, hrun⟩ := run_voidTag htag outer (by omega) line rest
  rw [afterElement_eq] at hrun
  exact ⟨stage, d, hopen, hrun⟩

theorem readsElement_tags {line : Nat} {tag inner text close : List Char} {name : String}
    {attributes : List (String × String)} {children : List Element}
    (htag : SpellsTag ['>'] tag name attributes) (hclose : SpellsEndTag close name)
    (hinner : ReadsContent (line + tag.count '\n') inner text children) :
    ReadsElement line (tag ++ (inner ++ '<' :: '/' :: close))
      ⟨name, attributes, String.ofList text, children, line⟩ := by
  intro outer hdepth rest
  rw [Element.depth] at hdepth
  let opened : OpenElement := { name := name, line := line, attributes := attributes }
  let filled := opened.addContent text children
  obtain ⟨stage, d, hopen, hrun⟩ := run_startTag htag outer (by omega) line
    (inner ++ '<' :: '/' :: (close ++ rest))
  refine ⟨stage, d, by simpa using hopen, ?_⟩
  calc run stage d
    _ = run (.content opened outer) ⟨line + tag.count '\n', inner ++ '<' :: '/' ::
          (close ++ rest)⟩ := hrun
    _ = run (.content filled outer) ⟨line + tag.count '\n' + inner.count '\n', '<' :: '/' ::
          (close ++ rest)⟩ := hinner opened outer _ [] [] _ (by omega) rfl (by simp) .nil rfl
    _ = run (afterElement filled outer) ⟨line + tag.count '\n' + inner.count '\n' +
          close.count '\n', rest⟩ := run_endTag (e := filled) hclose outer _ rest
    _ = run (behind ⟨name, attributes, String.ofList text, children, line⟩ outer)
          ⟨line + (tag ++ (inner ++ '<' :: '/' :: close)).count '\n', rest⟩ := by
        rw [afterElement_eq]
        simp [filled, opened, OpenElement.addContent, OpenElement.close, List.count_append,
          Nat.add_assoc]

theorem readsContent_nil (line : Nat) : ReadsContent line [] [] [] := by
  intro e outer rest lead leadText start _ hrest hangle hlead hstart
  rw [List.nil_append, run_text hangle hlead hrest, hstart, OpenElement.addText_eq]
  simp

theorem readsContent_text {line : Nat} {raw text more moreText : List Char}
    {children : List Element} (hraw : '<' ∉ raw) (htext : Spells raw text)
    (hmore : ReadsContent (line + raw.count '\n') more moreText children) :
    ReadsContent line (raw ++ more) (text ++ moreText) children := by
  intro e outer rest lead leadText start hdepth hrest hangle hlead hstart
  have hrun := hmore e outer rest (lead ++ raw) (leadText ++ text) start hdepth hrest
    (by simp [hangle, hraw]) (hlead.append htext) (by simp [← hstart, Nat.add_assoc])
  simpa [List.count_append, Nat.add_assoc] using hrun

theorem readsContent_data {line : Nat} {data more moreText : List Char} {children : List Element}
    (hdata : ¬ [']', ']', '>'] <:+: data)
    (hmore : ReadsContent (line + data.count '\n') more moreText children) :
    ReadsContent line ("<![CDATA[".toList ++ (data ++ (']' :: ']' :: '>' :: more)))
      (data ++ moreText) children := by
  intro e outer rest lead leadText start hdepth hrest hangle hlead hstart
  let before := e.addText (String.ofList leadText)
  calc run (.content e outer) ⟨start, lead ++ ("<![CDATA[".toList ++
          (data ++ (']' :: ']' :: '>' :: more)) ++ rest)⟩
    _ = run (.content before outer) ⟨line, "<![CDATA[".toList ++
          (data ++ (']' :: ']' :: '>' :: more)) ++ rest⟩ := by
        rw [run_text hangle hlead rfl, hstart]
    _ = run (.content (before.addText (String.ofList data)) outer)
          ⟨line + data.count '\n', more ++ rest⟩ := by
        simpa using run_data hdata before outer line
    _ = run (.content ((before.addText (String.ofList data)).addContent moreText children) outer)
          ⟨line + data.count '\n' + more.count '\n', rest⟩ :=
        hmore _ outer rest [] [] _ hdepth hrest (by simp) .nil rfl
    _ = run (.content (e.addContent (leadText ++ (data ++ moreText)) children) outer)
          ⟨line + ("<![CDATA[".toList ++ (data ++ (']' :: ']' :: '>' :: more))).count '\n',
            rest⟩ := by
        simp only [before, OpenElement.addText_eq, OpenElement.addContent_addContent]
        simp [List.count_append, Nat.add_assoc]

theorem readsContent_child {line : Nat} {raw more text : List Char} {child : Element}
    {siblings : List Element} (h : SpellsElement line raw child)
    (hchild : ReadsElement line raw child)
    (hmore : ReadsContent (line + raw.count '\n') more text siblings) :
    ReadsContent line ('<' :: (raw ++ more)) text (child :: siblings) := by
  intro e outer rest lead leadText start hdepth hrest hangle hlead hstart
  rw [Element.depthAll] at hdepth
  let before := e.addText (String.ofList leadText)
  obtain ⟨stage, d, hopen, hrun⟩ := hchild (before :: outer)
    (by simp only [List.length_cons]; omega) (more ++ rest)
  calc run (.content e outer) ⟨start, lead ++ ('<' :: (raw ++ more) ++ rest)⟩
    _ = run (.content before outer) ⟨line, '<' :: (raw ++ more) ++ rest⟩ := by
        rw [run_text hangle hlead rfl, hstart]
    _ = run (.content before outer) ⟨line, '<' :: (raw ++ (more ++ rest))⟩ := by simp
    _ = run stage d := run_child h hopen
    _ = run (.content (before.addChild child) outer)
          ⟨line + raw.count '\n', more ++ rest⟩ := hrun
    _ = run (.content ((before.addChild child).addContent text siblings) outer)
          ⟨line + raw.count '\n' + more.count '\n', rest⟩ :=
        hmore _ outer rest [] [] _ (by omega) hrest (by simp) .nil rfl
    _ = run (.content (e.addContent (leadText ++ text) (child :: siblings)) outer)
          ⟨line + ('<' :: (raw ++ more)).count '\n', rest⟩ := by
        simp only [before, OpenElement.addText_eq, OpenElement.addChild_eq,
          OpenElement.addContent_addContent]
        simp [List.count_append, Nat.add_assoc]

/-- By induction over the two relations, every rendering of an element is read up to its end. -/
theorem readsElement_of_spells {line : Nat} {raw : List Char} {e : Element}
    (h : SpellsElement line raw e) : ReadsElement line raw e :=
  @SpellsElement.rec (fun line raw e _ => ReadsElement line raw e)
    (fun line raw text children _ => ReadsContent line raw text children)
    readsElement_void
    (fun htag hclose _ hinner => readsElement_tags htag hclose hinner)
    (readsContent_nil _)
    (fun hangle htext _ hmore => readsContent_text hangle htext hmore)
    (fun hdata _ hmore => readsContent_data hdata hmore)
    (fun hchild _ hread hmore => readsContent_child hchild hread hmore)
    line raw e h

theorem run_prolog_spaces {blanks rest : List Char} (h : IsSpaces blanks) (line : Nat) :
    run (.prolog true) ⟨line, blanks ++ '<' :: rest⟩ =
      run (.prolog true) ⟨line + blanks.count '\n', '<' :: rest⟩ := by
  cases blanks with
  | nil => rfl
  | cons b blanks =>
    have hspaces := @Cursor.skipSpaces_append line ('<' :: rest) (b :: blanks) h (by simp; decide)
    apply run_of_step
    rw [step, stepProlog, if_pos (by simp [h b (by simp)]), hspaces]

theorem run_epilog_spaces {blanks : List Char} (h : IsSpaces blanks) (root : Element) (line : Nat) :
    run (.epilog root) ⟨line, blanks⟩ = .ok root := by
  cases blanks with
  | nil =>
    rw [run_eq]
    rfl
  | cons b blanks =>
    have hspaces := @Cursor.skipSpaces_append line [] (b :: blanks) h (by simp)
    rw [List.append_nil] at hspaces
    have hstep : (Stage.epilog root).step ⟨line, b :: blanks⟩ =
        .ok (.next (.epilog root) ⟨line + (b :: blanks).count '\n', []⟩) := by
      rw [step, stepEpilog, if_pos (by simp [h b (by simp)]), hspaces]
    rw [run_of_step hstep, run_eq]
    rfl

theorem run_rendered_root {line : Nat} {raw : List Char} {root : Element}
    (h : SpellsElement line raw root) (hdepth : root.depth ≤ maxDepth) (rest : List Char) :
    run (.prolog true) ⟨line, '<' :: (raw ++ rest)⟩ =
      run (.epilog root) ⟨line + raw.count '\n', rest⟩ := by
  obtain ⟨stage, d, hopen, hrun⟩ := readsElement_of_spells h [] (by simpa using hdepth) rest
  rw [run_root h hopen, hrun]
  rfl

end Stage

theorem dropByteOrderMark_append_mark {mark cs : List Char}
    (hmark : mark = [] ∨ mark = [Char.ofNat 0xfeff])
    (hcs : ∀ c, cs.head? = some c → c.toNat ≠ 0xfeff) : dropByteOrderMark (mark ++ cs) = cs := by
  rcases hmark with rfl | rfl
  · cases cs with
    | nil => rfl
    | cons c cs => rw [List.nil_append, dropByteOrderMark, if_neg (hcs c rfl)]
  · rfl

theorem dropByteOrderMark_rendering {mark blanks rest : List Char}
    (hmark : mark = [] ∨ mark = [Char.ofNat 0xfeff]) (hblanks : IsSpaces blanks) :
    dropByteOrderMark (mark ++ (blanks ++ '<' :: rest)) = blanks ++ '<' :: rest := by
  apply dropByteOrderMark_append_mark hmark
  intro c hc hbom
  rw [← Char.ofNat_toNat c, hbom] at hc
  cases blanks with
  | nil => exact absurd (Option.some.inj hc) (by decide)
  | cons b blanks =>
    have hspace := hblanks b List.mem_cons_self
    rw [Option.some.inj hc] at hspace
    exact absurd hspace (by decide)

theorem readDocument_element {raw : List Char} {root : Element} (h : SpellsElement 1 raw root)
    (hdepth : root.depth ≤ maxDepth) :
    readDocument (String.ofList ('<' :: raw)) = .ok root := by
  have hmark : dropByteOrderMark (String.ofList ('<' :: raw)).toList = '<' :: raw := by
    simp [dropByteOrderMark]
  have hrun := Stage.run_rendered_root h hdepth []
  rw [List.append_nil] at hrun
  rw [readDocument, hmark, hrun, Stage.run_eq]
  rfl

/-- Every rendering of a tree that is not too deep is read as that tree. -/
theorem readDocument_rendering {text : String} {root : Element}
    (h : SpellsDocument text.toList root) (hdepth : root.depth ≤ maxDepth) :
    readDocument text = .ok root := by
  generalize htext : text.toList = cs at h
  obtain ⟨hmark, hbefore, hafter, hroot⟩ := h
  rename_i mark before raw after
  calc readDocument text
    _ = Stage.run (.prolog true) ⟨1, before ++ '<' :: (raw ++ after)⟩ := by
        rw [readDocument, htext, dropByteOrderMark_rendering hmark hbefore]
    _ = Stage.run (.prolog true) ⟨1 + before.count '\n', '<' :: (raw ++ after)⟩ :=
        Stage.run_prolog_spaces hbefore 1
    _ = Stage.run (.epilog root) ⟨1 + before.count '\n' + raw.count '\n', after⟩ :=
        Stage.run_rendered_root hroot hdepth after
    _ = .ok root := Stage.run_epilog_spaces hafter root _

/-- A byte-order mark, both quotes, a hexadecimal reference, a section with the beginning of its own
end in it, an empty element and blanks in every tag. -/
theorem readDocument_rendering_sections :
    let text := "\ufeff\n<a k = '&#x41;\"' >x&lt;<![CDATA[]]<b>]]><b />y</a >\n"
    let root : Element := ⟨"a", [("k", "A\"")], "x<]]<b>y", [⟨"b", [], "", [], 2⟩], 2⟩
    SpellsDocument text.toList root ∧ root.depth ≤ maxDepth ∧ readDocument text = .ok root := by
  intro text root
  have hblank : IsSpaces [' '] := List.all_eq_true.mp (by decide)
  have hline : IsSpaces ['\n'] := List.all_eq_true.mp (by decide)
  have hletter : Denotes ['#', 'x', '4', '1'] 'A' :=
    .hexadecimal (.inl rfl) (by decide) (List.all_eq_true.mp (by decide)) (by decide)
  have hvalue : SpellsQuoted "'&#x41;\"'".toList ['A', '"'] :=
    @SpellsQuoted.mk (Char.ofNat 39) "&#x41;\"".toList _ (.inr rfl) (by decide) (by decide)
      (.reference hletter (.plain (by decide) .nil))
  have htag : SpellsTag ['>'] "a k = '&#x41;\"' >".toList "a" [("k", "A\"")] :=
    @SpellsTag.mk _ ['a'] " k = '&#x41;\"'".toList _ [' '] (by decide)
      (.cons (by decide) hblank (@SpellsAttribute.mk ['k'] [' '] [' '] _ _ (by decide) hblank hblank
        hvalue) .nil) (by decide) hblank
  have hvoid : SpellsTag ['/', '>'] "b />".toList "b" [] :=
    @SpellsTag.mk _ ['b'] [] _ [' '] (by decide) .nil (by decide) hblank
  have hclose : SpellsEndTag "a >".toList "a" := @SpellsEndTag.mk ['a'] [' '] (by decide) hblank
  have hcontent : SpellsContent 2 "x&lt;<![CDATA[]]<b>]]><b />y".toList "x<]]<b>y".toList
      [⟨"b", [], "", [], 2⟩] :=
    @SpellsContent.text _ "x&lt;".toList ['x', '<'] _ _ _ (by decide)
      (.plain (by decide) (@Spells.reference "lt".toList _ _ _ .lt .nil))
      (@SpellsContent.data _ "]]<b>".toList _ _ _ (by decide)
        (.child (.void hvoid) (@SpellsContent.text _ ['y'] ['y'] [] [] _ (by decide)
          (.plain (by decide) .nil) .nil)))
  have hdocument : SpellsDocument text.toList root := by
    have hspells := @SpellsDocument.mk [Char.ofNat 0xfeff] ['\n'] _ ['\n'] root (.inr rfl) hline
      hline (.tags htag hclose hcontent)
    have htext : text.toList = [Char.ofNat 0xfeff] ++ (['\n'] ++ '<' ::
        ("a k = '&#x41;\"' >".toList ++ ("x&lt;<![CDATA[]]<b>]]><b />y".toList ++
          '<' :: '/' :: "a >".toList) ++ ['\n'])) := by decide +kernel
    rwa [htext]
  have hdepth : root.depth ≤ maxDepth := by decide
  exact ⟨hdocument, hdepth, readDocument_rendering hdocument hdepth⟩

end ThreeAddress.Markup
