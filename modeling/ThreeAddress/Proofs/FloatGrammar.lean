import ThreeAddress.Proofs.ExponentLimit

/-! Which texts denote a number. A text is cut at its sign, its `0x`, its `p` and its point after
the case of its letters has been folded; here the same cuts are made in the text itself, so that
every text that is read turns out to be a word or a literal. -/

namespace ThreeAddress

namespace Text

/-! Folding of case, backwards. -/

theorem toLower_cases (c : Char) :
    c.toLower = c ∨ (c.toNat ≤ 90 ∧ c.toLower.toNat = c.toNat + 32 ∧ 65 ≤ c.toNat) := by
  by_cases hascii : c.toNat < 128
  · have hall : ∀ n < 128, (Char.ofNat n).toLower = Char.ofNat n ∨
        ((Char.ofNat n).toNat ≤ 90 ∧ (Char.ofNat n).toLower.toNat = (Char.ofNat n).toNat + 32 ∧
          65 ≤ (Char.ofNat n).toNat) := by decide
    have h := hall c.toNat hascii
    rwa [Char.ofNat_toNat] at h
  · exact .inl (toLower_of_not_capital (by omega))

/-- A letter comes from itself or from its capital, and any other character from itself. -/
theorem eq_of_toLower_eq {c d : Char} (h : c.toLower = d) :
    c = d ∨ (97 ≤ d.toNat ∧ c = Char.ofNat (d.toNat - 32)) := by
  rcases toLower_cases c with hsame | ⟨-, hlower, hcapital⟩
  · exact .inl (hsame.symm.trans h)
  · right
    rw [h] at hlower
    refine ⟨by omega, ?_⟩
    rw [hlower, Nat.add_sub_cancel, Char.ofNat_toNat]

theorem eq_of_toLower_eq_of_lt {c d : Char} (h : c.toLower = d) (hd : d.toNat < 97) : c = d := by
  rcases eq_of_toLower_eq h with hsame | ⟨hle, -⟩
  · exact hsame
  · omega

theorem map_toLower_eq_of_lt {cs ds : List Char} (h : cs.map Char.toLower = ds)
    (hd : ∀ d ∈ ds, d.toNat < 97) : cs = ds := by
  induction cs generalizing ds with
  | nil => exact h
  | cons c cs ih =>
    subst h
    rw [List.map_cons] at hd ⊢
    rw [← eq_of_toLower_eq_of_lt rfl (hd _ List.mem_cons_self),
      ← ih rfl fun d hmem => hd d (List.mem_cons_of_mem _ hmem)]

theorem toNat_lt_of_isDecimalDigit {c : Char} (h : isDecimalDigit c = true) : c.toNat < 97 := by
  simp only [isDecimalDigit, Bool.and_eq_true, decide_eq_true_eq, Char.le_def,
    UInt32.le_iff_toNat_le] at h
  change 48 ≤ c.toNat ∧ c.toNat ≤ 57 at h
  omega

/-! Cuts in a text, found in the folded one. -/

theorem exists_sign (cs : List Char) :
    ∃ sign : Sign, cs = sign.text ++ (splitSign cs).2 ∧ sign.negative = (splitSign cs).1 := by
  unfold splitSign
  split
  · exact ⟨.minus, rfl, rfl⟩
  · exact ⟨.plus, rfl, rfl⟩
  · exact ⟨.absent, rfl, rfl⟩

theorem exists_cut {mark : Char} {cs front : List Char} {back : Option (List Char)}
    (h : splitAtFirst mark (cs.map Char.toLower) = (front, back)) :
    (front = cs.map Char.toLower ∧ back = none) ∨
      ∃ before m after, cs = before ++ m :: after ∧ m.toLower = mark ∧
        front = before.map Char.toLower ∧ back = some (after.map Char.toLower) := by
  by_cases hmem : mark ∈ cs.map Char.toLower
  · right
    cases back with
    | none =>
      obtain ⟨a, b, hcut, ha⟩ := List.eq_append_cons_of_mem hmem
      rw [hcut, splitAtFirst_of_mem ha] at h
      cases h
    | some after =>
      obtain ⟨-, hcut⟩ := splitAtFirst_eq_some h
      obtain ⟨before, tail, rfl, hbefore, htail⟩ := List.map_eq_append_iff.mp hcut
      obtain ⟨m, after', rfl, hm, hafter⟩ := List.map_eq_cons_iff.mp htail
      exact ⟨before, m, after', rfl, hm, hbefore.symm, by rw [hafter]⟩
  · left
    rw [splitAtFirst_of_not_mem hmem] at h
    obtain ⟨rfl, rfl⟩ := Prod.mk.inj h
    exact ⟨rfl, rfl⟩

end Text

namespace Binary64

open Text

theorem exists_marker (cs : List Char) :
    ∃ marker body, cs = marker ++ body ∧
      (marker = [] ∨ marker = ['0', 'x'] ∨ marker = ['0', 'X']) ∧
      dropMarker (cs.map Char.toLower) = body.map Char.toLower := by
  by_cases hmarked : ∃ rest, cs.map Char.toLower = '0' :: 'x' :: rest
  · obtain ⟨rest, hrest⟩ := hmarked
    obtain ⟨a, tail, rfl, ha, htail⟩ := List.map_eq_cons_iff.mp hrest
    obtain ⟨b, body, rfl, hb, rfl⟩ := List.map_eq_cons_iff.mp htail
    obtain rfl : a = '0' := eq_of_toLower_eq_of_lt ha (by decide)
    refine ⟨['0', b], body, rfl, .inr ?_, by rw [hrest]; rfl⟩
    rcases eq_of_toLower_eq hb with rfl | ⟨-, rfl⟩
    · exact .inl rfl
    · exact .inr rfl
  · refine ⟨[], cs, rfl, .inl rfl, ?_⟩
    unfold dropMarker
    split
    · rename_i rest heq
      exact absurd ⟨rest, heq⟩ hmarked
    · rfl

theorem exists_power {m : Char} {cs : List Char} {e : Int} (hm : m.toLower = 'p')
    (h : exponent? (cs.map Char.toLower) = some e) : ∃ p : Power, p.text = m :: cs := by
  obtain ⟨sign, hsign, -⟩ := exists_sign (cs.map Char.toLower)
  simp only [exponent?] at h
  split at h
  · rename_i hdigits
    obtain ⟨hne, hdecimal⟩ := hdigits
    obtain ⟨lead, digits, rfl, hlead, hrest⟩ := List.map_eq_append_iff.mp hsign
    have hlead : lead = sign.text := by
      apply map_toLower_eq_of_lt hlead
      intro d hd
      rcases Sign.mem_text hd with rfl | rfl <;> decide
    have hdigits : digits = (splitSign ((lead ++ digits).map Char.toLower)).2 := by
      apply map_toLower_eq_of_lt hrest
      intro d hd
      exact toNat_lt_of_isDecimalDigit (List.all_eq_true.mp hdecimal d hd)
    rw [← hdigits] at hne hdecimal
    have hmark : m = 'p' ∨ m = 'P' := by
      rcases eq_of_toLower_eq hm with rfl | ⟨-, rfl⟩
      · exact .inl rfl
      · exact .inr rfl
    exact ⟨⟨m, sign, digits, hmark, hne, hdecimal⟩, by rw [Power.text, hlead]⟩
  · cases h

theorem exists_digits {cs : List Char} {n : Nat × Int}
    (h : scaledDigits? (cs.map Char.toLower) = some n) :
    ∃ (whole : List Char) (part : Option (List Char)), cs = whole ++ part.elim [] ('.' :: ·) ∧
      whole ++ part.getD [] ≠ [] ∧ (whole ++ part.getD []).all isHexDigit = true := by
  cases hcut : splitAtFirst '.' (cs.map Char.toLower) with
  | mk front back =>
    simp only [scaledDigits?, hcut] at h
    split at h
    · rename_i hdigits
      rcases exists_cut hcut with ⟨rfl, rfl⟩ | ⟨before, m, after, rfl, hm, rfl, rfl⟩
      · rw [Option.getD_none, List.append_nil, all_isHexDigit_map_toLower] at hdigits
        refine ⟨cs, none, by simp, ?_, by simpa using hdigits.2⟩
        intro hnil
        rw [Option.getD_none, List.append_nil] at hnil
        exact hdigits.1 (by rw [hnil, List.map_nil])
      · obtain rfl : m = '.' := eq_of_toLower_eq_of_lt hm (by decide)
        rw [Option.getD_some, ← List.map_append, all_isHexDigit_map_toLower] at hdigits
        exact ⟨before, some after, rfl, fun hnil => hdigits.1 (by rw [← List.map_nil, ← hnil]; rfl),
          hdigits.2⟩
    · cases h

theorem exists_literal (sign : Sign) {cs : List Char} {n : Nat × Int}
    (h : scaled? (cs.map Char.toLower) = some n) :
    ∃ l : Literal, l.text = sign.text ++ cs := by
  obtain ⟨marker, body, rfl, hmarker, hdrop⟩ := exists_marker cs
  cases hcut : splitAtFirst 'p' (body.map Char.toLower) with
  | mk front back =>
    simp only [scaled?, hdrop, hcut] at h
    rcases exists_cut hcut with ⟨rfl, rfl⟩ | ⟨before, m, after, rfl, hm, rfl, rfl⟩
    · obtain ⟨whole, part, rfl, hne, hhex⟩ := exists_digits h
      exact ⟨⟨sign, marker, whole, part, none, hmarker, hne, hhex⟩, by
        simp [Literal.text, Literal.body, Literal.digitsText]⟩
    · obtain ⟨e, he, h⟩ := Option.bind_eq_some_iff.mp h
      obtain ⟨_, hdigits, -⟩ := Option.bind_eq_some_iff.mp h
      obtain ⟨power, hpower⟩ := exists_power hm he
      obtain ⟨whole, part, rfl, hne, hhex⟩ := exists_digits hdigits
      exact ⟨⟨sign, marker, whole, part, some power, hmarker, hne, hhex⟩, by
        simp [Literal.text, Literal.body, Literal.digitsText, hpower]⟩

/-! Words. -/

def IsInfinityWord (word : List Char) : Prop :=
  sameFolded word "inf".toList = true ∨ sameFolded word "infinity".toList = true

def IsNaNWord (word : List Char) : Prop := sameFolded word "nan".toList = true

theorem isInfinityWord_iff {word : List Char} : IsInfinityWord word ↔
    word.map Char.toLower = "inf".toList ∨ word.map Char.toLower = "infinity".toList := by
  have hinf : "inf".toList.map Char.toLower = "inf".toList := rfl
  have hinfinity : "infinity".toList.map Char.toLower = "infinity".toList := rfl
  rw [IsInfinityWord, sameFolded, sameFolded, hinf, hinfinity, beq_iff_eq, beq_iff_eq]

theorem isNaNWord_iff {word : List Char} :
    IsNaNWord word ↔ word.map Char.toLower = "nan".toList := by
  have hnan : "nan".toList.map Char.toLower = "nan".toList := rfl
  rw [IsNaNWord, sameFolded, hnan, beq_iff_eq]

/-- How a text denotes a number: by a word, or by a literal that is not too large for the exponent
it is read with. -/
inductive Reads : List Char → Binary64 → Prop where
  | infinity (sign : Sign) {word : List Char} (h : IsInfinityWord word) :
      Reads (sign.text ++ word) (ofMagnitude sign.negative infinity)
  | nan (sign : Sign) {word : List Char} (h : IsNaNWord word) :
      Reads (sign.text ++ word) (negateIf sign.negative nan)
  | finite (l : Literal) {x : Binary64}
      (h : round? l.sign.negative (numeral 16 l.digits)
        (-4 * ((l.part.getD []).length : ℤ) + saturate l.exponent) = some x) :
      Reads l.text x

theorem splitSign_word (sign : Sign) {word rest : List Char} {c : Char} (hc : 97 ≤ c.toNat)
    (h : word.map Char.toLower = c :: rest) :
    splitSign (sign.text ++ word) = (sign.negative, word) := by
  apply Sign.splitSign_text
  intro d hd
  obtain ⟨tail, rfl⟩ := List.head?_eq_some_iff.mp hd
  rw [List.map_cons] at h
  have hlower := (List.cons.inj h).1
  constructor
  · rintro rfl
    subst hlower
    exact absurd hc (by decide)
  · rintro rfl
    subst hlower
    exact absurd hc (by decide)

theorem parse?_of_trim {cs ds : List Char} (h : trim cs = ds) : parse? cs = (unsigned?
    ((splitSign ds).2.map Char.toLower)).map (negateIf (splitSign ds).1) := by
  rw [parse?, h]

theorem parse?_of_literal {cs : List Char} {l : Literal} (h : trim cs = l.text) :
    parse? cs = round? l.sign.negative (numeral 16 l.digits)
      (-4 * ((l.part.getD []).length : ℤ) + saturate l.exponent) := by
  have htext : trim l.text = l.text := trim_of_not_blank fun _ => Literal.isBlank_of_mem_text
  rw [parse?_of_trim h, ← parse?_of_trim htext, parse?_eq_parseWith?,
    l.parseWith?_text l.exponentBy_exponent?]

theorem parse?_of_reads {cs : List Char} {x : Binary64} (h : Reads (trim cs) x) :
    parse? cs = some x := by
  generalize htrim : trim cs = text at h
  cases h with
  | infinity sign hword =>
    rw [isInfinityWord_iff] at hword
    rw [parse?_of_trim htrim, ← negateIf_ofMagnitude (by decide)]
    rcases hword with hword | hword
    · rw [splitSign_word sign (by decide) hword, hword]
      rfl
    · rw [splitSign_word sign (by decide) hword, hword]
      rfl
  | nan sign hword =>
    rw [isNaNWord_iff] at hword
    rw [parse?_of_trim htrim, splitSign_word sign (by decide) hword, hword]
    rfl
  | finite l hround => rw [parse?_of_literal htrim, hround]

theorem reads_of_parse? {cs : List Char} {x : Binary64} (h : parse? cs = some x) :
    Reads (trim cs) x := by
  obtain ⟨sign, htext, hsign⟩ := exists_sign (trim cs)
  have hparts := h
  rw [parse?_of_trim rfl, ← hsign] at hparts
  generalize (splitSign (trim cs)).2 = rest at htext hparts
  obtain ⟨y, hy, hx⟩ := Option.map_eq_some_iff.mp hparts
  rw [unsigned?] at hy
  split at hy
  · rename_i hword
    obtain rfl := Option.some.inj hy
    rw [negateIf_ofMagnitude (by decide)] at hx
    rw [htext, ← hx]
    exact .infinity sign (isInfinityWord_iff.mpr hword)
  split at hy
  · rename_i hword
    obtain rfl := Option.some.inj hy
    rw [htext, ← hx]
    exact .nan sign (isNaNWord_iff.mpr hword)
  · rw [finite?_eq] at hy
    obtain ⟨n, hn, -⟩ := Option.bind_eq_some_iff.mp hy
    obtain ⟨l, hl⟩ := exists_literal sign hn
    rw [← hl] at htext
    rw [parse?_of_literal htext] at h
    rw [htext]
    exact .finite l h

theorem parse?_eq_some_iff {cs : List Char} {x : Binary64} :
    parse? cs = some x ↔ Reads (trim cs) x := ⟨reads_of_parse?, parse?_of_reads⟩

theorem infinite_of_reads {text : List Char} {x : Binary64} (h : Reads text x)
    (hx : x.isInfinite = true) :
    ∃ (sign : Sign) (word : List Char), text = sign.text ++ word ∧ IsInfinityWord word := by
  cases h with
  | infinity sign hword => exact ⟨sign, _, rfl, hword⟩
  | nan sign =>
    exfalso
    revert hx
    cases sign <;> decide
  | finite l hround =>
    have hfinite := ((round?_spec _ _ _).2 x hround).1
    simp only [isFinite, isInfinite, decide_eq_true_eq, beq_iff_eq] at hfinite hx
    omega

theorem nan_of_reads {text : List Char} {x : Binary64} (h : Reads text x) (hx : x.isNaN = true) :
    ∃ (sign : Sign) (word : List Char), text = sign.text ++ word ∧ IsNaNWord word := by
  cases h with
  | infinity sign =>
    exfalso
    revert hx
    cases sign <;> decide
  | nan sign hword => exact ⟨sign, _, rfl, hword⟩
  | finite l hround =>
    have hfinite := ((round?_spec _ _ _).2 x hround).1
    simp only [isFinite, isNaN, decide_eq_true_eq] at hfinite hx
    omega

/-- Without the blanks around it, a text that is read is a sign and a word, or a literal. Only the
two words for infinity are read as one, and only the word for it as a NaN. All words are read, and
all literals that are not too large. -/
theorem parse?_accepts_grammar (cs : List Char) :
    (∀ x, parse? cs = some x →
      ((∃ (sign : Sign) (word : List Char), trim cs = sign.text ++ word ∧
          (IsInfinityWord word ∨ IsNaNWord word)) ∨
        ∃ l : Literal, trim cs = l.text) ∧
      (x.isInfinite = true →
        ∃ (sign : Sign) (word : List Char), trim cs = sign.text ++ word ∧ IsInfinityWord word) ∧
      (x.isNaN = true →
        ∃ (sign : Sign) (word : List Char), trim cs = sign.text ++ word ∧ IsNaNWord word)) ∧
    ∀ x, parse? cs = some x ↔ Reads (trim cs) x := by
  refine ⟨fun x h => ?_, fun x => parse?_eq_some_iff⟩
  have hreads := parse?_eq_some_iff.mp h
  refine ⟨?_, infinite_of_reads hreads, nan_of_reads hreads⟩
  generalize trim cs = text at hreads
  cases hreads with
  | infinity sign hword => exact .inl ⟨sign, _, rfl, .inl hword⟩
  | nan sign hword => exact .inl ⟨sign, _, rfl, .inr hword⟩
  | finite l => exact .inr ⟨l, rfl⟩

end Binary64

end ThreeAddress
