import ThreeAddress.Proofs.Rendering

/-! Which texts have a decoding of their references. A text is read from one ampersand to the next,
so that all is said by what stands behind an ampersand. The numbers of references may carry a plus
sign, which the notation does not have; where none does, decoding is exact. -/

namespace ThreeAddress.Markup

open Text

/-- What stands between the ampersand and the semicolon of a reference whose number has a plus sign.
Such a reference is not well-formed. -/
inductive DenotesSigned : List Char → Char → Prop where
  | decimal {digits c} (hne : digits ≠ []) (hdigits : ∀ d ∈ digits, isDecimalDigit d = true)
      (hvalue : numeral 10 digits = c.toNat) : DenotesSigned ('#' :: '+' :: digits) c
  | hexadecimal {x digits c} (hx : x = 'x' ∨ x = 'X') (hne : digits ≠ [])
      (hdigits : ∀ d ∈ digits, isHexDigit d = true)
      (hvalue : numeral 16 digits = c.toNat) : DenotesSigned ('#' :: x :: '+' :: digits) c

def Resolves (body : List Char) (c : Char) : Prop := Denotes body c ∨ DenotesSigned body c

/-- Every ampersand of the text begins a reference with a body of the given kind. -/
def EachBegins (R : List Char → Char → Prop) (raw : List Char) : Prop :=
  ∀ front back, raw = front ++ '&' :: back → ∃ body c rest, back = body ++ ';' :: rest ∧ R body c

def Unsigned (raw : List Char) : Prop :=
  ∀ front body c rest, raw = front ++ '&' :: (body ++ ';' :: rest) → ¬ DenotesSigned body c

/-- Decoding succeeds exactly on the texts whose ampersands begin well-formed references, gives the
text with these replaced, and reports a bad reference for all other texts. -/
structure DecodedExactly (line : Nat) (raw : List Char) : Prop where
  accepted : (∃ text, Cursor.decode line raw = .ok text) ↔ EachBegins Denotes raw
  replaced : ∀ text, Cursor.decode line raw = .ok text → Spells raw text.toList
  refused : ¬ EachBegins Denotes raw →
    ∃ body, Cursor.decode line raw = .error (.badReference line body)

/-! Bodies of references. -/

theorem digits_eq_some {p : Char → Bool} {base n : Nat} {cs : List Char} :
    (if cs ≠ [] ∧ cs.all p then some (numeral base cs) else none) = some n ↔
      cs ≠ [] ∧ (∀ d ∈ cs, p d = true) ∧ numeral base cs = n := by
  rw [← List.all_eq_true]
  split
  · rename_i h
    simp [h]
  · rename_i h
    simp only [reduceCtorEq, false_iff]
    exact fun hcs => h ⟨hcs.1, hcs.2.1⟩

theorem decimal?_eq_some {cs : List Char} {n : Nat} : decimal? cs = some n ↔
    cs ≠ [] ∧ (∀ d ∈ cs, isDecimalDigit d = true) ∧ numeral 10 cs = n := digits_eq_some

theorem hexadecimal?_eq_some {cs : List Char} {n : Nat} : hexadecimal? cs = some n ↔
    cs ≠ [] ∧ (∀ d ∈ cs, isHexDigit d = true) ∧ numeral 16 cs = n := digits_eq_some

theorem dropPlus_cases (cs : List Char) :
    dropPlus cs = cs ∨ ∃ digits, cs = '+' :: digits ∧ dropPlus cs = digits := by
  unfold dropPlus
  split
  · exact .inr ⟨_, rfl, rfl⟩
  · exact .inl rfl

theorem resolves_decimal {digits : List Char} {c : Char}
    (h : (decimal? (dropPlus digits)).bind scalar? = some c) : Resolves ('#' :: digits) c := by
  obtain ⟨n, hn, hc⟩ := Option.bind_eq_some_iff.mp h
  obtain ⟨hne, hdigits, hvalue⟩ := decimal?_eq_some.mp hn
  obtain rfl := scalar?_eq_some.mp hc
  rcases dropPlus_cases digits with hplain | ⟨rest, rfl, hsigned⟩
  · rw [hplain] at hne hdigits hvalue
    exact .inl (.decimal hne hdigits hvalue)
  · rw [hsigned] at hne hdigits hvalue
    exact .inr (.decimal hne hdigits hvalue)

theorem resolves_hexadecimal {x : Char} {digits : List Char} {c : Char} (hx : x = 'x' ∨ x = 'X')
    (h : (hexadecimal? (dropPlus digits)).bind scalar? = some c) :
    Resolves ('#' :: x :: digits) c := by
  obtain ⟨n, hn, hc⟩ := Option.bind_eq_some_iff.mp h
  obtain ⟨hne, hdigits, hvalue⟩ := hexadecimal?_eq_some.mp hn
  obtain rfl := scalar?_eq_some.mp hc
  rcases dropPlus_cases digits with hplain | ⟨rest, rfl, hsigned⟩
  · rw [hplain] at hne hdigits hvalue
    exact .inl (.hexadecimal hx hne hdigits hvalue)
  · rw [hsigned] at hne hdigits hvalue
    exact .inr (.hexadecimal hx hne hdigits hvalue)

theorem resolves_of_resolveReference? {body : List Char} {c : Char}
    (h : resolveReference? body = some c) : Resolves body c := by
  rw [resolveReference?.eq_def] at h
  split at h
  · rename_i hbody
    obtain rfl := Option.some.inj h
    exact .inl (hbody ▸ .lt)
  split at h
  · rename_i hbody
    obtain rfl := Option.some.inj h
    exact .inl (hbody ▸ .gt)
  split at h
  · rename_i hbody
    obtain rfl := Option.some.inj h
    exact .inl (hbody ▸ .amp)
  split at h
  · rename_i hbody
    obtain rfl := Option.some.inj h
    exact .inl (hbody ▸ .quot)
  split at h
  · rename_i hbody
    obtain rfl := Option.some.inj h
    exact .inl (hbody ▸ .apos)
  split at h
  · exact resolves_hexadecimal (.inl rfl) h
  · exact resolves_hexadecimal (.inr rfl) h
  · exact resolves_decimal h
  · cases h

theorem resolveReference?_of_signed {body : List Char} {c : Char} (h : DenotesSigned body c) :
    resolveReference? body = some c := by
  cases h with
  | @decimal digits _ hne hdigits hvalue =>
    have hbody : resolveReference? ('#' :: '+' :: digits) = (decimal? digits).bind scalar? := rfl
    rw [hbody, decimal?_eq_some.mpr ⟨hne, hdigits, hvalue⟩, Option.bind_some, scalar?_toNat]
  | @hexadecimal x digits _ hx hne hdigits hvalue =>
    have hbody : resolveReference? ('#' :: x :: '+' :: digits) =
        (hexadecimal? digits).bind scalar? := by
      rcases hx with rfl | rfl <;> rfl
    rw [hbody, hexadecimal?_eq_some.mpr ⟨hne, hdigits, hvalue⟩, Option.bind_some, scalar?_toNat]

theorem resolveReference?_eq_some {body : List Char} {c : Char} :
    resolveReference? body = some c ↔ Resolves body c := by
  constructor
  · exact resolves_of_resolveReference?
  · rintro (h | h)
    · exact resolveReference?_of_denotes h
    · exact resolveReference?_of_signed h

theorem not_mem_of_resolves {body : List Char} {c m : Char} (h : Resolves body c)
    (hm : m = '&' ∨ m = ';') : m ∉ body := by
  have hdigits {digits : List Char} (h : ∀ d ∈ digits, isHexDigit d = true) : m ∉ digits := by
    intro hmem
    have hdigit := h m hmem
    rcases hm with rfl | rfl <;> exact absurd hdigit (by decide)
  have hnumber {x : Char} (hx : x = '#' ∨ x = '+' ∨ x = 'x' ∨ x = 'X') : m ≠ x := by
    rcases hm with rfl | rfl <;> rcases hx with rfl | rfl | rfl | rfl <;> decide
  have hletter {x : Char} (hx : x = 'x' ∨ x = 'X') : m ≠ x := hnumber (.inr (.inr hx))
  rcases h with h | h
  · cases h with
    | lt | gt | amp | quot | apos => rcases hm with rfl | rfl <;> decide
    | decimal _ hd =>
      have hhex := hdigits fun d hmem => isHexDigit_of_isDecimalDigit (hd d hmem)
      simp [hhex, hnumber]
    | hexadecimal hx _ hd => simp [hdigits hd, hletter hx, hnumber]
  · cases h with
    | decimal _ hd =>
      have hhex := hdigits fun d hmem => isHexDigit_of_isDecimalDigit (hd d hmem)
      simp [hhex, hnumber]
    | hexadecimal hx _ hd => simp [hdigits hd, hletter hx, hnumber]

theorem not_denotes_of_signed {body : List Char} {c d : Char} (h : DenotesSigned body c) :
    ¬ Denotes body d := by
  intro hd
  cases h with
  | decimal =>
    cases hd with
    | decimal _ hdigits => exact absurd (hdigits '+' (by simp)) (by decide)
    | hexadecimal hx => exact absurd hx (by decide)
  | hexadecimal hx =>
    cases hd with
    | decimal _ hdigits =>
      rcases hx with rfl | rfl
      · exact absurd (hdigits 'x' (by simp)) (by decide)
      · exact absurd (hdigits 'X' (by simp)) (by decide)
    | hexadecimal _ _ hdigits => exact absurd (hdigits '+' (by simp)) (by decide)

/-! Texts, from one ampersand to the next. -/

section Each

variable {R : List Char → Char → Prop} {c : Char} {cs back : List Char}

theorem eachBegins_nil : EachBegins R [] := by
  intro front back h
  simp at h

theorem eachBegins_cons (hc : c ≠ '&') : EachBegins R (c :: cs) ↔ EachBegins R cs := by
  constructor
  · intro h front back hcs
    exact h (c :: front) back (by rw [hcs, List.cons_append])
  · intro h front back hcs
    cases front with
    | nil => exact absurd (List.cons.inj hcs).1 hc
    | cons d front => exact h front back (List.cons.inj hcs).2

theorem ampersand_behind {body rest front after : List Char} (hbody : '&' ∉ body)
    (h : body ++ ';' :: rest = front ++ '&' :: after) :
    ∃ front', rest = front' ++ '&' :: after := by
  rcases List.append_eq_append_iff.mp h with ⟨more, hfront, hrest⟩ | ⟨more, hcut, hrest⟩
  · cases more with
    | nil => exact absurd (List.cons.inj hrest).1 (by decide)
    | cons d more => exact ⟨more, (List.cons.inj hrest).2⟩
  · cases more with
    | nil => exact absurd (List.cons.inj hrest).1 (by decide)
    | cons d more =>
      obtain rfl := (List.cons.inj hrest).1
      exact absurd (by simp [hcut]) hbody

theorem eachBegins_ampersand (hR : ∀ body c, R body c → '&' ∉ body) :
    EachBegins R ('&' :: back) ↔
      ∃ body c rest, back = body ++ ';' :: rest ∧ R body c ∧ EachBegins R rest := by
  constructor
  · intro h
    obtain ⟨body, c, rest, rfl, hbody⟩ := h [] back rfl
    refine ⟨body, c, rest, rfl, hbody, fun front after hrest => ?_⟩
    exact h ('&' :: (body ++ ';' :: front)) after (by simp [hrest])
  · rintro ⟨body, c, rest, rfl, hbody, hrest⟩ front after hcut
    cases front with
    | nil => exact ⟨body, c, rest, (List.cons.inj hcut).2.symm, hbody⟩
    | cons d front =>
      obtain ⟨front', hfront⟩ := ampersand_behind (hR body c hbody) (List.cons.inj hcut).2
      exact hrest front' after hfront

end Each

/-- Induction from one ampersand to the next: behind one, only what follows a semicolon counts. -/
theorem ampersand_induction {motive : List Char → Prop} (nil : motive [])
    (plain : ∀ c cs, c ≠ '&' → motive cs → motive (c :: cs))
    (ampersand : ∀ back, (∀ body rest, back = body ++ ';' :: rest → motive rest) →
      motive ('&' :: back)) (cs : List Char) : motive cs := by
  induction hn : cs.length using Nat.strongRecOn generalizing cs with
  | ind n ih =>
    cases cs with
    | nil => exact nil
    | cons c cs =>
      rw [List.length_cons] at hn
      by_cases hc : c = '&'
      · subst hc
        apply ampersand
        rintro body rest rfl
        apply ih rest.length _ rest rfl
        rw [List.length_append, List.length_cons] at hn
        omega
      · exact plain c cs hc (ih cs.length (by omega) cs rfl)

theorem exists_spells_iff (raw : List Char) : (∃ cs, Spells raw cs) ↔ EachBegins Denotes raw := by
  induction raw using ampersand_induction with
  | nil => exact iff_of_true ⟨[], .nil⟩ eachBegins_nil
  | plain c cs hc ih =>
    rw [eachBegins_cons hc, ← ih]
    constructor
    · rintro ⟨_, h⟩
      cases h with
      | plain _ h => exact ⟨_, h⟩
      | reference => exact absurd rfl hc
    · rintro ⟨out, h⟩
      exact ⟨c :: out, .plain hc h⟩
  | ampersand back ih =>
    rw [eachBegins_ampersand fun body c h => not_mem_of_resolves (.inl h) (.inl rfl)]
    constructor
    · rintro ⟨_, h⟩
      generalize hraw : '&' :: back = raw at h
      cases h with
      | nil => cases hraw
      | plain hc => exact absurd (List.cons.inj hraw).1.symm hc
      | @reference body c rest out hbody h =>
        rw [List.cons_append] at hraw
        obtain rfl := (List.cons.inj hraw).2
        exact ⟨body, c, rest, rfl, hbody, (ih body rest rfl).mp ⟨out, h⟩⟩
    · rintro ⟨body, c, rest, rfl, hbody, hrest⟩
      obtain ⟨out, hout⟩ := (ih body rest rfl).mpr hrest
      exact ⟨c :: out, .reference hbody hout⟩

theorem decodeReferencesFrom_eq_ok {read cs out : List Char}
    (h : decodeReferencesFrom (some read) cs = .ok out) :
    ∃ body c rest out', cs = body ++ ';' :: rest ∧ ';' ∉ body ∧
      resolveReference? (read.reverse ++ body) = some c ∧ decodeReferences rest = .ok out' ∧
      out = c :: out' := by
  induction cs generalizing read with
  | nil => cases h
  | cons d cs ih =>
    rw [decodeReferencesFrom] at h
    split at h
    · rename_i hd
      subst hd
      split at h
      · rename_i c hc
        obtain ⟨out', hrest, rfl⟩ := map_eq_ok.mp h
        exact ⟨[], c, cs, out', rfl, by simp, by simpa using hc, hrest, rfl⟩
      · cases h
    · rename_i hd
      obtain ⟨body, c, rest, out', rfl, hbody, hc, hrest, rfl⟩ := ih h
      exact ⟨d :: body, c, rest, out', rfl, by simp [hbody, Ne.symm hd], by simpa using hc, hrest,
        rfl⟩

theorem decodeReferences_ampersand {back out : List Char} :
    decodeReferences ('&' :: back) = .ok out ↔
      ∃ body c rest out', back = body ++ ';' :: rest ∧ Resolves body c ∧
        decodeReferences rest = .ok out' ∧ out = c :: out' := by
  constructor
  · intro h
    obtain ⟨body, c, rest, out', hback, -, hc, hrest, hout⟩ := decodeReferencesFrom_eq_ok h
    exact ⟨body, c, rest, out', hback, resolveReference?_eq_some.mp hc, hrest, hout⟩
  · rintro ⟨body, c, rest, out', rfl, hbody, hrest, rfl⟩
    have hread := @decodeReferencesFrom_body body c rest [] (not_mem_of_resolves hbody (.inr rfl))
      (resolveReference?_eq_some.mpr hbody)
    change decodeReferencesFrom (some []) (body ++ ';' :: rest) = _
    rw [hread]
    exact map_eq_ok.mpr ⟨out', hrest, rfl⟩

theorem exists_decoding_iff (raw : List Char) :
    (∃ out, decodeReferences raw = .ok out) ↔ EachBegins Resolves raw := by
  induction raw using ampersand_induction with
  | nil => exact iff_of_true ⟨[], rfl⟩ eachBegins_nil
  | plain c cs hc ih =>
    have hstep : decodeReferences (c :: cs) = (decodeReferences cs).map (c :: ·) := by
      rw [decodeReferences, decodeReferencesFrom, if_neg hc]
      rfl
    rw [eachBegins_cons hc, ← ih, hstep]
    simp only [map_eq_ok]
    constructor
    · rintro ⟨_, out, h, rfl⟩
      exact ⟨out, h⟩
    · rintro ⟨out, h⟩
      exact ⟨c :: out, out, h, rfl⟩
  | ampersand back ih =>
    rw [eachBegins_ampersand fun body c h => not_mem_of_resolves h (.inl rfl)]
    simp only [decodeReferences_ampersand]
    constructor
    · rintro ⟨_, body, c, rest, out, rfl, hbody, hrest, rfl⟩
      exact ⟨body, c, rest, rfl, hbody, (ih body rest rfl).mp ⟨out, hrest⟩⟩
    · rintro ⟨body, c, rest, rfl, hbody, hrest⟩
      obtain ⟨out, hout⟩ := (ih body rest rfl).mpr hrest
      exact ⟨c :: out, body, c, rest, out, rfl, hbody, hout, rfl⟩

/-! Signs. -/

theorem body_unique {body body' rest rest' : List Char} (hbody : ';' ∉ body) (hbody' : ';' ∉ body')
    (h : body ++ ';' :: rest = body' ++ ';' :: rest') : body = body' := by
  have hsplit := congrArg (splitAtFirst ';') h
  rw [splitAtFirst_of_mem hbody, splitAtFirst_of_mem hbody'] at hsplit
  exact (Prod.mk.inj hsplit).1

theorem unsigned_of_eachBegins {raw : List Char} (h : EachBegins Denotes raw) : Unsigned raw := by
  intro front body c rest hraw hsigned
  obtain ⟨body', d, rest', hback, hbody'⟩ := h front (body ++ ';' :: rest) hraw
  have heq : body = body' := body_unique (not_mem_of_resolves (.inr hsigned) (.inr rfl))
    (not_mem_of_resolves (.inl hbody') (.inr rfl)) hback
  exact not_denotes_of_signed hsigned (heq ▸ hbody')

theorem eachBegins_denotes_iff {raw : List Char} :
    EachBegins Denotes raw ↔ EachBegins Resolves raw ∧ Unsigned raw := by
  constructor
  · intro h
    refine ⟨fun front back hraw => ?_, unsigned_of_eachBegins h⟩
    obtain ⟨body, c, rest, hback, hbody⟩ := h front back hraw
    exact ⟨body, c, rest, hback, .inl hbody⟩
  · rintro ⟨h, hunsigned⟩ front back hraw
    obtain ⟨body, c, rest, rfl, hbody⟩ := h front back hraw
    exact ⟨body, c, rest, rfl, hbody.resolve_right (hunsigned front body c rest hraw)⟩

theorem decode_eq_ok {line : Nat} {raw : List Char} {text : String} :
    Cursor.decode line raw = .ok text ↔ decodeReferences raw = .ok text.toList := by
  rw [Cursor.decode]
  split
  · rename_i cs h
    rw [h]
    constructor
    · intro htext
      rw [← Except.ok.inj htext, String.toList_ofList]
    · intro hcs
      rw [Except.ok.inj hcs, String.ofList_toList]
  · rename_i body h
    rw [h]
    constructor
    · intro htext
      cases htext
    · intro hcs
      cases hcs

theorem decode_refused {line : Nat} {raw : List Char}
    (h : ∀ text, Cursor.decode line raw ≠ .ok text) :
    ∃ body, Cursor.decode line raw = .error (.badReference line body) := by
  rw [Cursor.decode] at h ⊢
  split
  · rename_i cs hcs
    rw [hcs] at h
    exact absurd rfl (h _)
  · exact ⟨_, rfl⟩

theorem exists_decode_iff (line : Nat) (raw : List Char) :
    (∃ text, Cursor.decode line raw = .ok text) ↔ EachBegins Resolves raw := by
  rw [← exists_decoding_iff]
  constructor
  · rintro ⟨text, h⟩
    exact ⟨text.toList, decode_eq_ok.mp h⟩
  · rintro ⟨out, h⟩
    exact ⟨String.ofList out, decode_eq_ok.mpr (by rw [h, String.toList_ofList])⟩

/-- A text has a decoding if and only if every ampersand begins a reference, where numbers may have
a plus sign. Decoding is exact for all texts but those that have a decoding and such a sign. -/
theorem references_decoded_exactly (line : Nat) (raw : List Char) :
    ((∃ text, Cursor.decode line raw = .ok text) ↔ EachBegins Resolves raw) ∧
    (DecodedExactly line raw ↔ ∀ text, Cursor.decode line raw = .ok text → Unsigned raw) := by
  refine ⟨exists_decode_iff line raw, ?_, ?_⟩
  · intro h text htext
    exact unsigned_of_eachBegins (h.accepted.mp ⟨text, htext⟩)
  · intro hunsigned
    have haccepted : (∃ text, Cursor.decode line raw = .ok text) ↔ EachBegins Denotes raw := by
      rw [eachBegins_denotes_iff, ← exists_decode_iff line]
      constructor
      · rintro ⟨text, h⟩
        exact ⟨⟨text, h⟩, hunsigned text h⟩
      · exact fun h => h.1
    refine ⟨haccepted, fun text htext => ?_, fun hnot => ?_⟩
    · obtain ⟨cs, hcs⟩ := (exists_spells_iff raw).mpr (haccepted.mp ⟨text, htext⟩)
      have hsame := (decodeReferences_of_spells hcs).symm.trans (decode_eq_ok.mp htext)
      rwa [← Except.ok.inj hsame]
    · apply decode_refused
      intro text htext
      exact hnot (haccepted.mp ⟨text, htext⟩)

/-- A sign in front of the number of a reference is passed over. -/
theorem signed_number_accepted :
    Cursor.decode 1 "&#+65;".toList = .ok "A" ∧ ¬ EachBegins Denotes "&#+65;".toList ∧
      ¬ DecodedExactly 1 "&#+65;".toList := by
  have hread : Cursor.decode 1 "&#+65;".toList = .ok "A" := by decide +kernel
  have hsigned : DenotesSigned "#+65".toList 'A' :=
    @DenotesSigned.decimal ['6', '5'] 'A' (by decide) (List.all_eq_true.mp rfl) (by decide)
  have hnot : ¬ EachBegins Denotes "&#+65;".toList := fun h =>
    unsigned_of_eachBegins h [] _ _ [] rfl hsigned
  exact ⟨hread, hnot, fun h => hnot (h.accepted.mp ⟨"A", hread⟩)⟩

end ThreeAddress.Markup
