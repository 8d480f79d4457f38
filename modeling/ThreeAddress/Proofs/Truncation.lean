import ThreeAddress.Proofs.Rendering

/-! Texts that go on, and texts that are broken off. A step before the end of the root element does
not look behind what it reads, so that the end of the root element stays where it is when a text is
appended; what is then left to read can only be accepted, be too much or be unfinished. -/

namespace ThreeAddress

namespace Markup

theorem takeWhile_append_of_dropWhile {p : Char → Bool} {cs : List Char} (more : List Char)
    (h : cs.dropWhile p ≠ []) : (cs ++ more).takeWhile p = cs.takeWhile p := by
  induction cs with
  | nil => exact absurd rfl h
  | cons c cs ih =>
    by_cases hc : p c = true
    · rw [List.dropWhile_cons_of_pos hc] at h
      rw [List.cons_append, List.takeWhile_cons_of_pos hc, List.takeWhile_cons_of_pos hc, ih h]
    · rw [List.cons_append, List.takeWhile_cons_of_neg hc, List.takeWhile_cons_of_neg hc]

theorem indexOf?_append {token cs : List Char} {n : Nat} (more : List Char)
    (h : indexOf? token cs = some n) : indexOf? token (cs ++ more) = some n := by
  induction cs generalizing n with
  | nil =>
    simp only [indexOf?] at h
    split at h
    · rename_i ht
      subst ht
      cases more <;> simpa [indexOf?] using h
    · cases h
  | cons c cs ih =>
    simp only [indexOf?] at h
    split at h
    · rename_i hp
      have hp' : token.isPrefixOf (c :: (cs ++ more)) = true := by
        rw [List.isPrefixOf_iff_prefix] at hp ⊢
        exact hp.trans (List.prefix_append _ more)
      rw [List.cons_append, indexOf?, if_pos hp']
      exact h
    · rename_i hp
      obtain ⟨m, hm, rfl⟩ := Option.map_eq_some_iff.mp h
      have hp' : ¬ token.isPrefixOf (c :: (cs ++ more)) = true := by
        rw [List.isPrefixOf_iff_prefix] at hp ⊢
        have hle := indexOf?_le hm
        intro hlong
        refine hp (List.prefix_of_prefix_length_le hlong (List.prefix_append (c :: cs) more) ?_)
        simp only [List.length_cons]
        omega
      rw [List.cons_append, indexOf?, if_neg hp', ih hm]
      rfl

theorem doctypeLength?_le {depth n : Nat} {cs : List Char} (h : doctypeLength? depth cs = some n) :
    n ≤ cs.length := by
  induction cs generalizing depth n with
  | nil => cases h
  | cons c cs ih =>
    simp only [doctypeLength?] at h
    rw [List.length_cons]
    split at h
    · injection h with h
      omega
    · obtain ⟨m, hm, rfl⟩ := Option.map_eq_some_iff.mp h
      exact Nat.succ_le_succ (ih hm)

theorem doctypeLength?_append {depth n : Nat} {cs : List Char} (more : List Char)
    (h : doctypeLength? depth cs = some n) : doctypeLength? depth (cs ++ more) = some n := by
  induction cs generalizing depth n with
  | nil => cases h
  | cons c cs ih =>
    rw [List.cons_append]
    simp only [doctypeLength?] at h ⊢
    split at h
    · rename_i hc
      rw [if_pos hc]
      exact h
    · rename_i hc
      rw [if_neg hc]
      obtain ⟨m, hm, rfl⟩ := Option.map_eq_some_iff.mp h
      rw [ih hm]
      rfl

namespace Cursor

/-- The same place in a text that goes on. -/
def extend (c : Cursor) (more : List Char) : Cursor := ⟨c.line, c.rest ++ more⟩

variable {c d : Cursor} (more : List Char)

theorem skip_extend {n : Nat} (h : n ≤ c.rest.length) :
    (c.extend more).skip n = (c.skip n).extend more := by
  simp [skip, extend, List.take_append_of_le_length h, List.drop_append_of_le_length h]

theorem skip_extend_of_startsWith {token : String} {n : Nat} (hn : n ≤ token.toList.length)
    (h : c.startsWith token = true) : (c.extend more).skip n = (c.skip n).extend more :=
  skip_extend more (Nat.le_trans hn (length_of_startsWith h))

theorem rest_skip_takeWhile (p : Char → Bool) (c : Cursor) :
    (c.skip (c.rest.takeWhile p).length).rest = c.rest.dropWhile p := by
  have h := @List.drop_left _ (c.rest.takeWhile p) (c.rest.dropWhile p)
  rwa [List.takeWhile_append_dropWhile] at h

theorem length_takeWhile_le (p : Char → Bool) (cs : List Char) :
    (cs.takeWhile p).length ≤ cs.length := (List.takeWhile_prefix p).length_le

theorem skip_takeWhile_extend {p : Char → Bool}
    (h : (c.skip (c.rest.takeWhile p).length).rest ≠ []) :
    (c.extend more).rest.takeWhile p = c.rest.takeWhile p ∧
      (c.extend more).skip (c.rest.takeWhile p).length =
        (c.skip (c.rest.takeWhile p).length).extend more := by
  rw [rest_skip_takeWhile] at h
  exact ⟨takeWhile_append_of_dropWhile more h, skip_extend more (length_takeWhile_le p c.rest)⟩

theorem skipSpaces_extend (h : c.skipSpaces.rest ≠ []) :
    (c.extend more).skipSpaces = c.skipSpaces.extend more := by
  obtain ⟨htake, hskip⟩ := skip_takeWhile_extend more h
  rw [skipSpaces, htake]
  exact hskip

theorem head?_extend (h : c.rest ≠ []) : (c.extend more).rest.head? = c.rest.head? := by
  obtain ⟨d, cs, hc⟩ := List.exists_cons_of_ne_nil h
  simp [extend, hc]

theorem startsWith_iff {token : String} :
    c.startsWith token = true ↔ ∃ after, c.rest = token.toList ++ after := by
  rw [startsWith, List.isPrefixOf_iff_prefix]
  constructor
  · rintro ⟨after, h⟩
    exact ⟨after, h.symm⟩
  · rintro ⟨after, h⟩
    exact ⟨after, h.symm⟩

theorem startsWith_extend {token : String} (h : c.startsWith token = true) :
    (c.extend more).startsWith token = true := by
  obtain ⟨after, hc⟩ := startsWith_iff.mp h
  exact startsWith_iff.mpr ⟨after ++ more, by rw [extend, hc, List.append_assoc]⟩

theorem not_startsWith {token other : String} (h : c.startsWith token = true)
    (hdiffer : (token.toList.isPrefixOf other.toList || other.toList.isPrefixOf token.toList) =
      false) : ¬ c.startsWith other = true := by
  intro hother
  rw [Bool.or_eq_false_iff, ← Bool.not_eq_true, ← Bool.not_eq_true, List.isPrefixOf_iff_prefix,
    List.isPrefixOf_iff_prefix] at hdiffer
  rcases List.prefix_or_prefix_of_prefix (List.isPrefixOf_iff_prefix.mp h)
    (List.isPrefixOf_iff_prefix.mp hother) with hprefix | hprefix
  · exact hdiffer.1 hprefix
  · exact hdiffer.2 hprefix

theorem ne_nil_of_startsWith {token : String} (ht : 0 < token.toList.length)
    (h : c.startsWith token = true) : c.rest ≠ [] :=
  List.ne_nil_of_length_pos (Nat.lt_of_lt_of_le ht (length_of_startsWith h))

theorem ne_nil_of_length_lt (h : d.rest.length < c.rest.length) : c.rest ≠ [] :=
  List.ne_nil_of_length_pos (Nat.zero_lt_of_lt h)

theorem rest_ne_nil_of_skipSpaces (h : c.skipSpaces.rest ≠ []) : c.rest ≠ [] :=
  List.ne_nil_of_length_pos (Nat.lt_of_lt_of_le (List.length_pos_iff.mpr h) (length_skipSpaces c))

theorem name_extend {name : String} (h : c.name = .ok (name, d)) (hd : d.rest ≠ []) :
    (c.extend more).name = .ok (name, d.extend more) := by
  have hc : c.rest ≠ [] := ne_nil_of_length_lt (length_name h)
  rw [Cursor.name] at h
  rw [Cursor.name, head?_extend more hc]
  split at h
  · rename_i hstart
    rw [if_pos hstart]
    injection h with h
    obtain ⟨rfl, rfl⟩ := Prod.mk.inj h
    obtain ⟨htake, hskip⟩ := skip_takeWhile_extend more hd
    simp only [htake, hskip]
  · cases h

theorem exists_isName_of_name {name : String} (h : c.name = .ok (name, d)) :
    ∃ cs, IsName cs ∧ c.rest = cs ++ d.rest := by
  rw [Cursor.name] at h
  split at h
  · rename_i hstart
    injection h with h
    obtain ⟨rfl, rfl⟩ := Prod.mk.inj h
    refine ⟨c.rest.takeWhile isNameChar, ⟨?_, List.all_eq_true.mp List.all_takeWhile⟩, ?_⟩
    · cases hc : c.rest with
      | nil =>
        rw [hc] at hstart
        cases hstart
      | cons x after =>
        have hx : isNameStart x = true := by rwa [hc] at hstart
        rw [List.takeWhile_cons_of_pos (isNameChar_of_isNameStart hx)]
        exact hx
    · rw [rest_skip_takeWhile, List.takeWhile_append_dropWhile]
  · cases h

theorem skipPast_extend {token : String} {data : List Char}
    (h : c.skipPast token = .ok (data, d)) :
    (c.extend more).skipPast token = .ok (data, d.extend more) := by
  rw [skipPast] at h
  split at h
  · rename_i n hn
    have hle := indexOf?_le hn
    injection h with h
    obtain ⟨rfl, rfl⟩ := Prod.mk.inj h
    rw [skipPast, extend, indexOf?_append more hn]
    change Except.ok (_, (c.extend more).skip _) = _
    rw [skip_extend more hle, List.take_append_of_le_length (by omega)]
  · cases h

theorem skipDoctype_extend (h : c.skipDoctype = .ok d) :
    (c.extend more).skipDoctype = .ok (d.extend more) := by
  rw [skipDoctype] at h
  split at h
  · rename_i n hn
    injection h with h
    subst h
    rw [skipDoctype, extend, doctypeLength?_append more hn]
    exact congrArg Except.ok (skip_extend more (doctypeLength?_le hn))
  · cases h

theorem expect_extend {token : String} {wanted : Wanted} (h : c.expect token wanted = .ok d) :
    (c.extend more).expect token wanted = .ok (d.extend more) := by
  rw [expect] at h
  split at h
  · rename_i hstart
    injection h with h
    subst h
    rw [expect, if_pos (startsWith_extend more hstart),
      skip_extend more (length_of_startsWith hstart)]
  · cases h

theorem startsWith_of_expect {token : String} {wanted : Wanted}
    (h : c.expect token wanted = .ok d) : c.startsWith token = true := by
  rw [expect] at h
  split at h
  · assumption
  · cases h

theorem valueUpTo_extend {quote : Char} {value : String} (h : c.valueUpTo quote = .ok (value, d)) :
    (c.extend more).valueUpTo quote = .ok (value, d.extend more) := by
  rw [valueUpTo] at h
  split at h
  · cases h
  · rename_i raw rest hsplit
    obtain ⟨hraw, hc⟩ := Text.splitAtFirst_eq_some hsplit
    have hsplit' : Text.splitAtFirst quote (c.extend more).rest = (raw, some (rest ++ more)) := by
      rw [extend, hc, List.append_assoc]
      exact Text.splitAtFirst_of_mem hraw
    have hle : raw.length + 1 ≤ c.rest.length := by
      rw [hc]
      simp
    split at h
    · cases h
    · rename_i hangle
      obtain ⟨decoded, hdecode, hpair⟩ := map_eq_ok.mp h
      obtain ⟨rfl, rfl⟩ := Prod.mk.inj hpair
      rw [valueUpTo, hsplit']
      simp only [hangle]
      change (decode c.line raw).map _ = _
      rw [hdecode, skip_extend more hle]
      rfl

theorem quotedValue_extend {value : String} (h : c.quotedValue = .ok (value, d)) :
    (c.extend more).quotedValue = .ok (value, d.extend more) := by
  rw [quotedValue.eq_def] at h ⊢
  split at h
  · rename_i quote rest hc
    have hc' : (c.extend more).rest = quote :: (rest ++ more) := by rw [extend, hc]; rfl
    simp only [hc']
    split at h
    · rename_i hquote
      rw [if_pos hquote, skip_extend more (by simp [hc])]
      exact valueUpTo_extend more h
    · cases h
  · cases h

theorem rest_ne_nil_of_quotedValue {value : String} (h : c.quotedValue = .ok (value, d)) :
    c.rest ≠ [] := by
  intro hc
  rw [quotedValue.eq_def, hc] at h
  cases h

theorem namedValue_extend {pair : String × String} (h : c.namedValue = .ok (pair, d)) :
    (c.extend more).namedValue = .ok (pair, d.extend more) := by
  obtain ⟨⟨key, c₁⟩, h₁, h⟩ := bind_eq_ok.mp h
  obtain ⟨c₂, h₂, h⟩ := bind_eq_ok.mp h
  obtain ⟨⟨value, c₃⟩, h₃, h⟩ := bind_eq_ok.mp h
  injection h with h
  obtain ⟨rfl, rfl⟩ := Prod.mk.inj h
  have hspaces₁ := ne_nil_of_startsWith (by decide) (startsWith_of_expect h₂)
  have hspaces₂ := rest_ne_nil_of_quotedValue h₃
  rw [namedValue, name_extend more h₁ (rest_ne_nil_of_skipSpaces hspaces₁)]
  simp only [bind, Except.bind]
  rw [skipSpaces_extend more hspaces₁, expect_extend more h₂]
  simp only
  rw [skipSpaces_extend more hspaces₂, quotedValue_extend more h₃]
  rfl

end Cursor

namespace Stage

variable {c d : Cursor} {stage stage' : Stage} {outer : List OpenElement} (more : List Char)

theorem ignorePast_extend {token : String} (h : ignorePast stage token c = .ok (.next stage' d)) :
    ignorePast stage token (c.extend more) = .ok (.next stage' (d.extend more)) := by
  obtain ⟨⟨data, d₁⟩, h₁, h⟩ := bind_eq_ok.mp h
  cases h
  rw [ignorePast, Cursor.skipPast_extend more h₁]
  rfl

theorem openElement_eq_ok (h : openElement outer c = .ok (.next stage d)) :
    outer.length ≠ maxDepth ∧ ∃ name, c.name = .ok (name, d) ∧
      stage = .startTag { name := name, line := c.line } outer := by
  rw [openElement] at h
  split at h
  · cases h
  · rename_i hdepth
    obtain ⟨⟨name, d₁⟩, h₁, h⟩ := bind_eq_ok.mp h
    injection h with h
    injection h with hstage hd
    subst hd
    exact ⟨hdepth, name, h₁, hstage.symm⟩

/-- Only the end of the root element may be the end of the text. -/
theorem rest_ne_nil (hd : d.rest = [] → ∃ root, stage = .epilog root)
    (hstage : ∀ root, stage ≠ .epilog root) : d.rest ≠ [] := by
  intro hnil
  obtain ⟨root, hroot⟩ := hd hnil
  exact hstage root hroot

theorem openElement_extend (h : openElement outer c = .ok (.next stage d))
    (hd : d.rest = [] → ∃ root, stage = .epilog root) :
    openElement outer (c.extend more) = .ok (.next stage (d.extend more)) := by
  obtain ⟨hdepth, name, hname, rfl⟩ := openElement_eq_ok h
  have hne : d.rest ≠ [] := rest_ne_nil hd (by rintro _ ⟨⟩)
  rw [openElement, if_neg hdepth, Cursor.name_extend more hname hne]
  rfl

theorem not_startsWith_of_name {name : String} (h : c.name = .ok (name, d)) (token : String)
    {y : Char} {ys : List Char} (ht : token.toList = y :: ys) (hy : isNameChar y = false) :
    ¬ (c.extend more).startsWith token = true := by
  obtain ⟨cs, hname, hc⟩ := Cursor.exists_isName_of_name h
  rw [Cursor.startsWith, ht, Cursor.extend, hc, List.append_assoc, isPrefixOf_isName hname hy]
  exact Bool.false_ne_true

theorem not_startsWith_of_openElement (h : openElement outer (c.skip 1) = .ok (.next stage d))
    (hangle : c.startsWith "<" = true) (token : String) {y : Char} {ys : List Char}
    (ht : token.toList = '<' :: y :: ys) (hy : isNameChar y = false) :
    ¬ (c.extend more).startsWith token = true := by
  obtain ⟨-, name, hopen, -⟩ := openElement_eq_ok h
  obtain ⟨cs, hname, hskip⟩ := Cursor.exists_isName_of_name hopen
  obtain ⟨after, hc⟩ := Cursor.startsWith_iff.mp hangle
  have hafter : after = cs ++ d.rest := by rw [← hskip, Cursor.skip, hc]; rfl
  have hlong : (c.extend more).rest = '<' :: (cs ++ (d.rest ++ more)) := by
    rw [Cursor.extend, hc, hafter]
    simp
  rw [Cursor.startsWith, ht, hlong, List.isPrefixOf_cons_cons, isPrefixOf_isName hname hy,
    Bool.and_false]
  exact Bool.false_ne_true

theorem stepProlog_extend {doctypeAllowed : Bool}
    (h : stepProlog doctypeAllowed c = .ok (.next stage d))
    (hd : d.rest = [] → ∃ root, stage = .epilog root) :
    stepProlog doctypeAllowed (c.extend more) = .ok (.next stage (d.extend more)) := by
  have hc : c.rest ≠ [] := Cursor.ne_nil_of_length_lt (length_stepProlog h)
  rw [stepProlog] at h ⊢
  rw [Cursor.head?_extend more hc]
  split at h
  · rename_i hspace
    cases h
    have hne : c.skipSpaces.rest ≠ [] := rest_ne_nil hd (by rintro _ ⟨⟩)
    rw [if_pos hspace, Cursor.skipSpaces_extend more hne]
  rename_i hspace
  rw [if_neg hspace]
  split at h
  · rename_i hpi
    rw [if_pos (Cursor.startsWith_extend more hpi)]
    exact ignorePast_extend more h
  split at h
  · rename_i hcomment
    have hlong := Cursor.startsWith_extend more hcomment
    rw [if_neg (Cursor.not_startsWith hlong (by decide)), if_pos hlong]
    exact ignorePast_extend more h
  split at h
  · rename_i hdoctype
    have hlong := Cursor.startsWith_extend more hdoctype.2
    obtain ⟨d₁, h₁, h⟩ := bind_eq_ok.mp h
    cases h
    rw [if_neg (Cursor.not_startsWith hlong (by decide)),
      if_neg (Cursor.not_startsWith hlong (by decide)), if_pos ⟨hdoctype.1, hlong⟩,
      Cursor.skipDoctype_extend more h₁]
    rfl
  split at h
  · rename_i hangle
    have hmarkup := not_startsWith_of_openElement more h hangle
    rw [if_neg (hmarkup "<?" rfl (by decide)), if_neg (hmarkup "<!--" rfl (by decide)),
      if_neg fun hdoctype => hmarkup "<!DOCTYPE" rfl (by decide) hdoctype.2,
      if_pos (Cursor.startsWith_extend more hangle),
      Cursor.skip_extend_of_startsWith more (by decide) hangle]
    exact openElement_extend more h hd
  · cases h

theorem stepStartTag_extend {e : OpenElement}
    (h : stepStartTag e outer c = .ok (.next stage d)) :
    stepStartTag e outer (c.extend more) = .ok (.next stage (d.extend more)) := by
  rw [stepStartTag] at h ⊢
  dsimp only at h ⊢
  split at h
  · rename_i hvoid
    have hne := Cursor.ne_nil_of_startsWith (by decide) hvoid
    cases h
    rw [Cursor.skipSpaces_extend more hne, if_pos (Cursor.startsWith_extend more hvoid),
      Cursor.skip_extend_of_startsWith more (by decide) hvoid]
  split at h
  · rename_i hend
    have hne := Cursor.ne_nil_of_startsWith (by decide) hend
    have hlong := Cursor.startsWith_extend more hend
    cases h
    rw [Cursor.skipSpaces_extend more hne, if_neg (Cursor.not_startsWith hlong (by decide)),
      if_pos hlong, Cursor.skip_extend_of_startsWith more (by decide) hend]
  split at h
  · rename_i hspace
    obtain ⟨⟨⟨key, value⟩, d₁⟩, h₁, h⟩ := bind_eq_ok.mp h
    obtain ⟨⟨name, d₂⟩, hname, -⟩ := bind_eq_ok.mp h₁
    have hne : c.skipSpaces.rest ≠ [] := Cursor.ne_nil_of_length_lt (Cursor.length_name hname)
    have hmarkup := not_startsWith_of_name more hname
    rw [Cursor.skipSpaces_extend more hne, if_neg (hmarkup "/>" rfl (by decide)),
      if_neg (hmarkup ">" rfl (by decide)),
      Cursor.head?_extend more (Cursor.rest_ne_nil_of_skipSpaces hne), if_pos hspace,
      Cursor.namedValue_extend more h₁]
    dsimp only [bind, Except.bind] at h ⊢
    split at h
    · cases h
    · rename_i hnew
      cases h
      rw [if_neg hnew]
      rfl
  · cases h

theorem endTag_extend {e : OpenElement} (h : endTag e outer c = .ok (.next stage d)) :
    endTag e outer (c.extend more) = .ok (.next stage (d.extend more)) := by
  obtain ⟨⟨name, d₁⟩, h₁, h⟩ := bind_eq_ok.mp h
  obtain ⟨d₂, h₂, h⟩ := bind_eq_ok.mp h
  have hne := Cursor.ne_nil_of_startsWith (by decide) (Cursor.startsWith_of_expect h₂)
  rw [endTag, Cursor.name_extend more h₁ (Cursor.rest_ne_nil_of_skipSpaces hne)]
  dsimp only [bind, Except.bind] at h ⊢
  rw [Cursor.skipSpaces_extend more hne, Cursor.expect_extend more h₂]
  dsimp only
  split at h
  · rename_i hmatch
    cases h
    rw [if_pos hmatch]
    rfl
  · cases h

theorem not_startsWith_of_text (hc : c.rest ≠ []) (hangle : ¬ c.startsWith "<" = true)
    (token : String) {ys : List Char} (ht : token.toList = '<' :: ys) :
    ¬ (c.extend more).startsWith token = true := by
  obtain ⟨x, after, hrest⟩ := List.exists_cons_of_ne_nil hc
  have hx : '<' ≠ x := by
    rintro rfl
    exact hangle (Cursor.startsWith_iff.mpr ⟨after, hrest⟩)
  rw [Cursor.startsWith, ht, Cursor.extend, hrest, List.cons_append, isPrefixOf_eq_false hx]
  exact Bool.false_ne_true

theorem stepContent_extend {e : OpenElement} (h : stepContent e outer c = .ok (.next stage d))
    (hd : d.rest = [] → ∃ root, stage = .epilog root) :
    stepContent e outer (c.extend more) = .ok (.next stage (d.extend more)) := by
  have hc : c.rest ≠ [] := Cursor.ne_nil_of_length_lt (length_stepContent h)
  have hend : ¬ (c.extend more).atEnd = true := by
    simp [Cursor.atEnd, Cursor.extend, hc]
  rw [stepContent] at h ⊢
  rw [if_neg hend]
  -- In every case the tokens that are tried before must not begin in the longer text either.
  split at h
  · cases h
  split at h
  · rename_i hclose
    rw [if_pos (Cursor.startsWith_extend more hclose),
      Cursor.skip_extend_of_startsWith more (by decide) hclose]
    exact endTag_extend more h
  split at h
  · rename_i hcomment
    have hlong := Cursor.startsWith_extend more hcomment
    rw [if_neg (Cursor.not_startsWith hlong (by decide)), if_pos hlong]
    exact ignorePast_extend more h
  split at h
  · rename_i hdata
    have hlong := Cursor.startsWith_extend more hdata
    obtain ⟨⟨data, d₁⟩, h₁, h⟩ := bind_eq_ok.mp h
    cases h
    rw [if_neg (Cursor.not_startsWith hlong (by decide)),
      if_neg (Cursor.not_startsWith hlong (by decide)), if_pos hlong,
      Cursor.skip_extend_of_startsWith more (by decide) hdata, Cursor.skipPast_extend more h₁]
    rfl
  split at h
  · rename_i hpi
    have hlong := Cursor.startsWith_extend more hpi
    rw [if_neg (Cursor.not_startsWith hlong (by decide)),
      if_neg (Cursor.not_startsWith hlong (by decide)),
      if_neg (Cursor.not_startsWith hlong (by decide)), if_pos hlong]
    exact ignorePast_extend more h
  split at h
  · rename_i hangle
    have hmarkup := not_startsWith_of_openElement more h hangle
    rw [if_neg (hmarkup "</" rfl (by decide)), if_neg (hmarkup "<!--" rfl (by decide)),
      if_neg (hmarkup "<![CDATA[" rfl (by decide)), if_neg (hmarkup "<?" rfl (by decide)),
      if_pos (Cursor.startsWith_extend more hangle),
      Cursor.skip_extend_of_startsWith more (by decide) hangle]
    exact openElement_extend more h hd
  · rename_i hangle
    obtain ⟨text, h₁, h⟩ := bind_eq_ok.mp h
    cases h
    have hmarkup := not_startsWith_of_text more hc hangle
    have hne : (c.skip (c.rest.takeWhile (· != '<')).length).rest ≠ [] :=
      rest_ne_nil hd (by rintro _ ⟨⟩)
    obtain ⟨htake, hskip⟩ := Cursor.skip_takeWhile_extend more hne
    rw [if_neg (hmarkup "</" rfl), if_neg (hmarkup "<!--" rfl), if_neg (hmarkup "<![CDATA[" rfl),
      if_neg (hmarkup "<?" rfl), if_neg (hmarkup "<" rfl)]
    dsimp only
    rw [htake, hskip]
    change Cursor.decode c.line _ >>= _ = _
    rw [h₁]
    rfl

/-- A step before the end of the root element does not look behind what it reads. -/
theorem step_extend (hstage : ∀ root, stage ≠ .epilog root)
    (h : stage.step c = .ok (.next stage' d)) (hd : d.rest = [] → ∃ root, stage' = .epilog root) :
    stage.step (c.extend more) = .ok (.next stage' (d.extend more)) := by
  cases stage with
  | prolog => exact stepProlog_extend more h hd
  | startTag => exact stepStartTag_extend more h
  | content => exact stepContent_extend more h hd
  | epilog root => exact absurd rfl (hstage root)

/-! The way to the end of the root element. -/

theorem ignorePast_ne_done {token : String} {root : Element} :
    ignorePast stage token c ≠ .ok (.done root) := by
  intro h
  obtain ⟨_, -, h⟩ := bind_eq_ok.mp h
  cases h

theorem openElement_ne_done {root : Element} : openElement outer c ≠ .ok (.done root) := by
  intro h
  rw [openElement] at h
  split at h
  · cases h
  · obtain ⟨_, -, h⟩ := bind_eq_ok.mp h
    cases h

theorem stepProlog_ne_done {doctypeAllowed : Bool} {root : Element} :
    stepProlog doctypeAllowed c ≠ .ok (.done root) := by
  intro h
  rw [stepProlog] at h
  split at h
  · cases h
  split at h
  · exact ignorePast_ne_done h
  split at h
  · exact ignorePast_ne_done h
  split at h
  · obtain ⟨_, -, h⟩ := bind_eq_ok.mp h
    cases h
  split at h
  · exact openElement_ne_done h
  · cases h

theorem stepStartTag_ne_done {e : OpenElement} {root : Element} :
    stepStartTag e outer c ≠ .ok (.done root) := by
  intro h
  rw [stepStartTag] at h
  dsimp only at h
  split at h
  · cases h
  split at h
  · cases h
  split at h
  · obtain ⟨⟨⟨_, _⟩, _⟩, -, h⟩ := bind_eq_ok.mp h
    dsimp only at h
    split at h <;> cases h
  · cases h

theorem stepContent_ne_done {e : OpenElement} {root : Element} :
    stepContent e outer c ≠ .ok (.done root) := by
  intro h
  rw [stepContent] at h
  split at h
  · cases h
  split at h
  · obtain ⟨_, -, h⟩ := bind_eq_ok.mp h
    obtain ⟨_, -, h⟩ := bind_eq_ok.mp h
    split at h <;> cases h
  split at h
  · exact ignorePast_ne_done h
  split at h
  · obtain ⟨_, -, h⟩ := bind_eq_ok.mp h
    cases h
  split at h
  · exact ignorePast_ne_done h
  split at h
  · exact openElement_ne_done h
  · obtain ⟨_, -, h⟩ := bind_eq_ok.mp h
    cases h

theorem step_ne_done {root : Element} (hstage : ∀ root, stage ≠ .epilog root) :
    stage.step c ≠ .ok (.done root) := by
  cases stage with
  | prolog => exact stepProlog_ne_done
  | startTag => exact stepStartTag_ne_done
  | content => exact stepContent_ne_done
  | epilog root => exact absurd rfl (hstage root)

/-- The steps from a stage on take the reader to the end of the root element, which is where the
last of the cursors stands. -/
inductive Closes : Stage → Cursor → Element → Cursor → Prop where
  | here {root c} : Closes (.epilog root) c root c
  | step {stage c stage' d root e} (hstage : ∀ root, stage ≠ .epilog root)
      (h : stage.step c = .ok (.next stage' d)) : Closes stage' d root e → Closes stage c root e

variable {root root' : Element} {e e' : Cursor}

theorem Closes.run_eq (h : Closes stage c root e) : stage.run c = run (.epilog root) e := by
  induction h with
  | here => rfl
  | step _ h _ ih => rw [run_of_step h, ih]

theorem Closes.unique (h : Closes stage c root e) (h' : Closes stage c root' e') :
    root = root' ∧ e = e' := by
  induction h with
  | here =>
    cases h' with
    | here => exact ⟨rfl, rfl⟩
    | step hstage => exact absurd rfl (hstage _)
  | step hstage hstep _ ih =>
    cases h' with
    | here => exact absurd rfl (hstage _)
    | step _ hstep' h' =>
      obtain ⟨⟩ := hstep.symm.trans hstep'
      exact ih h'

theorem Closes.extend (h : Closes stage c root e) :
    Closes stage (c.extend more) root (e.extend more) := by
  induction h with
  | here => exact .here
  | step hstage hstep hrest ih =>
    refine .step hstage (step_extend more hstage hstep fun hnil => ?_) ih
    cases hrest with
    | here => exact ⟨_, rfl⟩
    | step _ hstep' => exact absurd hnil (Cursor.ne_nil_of_length_lt (length_step hstep'))

/-! What can follow the root element. -/

theorem ignorePast_cases (stage : Stage) (token : String) (c : Cursor) :
    (∃ d, ignorePast stage token c = .ok (.next stage d)) ∨
      ∃ line, ignorePast stage token c = .error (.unexpectedEnd line) := by
  cases hpast : c.skipPast token with
  | ok found =>
    refine .inl ⟨found.2, ?_⟩
    rw [ignorePast, hpast]
    rfl
  | error err =>
    rw [Cursor.skipPast] at hpast
    split at hpast
    · cases hpast
    · rename_i hnone
      refine .inr ⟨(c.skip c.rest.length).line, ?_⟩
      rw [ignorePast, Cursor.skipPast, hnone]
      rfl

theorem stepEpilog_cases (root : Element) (c : Cursor) :
    (∃ d, stepEpilog root c = .ok (.next (.epilog root) d)) ∨
      stepEpilog root c = .ok (.done root) ∨
      (∃ line, stepEpilog root c = .error (.trailingContent line)) ∨
      ∃ line, stepEpilog root c = .error (.unexpectedEnd line) := by
  rw [stepEpilog]
  split
  · exact .inl ⟨_, rfl⟩
  split
  · exact (ignorePast_cases _ _ c).imp_right fun h => .inr (.inr h)
  split
  · exact (ignorePast_cases _ _ c).imp_right fun h => .inr (.inr h)
  split
  · exact .inr (.inl rfl)
  · exact .inr (.inr (.inl ⟨_, rfl⟩))

/-- Behind the root element the reader keeps to it, or reports that the text goes on with something
else, or that it ends inside a comment or an instruction. -/
theorem run_epilog (root : Element) (c : Cursor) :
    run (.epilog root) c = .ok root ∨
      (∃ line, run (.epilog root) c = .error (.trailingContent line)) ∨
      ∃ line, run (.epilog root) c = .error (.unexpectedEnd line) := by
  generalize hn : c.rest.length = n
  induction n using Nat.strongRecOn generalizing c with
  | ind n ih =>
    rcases stepEpilog_cases root c with ⟨d, h⟩ | h | ⟨line, h⟩ | ⟨line, h⟩
    · have hstep : (Stage.epilog root).step c = .ok (.next (.epilog root) d) := h
      rw [run_of_step hstep]
      exact ih d.rest.length (hn ▸ length_step hstep) d rfl
    · exact .inl (by rw [run_eq, step, h])
    · exact .inr (.inl ⟨line, by rw [run_eq, step, h]⟩)
    · exact .inr (.inr ⟨line, by rw [run_eq, step, h]⟩)

theorem exists_closes (h : stage.run c = .ok root) : ∃ e, Closes stage c root e := by
  generalize hn : c.rest.length = n
  induction n using Nat.strongRecOn generalizing stage c with
  | ind n ih =>
    by_cases hstage : ∀ root, stage ≠ .epilog root
    · rw [run_eq] at h
      split at h
      · cases h
      · rename_i hdone
        exact absurd hdone (step_ne_done hstage)
      · rename_i stage' d hstep
        obtain ⟨e, he⟩ := ih d.rest.length (hn ▸ length_step hstep) h rfl
        exact ⟨e, .step hstage hstep he⟩
    · simp only [ne_eq, Classical.not_forall, Classical.not_not] at hstage
      obtain ⟨found, rfl⟩ := hstage
      have hfound : found = root := by
        rcases run_epilog found c with hrun | ⟨line, hrun⟩ | ⟨line, hrun⟩
        · exact Except.ok.inj (hrun.symm.trans h)
        · cases hrun.symm.trans h
        · cases hrun.symm.trans h
      exact ⟨c, hfound ▸ .here⟩

end Stage

/-! Documents. -/

/-- The root element of the text, and what stands behind its end. -/
def RootEnds (text : String) (root : Element) (rest : List Char) : Prop :=
  ∃ line, Stage.Closes (.prolog true) { rest := dropByteOrderMark text.toList } root ⟨line, rest⟩

theorem dropByteOrderMark_append {cs : List Char} (more : List Char) (h : cs ≠ []) :
    dropByteOrderMark (cs ++ more) = dropByteOrderMark cs ++ more := by
  obtain ⟨c, cs, rfl⟩ := List.exists_cons_of_ne_nil h
  rw [List.cons_append, dropByteOrderMark, dropByteOrderMark]
  split <;> rfl

theorem toList_ne_nil_of_readDocument {text : String} {root : Element}
    (h : readDocument text = .ok root) : text.toList ≠ [] := by
  intro hnil
  rw [readDocument, hnil, Stage.run_eq] at h
  cases h

theorem exists_rootEnds {text : String} {root : Element} (h : readDocument text = .ok root) :
    ∃ rest, RootEnds text root rest := by
  obtain ⟨⟨line, rest⟩, hclose⟩ := Stage.exists_closes h
  exact ⟨rest, line, hclose⟩

theorem RootEnds.append {text : String} {root : Element} {rest : List Char}
    (h : RootEnds text root rest) (hne : text.toList ≠ []) (more : String) :
    RootEnds (text ++ more) root (rest ++ more.toList) := by
  obtain ⟨line, h⟩ := h
  refine ⟨line, ?_⟩
  rw [String.toList_append, dropByteOrderMark_append _ hne]
  exact h.extend more.toList

theorem readDocument_of_rootEnds {text : String} {root : Element} {rest : List Char}
    (h : RootEnds text root rest) :
    readDocument text = .ok root ∨
      (∃ line, readDocument text = .error (.trailingContent line)) ∨
      ∃ line, readDocument text = .error (.unexpectedEnd line) := by
  obtain ⟨line, h⟩ := h
  rw [readDocument, h.run_eq]
  exact Stage.run_epilog root ⟨line, rest⟩

theorem RootEnds.unique {text : String} {root root' : Element} {rest rest' : List Char}
    (h : RootEnds text root rest) (h' : RootEnds text root' rest') :
    root = root' ∧ rest = rest' := by
  obtain ⟨line, h⟩ := h
  obtain ⟨line', h'⟩ := h'
  obtain ⟨hroot, hend⟩ := h.unique h'
  exact ⟨hroot, congrArg Cursor.rest hend⟩

/-- A text that goes on after a document is not read as another document: it is read as the same
one, or it is reported that something follows or is not finished. A text that is broken off before
the end of the root element is no document. -/
theorem readDocument_append {text : String} {root : Element} (h : readDocument text = .ok root) :
    (∀ more, readDocument (text ++ more) = .ok root ∨
        (∃ line, readDocument (text ++ more) = .error (.trailingContent line)) ∨
        ∃ line, readDocument (text ++ more) = .error (.unexpectedEnd line)) ∧
      (∀ more other, readDocument (text ++ more) = .ok other → other = root) ∧
      (∃ rest, RootEnds text root rest) ∧
      ∀ rest front back, RootEnds text root rest → text = front ++ back →
        rest.length < back.length → ∃ err, readDocument front = .error err := by
  obtain ⟨rest, hroot⟩ := exists_rootEnds h
  have hmore (more : String) := hroot.append (toList_ne_nil_of_readDocument h) more
  refine ⟨fun more => readDocument_of_rootEnds (hmore more), ?_, ⟨rest, hroot⟩, ?_⟩
  · intro more other hother
    obtain ⟨rest', hroot'⟩ := exists_rootEnds hother
    exact (hroot'.unique (hmore more)).1
  · intro rest front back hroot htext hlen
    cases hfront : readDocument front with
    | error err => exact ⟨err, rfl⟩
    | ok other =>
      -- The root element of the front would be that of the whole text, with `back` behind it.
      obtain ⟨rest', hroot'⟩ := exists_rootEnds hfront
      have hwhole := hroot'.append (toList_ne_nil_of_readDocument hfront) back
      rw [← htext] at hwhole
      have hrest := (hroot.unique hwhole).2
      rw [hrest, List.length_append, String.length_toList] at hlen
      omega

/-- The last character of the root element is as needed as the others. -/
theorem readDocument_append_one_short :
    readDocument "<a>1<b/></a> " = .ok ⟨"a", [], "1", [⟨"b", [], "", [], 1⟩], 1⟩ ∧
      RootEnds "<a>1<b/></a> " ⟨"a", [], "1", [⟨"b", [], "", [], 1⟩], 1⟩ [' '] ∧
      (∀ more other, readDocument ("<a>1<b/></a> " ++ more) = .ok other →
        other = ⟨"a", [], "1", [⟨"b", [], "", [], 1⟩], 1⟩) ∧
      ∃ err, readDocument "<a>1<b/></a" = .error err := by
  have hread : readDocument "<a>1<b/></a> " =
      .ok ⟨"a", [], "1", [⟨"b", [], "", [], 1⟩], 1⟩ := rfl
  have hends : RootEnds "<a>1<b/></a> " ⟨"a", [], "1", [⟨"b", [], "", [], 1⟩], 1⟩ [' '] :=
    ⟨1, .step nofun rfl (.step nofun rfl (.step nofun rfl (.step nofun rfl (.step nofun rfl
      (.step nofun rfl .here)))))⟩
  obtain ⟨-, hother, -, hshort⟩ := readDocument_append hread
  exact ⟨hread, hends, hother, hshort [' '] "<a>1<b/></a" "> " hends rfl (by decide)⟩

end Markup

end ThreeAddress
