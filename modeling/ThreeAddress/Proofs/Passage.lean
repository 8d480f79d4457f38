import ThreeAddress.Proofs.Truncation

/-! Pieces of text. What is read at once is a piece of the text between two places, and the second
place is as many lines further down as the piece has. -/

namespace ThreeAddress

namespace Markup

theorem indexOf?_eq_some {token cs : List Char} {n : Nat} (ht : token ≠ [])
    (h : indexOf? token cs = some n) :
    cs = cs.take n ++ (token ++ cs.drop (n + token.length)) ∧ ¬ token <:+: cs.take n := by
  induction cs generalizing n with
  | nil => simp [indexOf?, ht] at h
  | cons c cs ih =>
    rw [indexOf?] at h
    by_cases hprefix : token.isPrefixOf (c :: cs) = true
    · rw [if_pos hprefix] at h
      cases h
      rw [List.isPrefixOf_iff_prefix, List.prefix_iff_eq_append] at hprefix
      rw [Nat.zero_add, hprefix]
      exact ⟨rfl, by simpa using ht⟩
    · rw [if_neg hprefix] at h
      obtain ⟨m, hm, rfl⟩ := Option.map_eq_some_iff.mp h
      obtain ⟨hcut, hfirst⟩ := ih hm
      rw [List.take_succ_cons, Nat.succ_add, List.drop_succ_cons, List.infix_cons_iff]
      refine ⟨congrArg (c :: ·) hcut, ?_⟩
      rintro (hhere | hlater)
      · rw [List.isPrefixOf_iff_prefix] at hprefix
        exact hprefix (hhere.trans ((List.prefix_cons_inj c).mpr (List.take_prefix m cs)))
      · exact hfirst hlater

namespace Cursor

/-- A piece of the text has been read between the two places. -/
def Passes (c : Cursor) (piece : List Char) (d : Cursor) : Prop :=
  c.rest = piece ++ d.rest ∧ d.line = c.line + piece.count '\n'

variable {c d e : Cursor} {piece more : List Char}

theorem passes_skip {rest : List Char} {n : Nat} (h : c.rest = piece ++ rest)
    (hn : n = piece.length) : c.Passes piece (c.skip n) := by
  rw [Passes, skip, hn, h, List.take_left, List.drop_left]
  exact ⟨rfl, rfl⟩

theorem Passes.skip_eq {n : Nat} (h : c.Passes piece d)
    (hn : n = piece.length) : c.skip n = d := by
  rw [skip, hn, h.1, List.take_left, List.drop_left, ← h.2]

theorem Passes.trans (h : c.Passes piece d) (h' : d.Passes more e) :
    c.Passes (piece ++ more) e := by
  refine ⟨by rw [h.1, h'.1, List.append_assoc], ?_⟩
  rw [h'.2, h.2, List.count_append, Nat.add_assoc]

theorem Passes.length_lt (h : c.Passes piece d) (hpiece : piece ≠ []) :
    d.rest.length < c.rest.length := by
  have hpos := List.length_pos_iff.mpr hpiece
  rw [h.1, List.length_append]
  omega

theorem passes_skipSpaces (c : Cursor) :
    ∃ blanks, IsSpaces blanks ∧ (c.rest.head?.any isSpace = true → blanks ≠ []) ∧
      c.Passes blanks c.skipSpaces := by
  refine ⟨c.rest.takeWhile isSpace, List.all_eq_true.mp List.all_takeWhile, ?_,
    passes_skip List.takeWhile_append_dropWhile.symm rfl⟩
  cases hc : c.rest with
  | nil => exact fun h => absurd h Bool.false_ne_true
  | cons x rest =>
    intro hx
    have hspace : isSpace x = true := hx
    rw [List.takeWhile_cons_of_pos hspace]
    exact List.cons_ne_nil _ _

theorem passes_token {token : String} {n : Nat} (h : c.startsWith token = true)
    (hn : n = token.toList.length) : c.Passes token.toList (c.skip n) := by
  obtain ⟨after, hc⟩ := startsWith_iff.mp h
  exact passes_skip hc hn

theorem passes_expect {token : String} {wanted : Wanted} (h : c.expect token wanted = .ok d) :
    c.Passes token.toList d := by
  have hstarts := startsWith_of_expect h
  rw [expect, if_pos hstarts] at h
  cases h
  exact passes_token hstarts rfl

theorem passes_name {name : String} (h : c.name = .ok (name, d)) :
    IsName name.toList ∧ c.Passes name.toList d := by
  obtain ⟨cs, hname, hcut⟩ := exists_isName_of_name h
  rw [Cursor.name] at h
  split at h
  · cases h
    rw [rest_skip_takeWhile] at hcut
    have hcs : c.rest.takeWhile isNameChar = cs :=
      List.append_cancel_right (List.takeWhile_append_dropWhile.trans hcut)
    rw [hcs, String.toList_ofList]
    exact ⟨hname, passes_skip hcut rfl⟩
  · cases h

theorem passes_skipPast {token : String} {data : List Char} (ht : token.toList ≠ [])
    (h : c.skipPast token = .ok (data, d)) :
    c.Passes (data ++ token.toList) d ∧ ¬ token.toList <:+: data := by
  rw [skipPast] at h
  split at h
  · rename_i n hn
    cases h
    obtain ⟨hcut, hfirst⟩ := indexOf?_eq_some ht hn
    have hle := indexOf?_le hn
    rw [← List.append_assoc] at hcut
    refine ⟨passes_skip hcut ?_, hfirst⟩
    rw [List.length_append, List.length_take]
    omega
  · cases h

end Cursor

namespace Stage

variable {c d : Cursor} {outer : List OpenElement} {stage stage' : Stage}

theorem prefix_of_opened {opener token data rest : List Char} (hopener : ¬ token <:+: opener)
    (h : opener <+: data ++ token ++ rest) : opener <+: data ++ token := by
  rcases List.prefix_or_prefix_of_prefix h (List.prefix_append (data ++ token) rest) with
    hshort | hlong
  · exact hshort
  · exact absurd ((List.suffix_append data token).isInfix.trans hlong.isInfix) hopener

theorem ignorePast_passes {opener token : String} (hopener : ¬ token.toList <:+: opener.toList)
    (hstarts : c.startsWith opener = true) (h : ignorePast stage token c = .ok (.next stage' d)) :
    stage' = stage ∧ ∃ data, c.Passes (data ++ token.toList) d ∧
      opener.toList <+: data ++ token.toList ∧ ¬ token.toList <:+: data := by
  obtain ⟨⟨data, d₁⟩, hpast, h⟩ := bind_eq_ok.mp h
  cases h
  have ht : token.toList ≠ [] := fun hnil => hopener (hnil ▸ List.nil_infix)
  obtain ⟨hpasses, hdata⟩ := Cursor.passes_skipPast ht hpast
  have hopen := List.isPrefixOf_iff_prefix.mp hstarts
  rw [hpasses.1] at hopen
  exact ⟨rfl, data, hpasses, prefix_of_opened hopener hopen, hdata⟩

/-- An element begins with an angle and its name, and its line is the one of the name. -/
theorem openElement_passes (hangle : c.startsWith "<" = true)
    (h : openElement outer (c.skip 1) = .ok (.next stage d)) :
    outer.length ≠ maxDepth ∧ ∃ name c₁, IsName name ∧ c.Passes ['<'] c₁ ∧ c₁.Passes name d ∧
      stage = .startTag { name := String.ofList name, line := c₁.line } outer := by
  obtain ⟨hdepth, name, hname, rfl⟩ := openElement_eq_ok h
  obtain ⟨hisName, hpasses⟩ := Cursor.passes_name hname
  exact ⟨hdepth, name.toList, c.skip 1, hisName, Cursor.passes_token hangle rfl, hpasses,
    by rw [String.ofList_toList]⟩

end Stage

end Markup

end ThreeAddress
