import ThreeAddress.Proofs.LineShift
import ThreeAddress.Proofs.Passage

/-! Comments. A comment that the reader passes over as a whole leaves no trace inside an element,
and in front of the root element it only moves the lines of the elements. Which comments these are
depends on their first characters, because the end of a comment is looked for from its opening angle
on. -/

namespace ThreeAddress

namespace Markup

/-! Comments, as a document may contain them. -/

/-- The body of a comment has no two dashes in a row and does not end with one. -/
structure Comment where
  body : String
  no_dashes : ¬ ['-', '-'] <:+: body.toList
  no_last_dash : body.toList.getLast? ≠ some '-'

namespace Comment

def text (k : Comment) : String := "<!--" ++ k.body ++ "-->"

/-- What follows in the body if its first characters and the dashes in front of them look like the
end of the comment. -/
def leftOver? (k : Comment) : Option (List Char) :=
  match k.body.toList with
  | '>' :: rest => some rest
  | '-' :: '>' :: rest => some rest
  | _ => none

variable {k : Comment}

theorem toList_text (rest : List Char) :
    k.text.toList ++ rest = "<!--".toList ++ (k.body.toList ++ ("-->".toList ++ rest)) := by
  simp [text]

theorem body_of_leftOver? {w : List Char} (h : k.leftOver? = some w) :
    k.body.toList = '>' :: w ∨ k.body.toList = '-' :: '>' :: w := by
  rw [leftOver?] at h
  split at h
  · rename_i hbody
    cases h
    exact .inl hbody
  · rename_i hbody
    cases h
    exact .inr hbody
  · cases h

theorem not_infix_of_leftOver? (h : k.leftOver? = none) :
    ¬ "-->".toList <:+: "<!--".toList ++ k.body.toList := by
  intro hinfix
  change ['-', '-', '>'] <:+: '<' :: '!' :: '-' :: '-' :: k.body.toList at hinfix
  simp only [List.infix_cons_iff, List.cons_prefix_cons] at hinfix
  rcases hinfix with ⟨hchar, -⟩ | ⟨hchar, -⟩ | ⟨-, -, hend⟩ | ⟨-, hend⟩ | hinside
  · exact absurd hchar (by decide)
  · exact absurd hchar (by decide)
  · obtain ⟨w, hw⟩ := hend
    simp [leftOver?, ← hw] at h
  · obtain ⟨w, hw⟩ := hend
    simp [leftOver?, ← hw] at h
  · exact k.no_dashes (.trans ⟨[], ['>'], rfl⟩ hinside)

end Comment

namespace Stage

variable {stage : Stage} {c d : Cursor} {k : Comment}

theorem not_space_of_startsWith {token : String} {ys : List Char} (h : c.startsWith token = true)
    (ht : token.toList = '<' :: ys) : ¬ c.rest.head?.any isSpace = true := by
  obtain ⟨after, hc⟩ := Cursor.startsWith_iff.mp h
  rw [hc, ht]
  exact Bool.false_ne_true

theorem step_of_comment (hstage : ∀ e outer, stage ≠ .startTag e outer)
    (h : c.startsWith "<!--" = true) : stage.step c = ignorePast stage "-->" c := by
  have hspace := not_space_of_startsWith h rfl
  have hpi : ¬ c.startsWith "<?" = true := Cursor.not_startsWith h (by decide)
  have hclose : ¬ c.startsWith "</" = true := Cursor.not_startsWith h (by decide)
  cases stage with
  | prolog => rw [step, stepProlog, if_neg hspace, if_neg hpi, if_pos h]
  | startTag e outer => exact absurd rfl (hstage e outer)
  | content =>
    have hend : ¬ c.atEnd = true := by
      simp [Cursor.atEnd, Cursor.ne_nil_of_startsWith (by decide) h]
    rw [step, stepContent, if_neg hend, if_neg hclose, if_pos h]
  | epilog => rw [step, stepEpilog, if_neg hspace, if_neg hpi, if_pos h]

theorem step_of_instruction {doctypeAllowed : Bool} (h : c.startsWith "<?" = true) :
    (Stage.prolog doctypeAllowed).step c = ignorePast (.prolog doctypeAllowed) "?>" c := by
  rw [step, stepProlog, if_neg (not_space_of_startsWith h rfl), if_pos h]

/-- What is ignored goes on to the first place that looks like its end. -/
theorem run_ignored {opener token : String} {front data : List Char} {z : Char}
    (hstep : ∀ c : Cursor, c.startsWith opener = true → stage.step c = ignorePast stage token c)
    (hz : z ∉ front) (ht : token.toList = front ++ [z])
    (hopen : opener.toList <+: data ++ token.toList) (hdata : ¬ token.toList <:+: data) (line : Nat)
    (rest : List Char) :
    stage.run ⟨line, data ++ (token.toList ++ rest)⟩ =
      stage.run ⟨line + (data ++ token.toList).count '\n', rest⟩ := by
  have hstarts : (⟨line, data ++ (token.toList ++ rest)⟩ : Cursor).startsWith opener = true := by
    rw [← List.append_assoc]
    exact List.isPrefixOf_iff_prefix.mpr (hopen.trans (List.prefix_append _ rest))
  apply run_of_step
  rw [hstep _ hstarts, ignorePast]
  rw [ht] at hdata ⊢
  rw [List.append_assoc front, List.singleton_append,
    Cursor.skipPast_append token hz ht hdata line rest]
  rfl

theorem run_comment_data (data : List Char) (hstage : ∀ e outer, stage ≠ .startTag e outer)
    (hopen : "<!--".toList <+: data ++ "-->".toList) (hdata : ¬ "-->".toList <:+: data) (line : Nat)
    (rest : List Char) :
    stage.run ⟨line, data ++ ("-->".toList ++ rest)⟩ =
      stage.run ⟨line + (data ++ "-->".toList).count '\n', rest⟩ :=
  run_ignored (fun _ => step_of_comment hstage) (show '>' ∉ ['-', '-'] by decide) rfl hopen hdata
    line rest

theorem run_comment (hstage : ∀ e outer, stage ≠ .startTag e outer) (h : k.leftOver? = none)
    (line : Nat) (rest : List Char) :
    stage.run ⟨line, k.text.toList ++ rest⟩ =
      stage.run ⟨line + k.body.toList.count '\n', rest⟩ := by
  have hopen : "<!--".toList <+: "<!--".toList ++ k.body.toList ++ "-->".toList := by
    rw [List.append_assoc]
    exact List.prefix_append _ _
  rw [Comment.toList_text, ← List.append_assoc,
    run_comment_data _ hstage hopen (Comment.not_infix_of_leftOver? h)]
  simp [List.count_append]

/-- A comment that looks ended too early is read like what is left over with the end behind it. -/
theorem run_leftOver (hstage : ∀ e outer, stage ≠ .startTag e outer) {w : List Char}
    (h : k.leftOver? = some w) (line : Nat) (rest : List Char) :
    stage.run ⟨line, k.text.toList ++ rest⟩ =
      stage.run ⟨line, w ++ ("-->".toList ++ rest)⟩ := by
  rw [Comment.toList_text]
  rcases Comment.body_of_leftOver? h with hbody | hbody
  · rw [hbody]
    exact run_comment_data "<!".toList hstage (by decide) (by decide) line _
  · rw [hbody]
    exact run_comment_data "<!-".toList hstage (by decide) (by decide) line _

end Stage

/-! Elements that hold text and one comment. -/

def IsPlain (cs : List Char) : Prop := '<' ∉ cs ∧ '&' ∉ cs

instance decidableIsPlain (cs : List Char) : Decidable (IsPlain cs) :=
  inferInstanceAs (Decidable ('<' ∉ cs ∧ '&' ∉ cs))

namespace IsPlain

variable {cs ds : List Char}

theorem spells (h : IsPlain cs) : Spells cs cs := by
  obtain ⟨-, h⟩ := h
  induction cs with
  | nil => exact .nil
  | cons c cs ih =>
    rw [List.mem_cons, not_or] at h
    exact .plain (Ne.symm h.1) (ih h.2)

theorem append (h : IsPlain cs) (h' : IsPlain ds) : IsPlain (cs ++ ds) := by
  simp only [IsPlain, List.mem_append, not_or] at h h' ⊢
  exact ⟨⟨h.1, h'.1⟩, h.2, h'.2⟩

end IsPlain

theorem Stage.run_plain_close {cs : List Char} {e : OpenElement} (h : IsPlain cs)
    (hname : e.name = "a") (line : Nat) :
    run (.content e []) ⟨line, cs ++ "</a>".toList⟩ =
      .ok (e.addText (String.ofList cs)).close := by
  have hclose : SpellsEndTag "a>".toList (e.addText (String.ofList cs)).name := by
    rw [OpenElement.addText, hname]
    exact @SpellsEndTag.mk ['a'] [] (by decide) (by simp [IsSpaces])
  rw [run_text h.1 h.spells rfl]
  change run _ ⟨_, '<' :: '/' :: ("a>".toList ++ [])⟩ = _
  rw [run_endTag hclose]
  exact run_epilog_spaces (by simp [IsSpaces]) _ _

theorem readDocument_content (inner : List Char) :
    readDocument ("<a>" ++ String.ofList inner ++ "</a>") =
      Stage.run (.content { name := "a", line := 1 } []) ⟨1, inner ++ "</a>".toList⟩ := by
  have htext : dropByteOrderMark ("<a>" ++ String.ofList inner ++ "</a>").toList =
      '<' :: 'a' :: '>' :: (inner ++ "</a>".toList) := by
    simp [dropByteOrderMark]
  have hname : (Stage.prolog true).step ⟨1, '<' :: 'a' :: '>' :: (inner ++ "</a>".toList)⟩ =
      .ok (.next (.startTag { name := "a", line := 1 } [])
        ⟨1, '>' :: (inner ++ "</a>".toList)⟩) := rfl
  have htag : (Stage.startTag { name := "a", line := 1 } []).step
      ⟨1, '>' :: (inner ++ "</a>".toList)⟩ =
        .ok (.next (.content { name := "a", line := 1 } []) ⟨1, inner ++ "</a>".toList⟩) := rfl
  rw [readDocument, htext, Stage.run_of_step hname, Stage.run_of_step htag]

section

variable {k : Comment} {x y : String}

theorem readDocument_text_comment_text (hx : IsPlain x.toList) :
    readDocument ("<a>" ++ x ++ k.text ++ y ++ "</a>") =
      Stage.run (.content { name := "a", line := 1, text := x } [])
        ⟨1 + x.toList.count '\n', k.text.toList ++ (y.toList ++ "</a>".toList)⟩ := by
  have hhead : (k.text.toList ++ (y.toList ++ "</a>".toList)).head? = some '<' := by
    rw [Comment.toList_text]
    rfl
  have htext : "<a>" ++ x ++ k.text ++ y ++ "</a>" =
      "<a>" ++ String.ofList (x.toList ++ (k.text.toList ++ y.toList)) ++ "</a>" := by
    simp [String.append_assoc]
  rw [htext, readDocument_content, List.append_assoc, List.append_assoc,
    Stage.run_text hx.1 hx.spells hhead]
  simp [OpenElement.addText]

theorem readDocument_comment (h : k.leftOver? = none) (hx : IsPlain x.toList)
    (hy : IsPlain y.toList) :
    readDocument ("<a>" ++ x ++ k.text ++ y ++ "</a>") = .ok ⟨"a", [], x ++ y, [], 1⟩ := by
  rw [readDocument_text_comment_text hx, Stage.run_comment (by rintro _ _ ⟨⟩) h,
    Stage.run_plain_close hy rfl]
  simp [OpenElement.addText, OpenElement.close]

theorem readDocument_leftOver {w : List Char} (h : k.leftOver? = some w) (hw : IsPlain w)
    (hx : IsPlain x.toList) (hy : IsPlain y.toList) :
    readDocument ("<a>" ++ x ++ k.text ++ y ++ "</a>") =
      .ok ⟨"a", [], x ++ String.ofList w ++ "-->" ++ y, [], 1⟩ := by
  have hplain : IsPlain (w ++ ("-->".toList ++ y.toList)) := hw.append (.append (by decide) hy)
  have htext : x ++ String.ofList (w ++ ("-->".toList ++ y.toList)) =
      x ++ String.ofList w ++ "-->" ++ y := by
    rw [String.ofList_append, String.ofList_append, String.ofList_toList, String.ofList_toList,
      String.append_assoc, String.append_assoc]
  rw [readDocument_text_comment_text hx, Stage.run_leftOver (by rintro _ _ ⟨⟩) h,
    ← List.append_assoc, ← List.append_assoc, List.append_assoc w,
    Stage.run_plain_close hplain rfl, ← htext]
  rfl

end

/-! What stands in front of the root element. -/

/-- Blanks, instructions and comments, as the reader takes them: an instruction or a comment goes on
to the first place that looks like its end. -/
inductive Misc : List Char → Prop where
  | nil : Misc []
  | space {c rest} (hc : isSpace c = true) : Misc rest → Misc (c :: rest)
  | instruction {data rest} (hopen : "<?".toList <+: data ++ "?>".toList)
      (hdata : ¬ "?>".toList <:+: data) : Misc rest → Misc (data ++ ("?>".toList ++ rest))
  | comment {data rest} (hopen : "<!--".toList <+: data ++ "-->".toList)
      (hdata : ¬ "-->".toList <:+: data) : Misc rest → Misc (data ++ ("-->".toList ++ rest))

/-- An instruction or a comment, up to the first place that looks like its end. -/
inductive Ignored : List Char → Prop where
  | instruction {data} (hopen : "<?".toList <+: data ++ "?>".toList)
      (hdata : ¬ "?>".toList <:+: data) : Ignored (data ++ "?>".toList)
  | comment {data} (hopen : "<!--".toList <+: data ++ "-->".toList)
      (hdata : ¬ "-->".toList <:+: data) : Ignored (data ++ "-->".toList)

/-- The front of a document without a document type, up to its root element. -/
def IsProlog (front : List Char) : Prop :=
  ∃ mark misc, (mark = [] ∨ mark = [Char.ofNat 0xfeff]) ∧ Misc misc ∧ front = mark ++ misc

def HasDoctype (text : String) : Prop :=
  ∃ front rest, IsProlog front ∧ text.toList = front ++ ("<!DOCTYPE".toList ++ rest)

/-- The root element of the text begins between the two parts. -/
structure RootAt (text front back : String) : Prop where
  parts : text = front ++ back
  front : IsProlog front.toList
  back : ∃ c rest, back.toList = '<' :: c :: rest ∧ isNameStart c = true

theorem Misc.spaces {blanks rest : List Char} (h : IsSpaces blanks) (hrest : Misc rest) :
    Misc (blanks ++ rest) := by
  induction blanks with
  | nil => exact hrest
  | cons b blanks ih =>
    exact .space (h b List.mem_cons_self) (ih fun c hc => h c (List.mem_cons_of_mem b hc))

theorem Ignored.misc {piece rest : List Char} (h : Ignored piece) (hrest : Misc rest) :
    Misc (piece ++ rest) := by
  cases h with
  | instruction hopen hdata =>
    rw [List.append_assoc]
    exact .instruction hopen hdata hrest
  | comment hopen hdata =>
    rw [List.append_assoc]
    exact .comment hopen hdata hrest

theorem Misc.head_cases {misc rest : List Char} {c : Char} (h : Misc misc)
    (hc : (misc ++ '<' :: rest).head? = some c) : c = '<' ∨ isSpace c = true := by
  have hopened {opener data after : List Char} (hopen : '<' :: opener <+: data)
      (hhead : (data ++ after).head? = some c) : c = '<' := by
    obtain ⟨tail, rfl⟩ := hopen
    exact (Option.some.inj hhead).symm
  cases h with
  | nil => exact .inl (Option.some.inj hc).symm
  | space hspace => exact .inr (Option.some.inj hc ▸ hspace)
  | instruction hopen =>
    rw [← List.append_assoc, List.append_assoc] at hc
    exact .inl (hopened hopen hc)
  | comment hopen =>
    rw [← List.append_assoc, List.append_assoc] at hc
    exact .inl (hopened hopen hc)

theorem exists_byteOrderMark (cs : List Char) :
    ∃ mark, (mark = [] ∨ mark = [Char.ofNat 0xfeff]) ∧ cs = mark ++ dropByteOrderMark cs := by
  cases cs with
  | nil => exact ⟨[], .inl rfl, rfl⟩
  | cons c cs =>
    by_cases hc : c.toNat = 0xfeff
    · refine ⟨[c], .inr ?_, by rw [dropByteOrderMark, if_pos hc]; rfl⟩
      rw [← hc, Char.ofNat_toNat]
    · exact ⟨[], .inl rfl, by rw [dropByteOrderMark, if_neg hc]; rfl⟩

namespace Stage

variable {stage : Stage} {c d : Cursor} {doctypeAllowed : Bool}

theorem run_space {b : Char} (hb : isSpace b = true) (line : Nat) (rest : List Char) :
    run (.prolog doctypeAllowed) ⟨line, b :: rest⟩ =
      run (.prolog doctypeAllowed) ⟨line + [b].count '\n', rest⟩ := by
  have hspaces : (⟨line, b :: rest⟩ : Cursor).skipSpaces =
      (⟨line + [b].count '\n', rest⟩ : Cursor).skipSpaces := by
    simp [Cursor.skipSpaces, Cursor.skip, hb, List.count_cons, Nat.add_comm, Nat.add_left_comm]
  have hstep (d : Cursor) (hd : d.rest.head?.any isSpace = true) :
      run (.prolog doctypeAllowed) d = run (.prolog doctypeAllowed) d.skipSpaces := by
    apply run_of_step
    rw [step, stepProlog, if_pos hd]
  rw [hstep ⟨line, b :: rest⟩ hb, hspaces]
  by_cases hrest : rest.head?.any isSpace = true
  · rw [hstep ⟨_, rest⟩ hrest]
  · have hnil : rest.takeWhile isSpace = [] := by
      cases rest with
      | nil => rfl
      | cons c rest => exact List.takeWhile_cons_of_neg hrest
    simp [Cursor.skipSpaces, Cursor.skip, hnil]

theorem run_misc {misc : List Char} (h : Misc misc) (line : Nat) (rest : List Char) :
    run (.prolog doctypeAllowed) ⟨line, misc ++ rest⟩ =
      run (.prolog doctypeAllowed) ⟨line + misc.count '\n', rest⟩ := by
  induction h generalizing line with
  | nil => rfl
  | space hc _ ih =>
    rw [List.cons_append, run_space hc, ih]
    simp [List.count_cons, Nat.add_comm, Nat.add_left_comm]
  | instruction hopen hdata _ ih =>
    rw [List.append_assoc, List.append_assoc, run_ignored (fun _ => step_of_instruction)
      (show '>' ∉ ['?'] by decide) rfl hopen hdata, ih]
    simp [List.count_append, Nat.add_assoc]
  | comment hopen hdata _ ih =>
    rw [List.append_assoc, List.append_assoc, run_comment_data _ (by rintro _ _ ⟨⟩) hopen hdata, ih]
    simp [List.count_append, Nat.add_assoc]

theorem run_no_root {x : Char} (hspace : isSpace x = false) (hangle : '<' ≠ x) (line : Nat)
    (rest : List Char) :
    run (.prolog doctypeAllowed) ⟨line, x :: rest⟩ = .error (.expected line .rootElement) := by
  have hmarkup (token : String) {ys : List Char} (ht : token.toList = '<' :: ys) :
      ¬ (⟨line, x :: rest⟩ : Cursor).startsWith token = true := by
    rw [Cursor.startsWith, ht, isPrefixOf_eq_false hangle]
    exact Bool.false_ne_true
  have hhead : ¬ (⟨line, x :: rest⟩ : Cursor).rest.head?.any isSpace = true := by simp [hspace]
  rw [run_eq, step, stepProlog, if_neg hhead, if_neg (hmarkup "<?" rfl),
    if_neg (hmarkup "<!--" rfl), if_neg fun hdoctype => hmarkup "<!DOCTYPE" rfl hdoctype.2,
    if_neg (hmarkup "<" rfl)]
  rfl

theorem run_text_no_root {w : List Char} {x : Char} (hw : '<' ∉ w) (hspace : isSpace x = false)
    (hangle : '<' ≠ x) (line : Nat) (rest : List Char) :
    ∃ line', run (.prolog doctypeAllowed) ⟨line, w ++ x :: rest⟩ =
      .error (.expected line' .rootElement) := by
  have hblanks : Misc (w.takeWhile isSpace) := by
    rw [← List.append_nil (w.takeWhile isSpace)]
    exact .spaces (List.all_eq_true.mp List.all_takeWhile) .nil
  rw [← List.takeWhile_append_dropWhile (p := isSpace) (l := w), List.append_assoc,
    run_misc hblanks]
  cases hrest : w.dropWhile isSpace with
  | nil => exact ⟨_, run_no_root hspace hangle _ _⟩
  | cons y more =>
    have hspace' : isSpace y = false := by
      have hhead := List.head?_dropWhile_not isSpace w
      rw [hrest] at hhead
      simpa using hhead
    have hangle' : '<' ≠ y := by
      rintro rfl
      exact hw ((List.dropWhile_suffix isSpace).mem (hrest ▸ List.mem_cons_self))
    exact ⟨_, run_no_root hspace' hangle' _ _⟩

theorem ignorePast_ignored {opener token : String} {stage' : Stage}
    (hignored : ∀ {data}, opener.toList <+: data ++ token.toList → ¬ token.toList <:+: data →
      Ignored (data ++ token.toList))
    (hopener : ¬ token.toList <:+: opener.toList) (hstarts : c.startsWith opener = true)
    (h : ignorePast stage token c = .ok (.next stage' d)) :
    stage' = stage ∧ ∃ piece, Ignored piece ∧ c.Passes piece d := by
  obtain ⟨hstage, data, hpasses, hopen, hdata⟩ := ignorePast_passes hopener hstarts h
  exact ⟨hstage, _, hignored hopen hdata, hpasses⟩

/-- In front of the root element the reader takes what may stand there, or a document type, or the
root element. -/
theorem stepProlog_cases (h : stepProlog doctypeAllowed c = .ok (.next stage d)) :
    (stage = .prolog doctypeAllowed ∧
        ∃ piece, c.Passes piece d ∧ ∀ misc, Misc misc → Misc (piece ++ misc)) ∨
      (doctypeAllowed = true ∧ stage = .prolog false ∧ c.startsWith "<!DOCTYPE" = true ∧
        c.skipDoctype = .ok d) ∨
      ∃ name c₁, IsName name ∧ c.Passes ['<'] c₁ ∧ c₁.Passes name d ∧
        stage = .startTag { name := String.ofList name, line := c₁.line } [] := by
  rw [stepProlog] at h
  by_cases hspace : c.rest.head?.any isSpace = true
  · rw [if_pos hspace] at h
    cases h
    obtain ⟨blanks, hblanks, -, hpasses⟩ := c.passes_skipSpaces
    exact .inl ⟨rfl, blanks, hpasses, fun misc => .spaces hblanks⟩
  rw [if_neg hspace] at h
  by_cases hpi : c.startsWith "<?" = true
  · rw [if_pos hpi] at h
    obtain ⟨rfl, piece, hpiece, hpasses⟩ := ignorePast_ignored .instruction (by decide) hpi h
    exact .inl ⟨rfl, piece, hpasses, fun misc => hpiece.misc⟩
  rw [if_neg hpi] at h
  by_cases hcomment : c.startsWith "<!--" = true
  · rw [if_pos hcomment] at h
    obtain ⟨rfl, piece, hpiece, hpasses⟩ := ignorePast_ignored .comment (by decide) hcomment h
    exact .inl ⟨rfl, piece, hpasses, fun misc => hpiece.misc⟩
  rw [if_neg hcomment] at h
  by_cases hdoctype : doctypeAllowed = true ∧ c.startsWith "<!DOCTYPE" = true
  · rw [if_pos hdoctype] at h
    obtain ⟨d₁, hskip, h⟩ := bind_eq_ok.mp h
    cases h
    exact .inr (.inl ⟨hdoctype.1, rfl, hdoctype.2, hskip⟩)
  rw [if_neg hdoctype] at h
  by_cases hangle : c.startsWith "<" = true
  · rw [if_pos hangle] at h
    obtain ⟨-, hroot⟩ := openElement_passes hangle h
    exact .inr (.inr hroot)
  · rw [if_neg hangle] at h
    cases h

theorem exists_root {root : Element} (h : run (.prolog doctypeAllowed) c = .ok root)
    (hno : ∀ misc rest, Misc misc → c.rest ≠ misc ++ ("<!DOCTYPE".toList ++ rest)) :
    ∃ misc x rest, Misc misc ∧ c.rest = misc ++ '<' :: x :: rest ∧ isNameStart x = true := by
  generalize hlength : c.rest.length = length
  induction length using Nat.strongRecOn generalizing c with
  | ind length ih =>
    rw [run_eq] at h
    split at h
    · cases h
    · rename_i hdone
      exact absurd hdone stepProlog_ne_done
    · rename_i stage d hstep
      rcases stepProlog_cases hstep with ⟨rfl, piece, ⟨hc, -⟩, hpiece⟩ | ⟨-, -, hdoctype, -⟩ |
        ⟨name, c₁, hname, ⟨hangle, -⟩, ⟨hrest, -⟩, -⟩
      · have hno' : ∀ misc rest, Misc misc → d.rest ≠ misc ++ ("<!DOCTYPE".toList ++ rest) := by
          intro misc rest hmisc hd
          exact hno _ rest (hpiece misc hmisc) (by rw [hc, hd, List.append_assoc])
        obtain ⟨misc, x, rest, hmisc, hd, hx⟩ := ih _ (hlength ▸ length_step hstep) h hno' rfl
        exact ⟨_, x, rest, hpiece misc hmisc, by rw [hc, hd, List.append_assoc], hx⟩
      · obtain ⟨rest, hc⟩ := Cursor.startsWith_iff.mp hdoctype
        exact absurd hc (hno [] rest .nil)
      · obtain ⟨x, rest, rfl, hx⟩ := hname.exists_cons
        exact ⟨[], x, rest ++ d.rest, .nil, by rw [hangle, hrest]; rfl, hx⟩

end Stage

/-! Comments in front of the root element. -/

theorem readDocument_prolog {text : String} {front rest : List Char} (hfront : IsProlog front)
    (htext : text.toList = front ++ '<' :: rest) :
    readDocument text = Stage.run (.prolog true) ⟨1 + front.count '\n', '<' :: rest⟩ := by
  obtain ⟨mark, misc, hmark, hmisc, rfl⟩ := hfront
  have hhead : ∀ c, (misc ++ '<' :: rest).head? = some c → c.toNat ≠ 0xfeff := by
    intro c hc hbom
    rw [← Char.ofNat_toNat c, hbom] at hc
    rcases hmisc.head_cases hc with hangle | hspace
    · exact absurd hangle (by decide)
    · exact absurd hspace (by decide)
  have hline : (mark ++ misc).count '\n' = misc.count '\n' := by
    rw [List.count_append]
    rcases hmark with rfl | rfl
    · exact Nat.zero_add _
    · exact Nat.zero_add _
  rw [readDocument, htext, List.append_assoc, dropByteOrderMark_append_mark hmark hhead, hline]
  exact Stage.run_misc hmisc 1 _

theorem exists_rootAt {text : String} {root : Element} (h : readDocument text = .ok root)
    (hno : ¬ HasDoctype text) : ∃ front back, RootAt text front back := by
  obtain ⟨mark, hmark, htext⟩ := exists_byteOrderMark text.toList
  have hno' : ∀ misc rest, Misc misc →
      dropByteOrderMark text.toList ≠ misc ++ ("<!DOCTYPE".toList ++ rest) := by
    intro misc rest hmisc heq
    refine hno ⟨mark ++ misc, rest, ⟨mark, misc, hmark, hmisc, rfl⟩, ?_⟩
    rw [htext, heq, List.append_assoc]
  obtain ⟨misc, x, rest, hmisc, hrest, hx⟩ := Stage.exists_root h hno'
  refine ⟨String.ofList (mark ++ misc), String.ofList ('<' :: x :: rest), ?_, ?_, ?_⟩
  · rw [← String.ofList_append, List.append_assoc, ← hrest, ← htext, String.ofList_toList]
  · rw [String.toList_ofList]
    exact ⟨mark, misc, hmark, hmisc, rfl⟩
  · exact ⟨x, rest, String.toList_ofList, hx⟩

variable {k : Comment} {text front back : String}

theorem readDocument_comment_in_front (hroot : RootAt text front back) :
    readDocument (front ++ k.text ++ back) =
      Stage.run (.prolog true) ⟨1 + front.toList.count '\n', k.text.toList ++ back.toList⟩ := by
  have htext : (front ++ k.text ++ back).toList =
      front.toList ++ ("<!--".toList ++ (k.body.toList ++ ("-->".toList ++ back.toList))) := by
    rw [String.toList_append, String.toList_append, List.append_assoc, Comment.toList_text]
  rw [Comment.toList_text]
  exact readDocument_prolog hroot.front htext

theorem readDocument_comment_before_root {root : Element} (h : k.leftOver? = none)
    (hroot : RootAt text front back) (hread : readDocument text = .ok root) :
    readDocument (front ++ k.text ++ back) =
      .ok (root.shiftLines (k.body.toList.count '\n')) := by
  have hback : readDocument text =
      Stage.run (.prolog true) ⟨1 + front.toList.count '\n', back.toList⟩ := by
    obtain ⟨x, rest, hrest, -⟩ := hroot.back
    rw [hrest]
    exact readDocument_prolog hroot.front (by rw [hroot.parts, String.toList_append, hrest])
  rw [hback] at hread
  rw [readDocument_comment_in_front hroot, Stage.run_comment (by rintro _ _ ⟨⟩) h]
  exact Stage.run_shiftLines (k.body.toList.count '\n') hread

theorem readDocument_leftOver_before_root {w : List Char} (h : k.leftOver? = some w)
    (hw : IsPlain w) (hroot : RootAt text front back) :
    ∃ line, readDocument (front ++ k.text ++ back) = .error (.expected line .rootElement) := by
  rw [readDocument_comment_in_front hroot, Stage.run_leftOver (by rintro _ _ ⟨⟩) h]
  exact Stage.run_text_no_root hw.1 (by decide) (by decide) _ _

/-- A comment is passed over if its body does not begin with what the dashes in front of it make an
end of. Between texts it then leaves the two texts, and in front of the root element it only moves
the lines. Otherwise what is left over of it is text, which may not stand in front of the root
element. -/
theorem comments_passed_over (k : Comment) :
    (k.leftOver? = none →
      (∀ x y : String, IsPlain x.toList → IsPlain y.toList →
        readDocument ("<a>" ++ x ++ k.text ++ y ++ "</a>") = .ok ⟨"a", [], x ++ y, [], 1⟩) ∧
      ∀ text root, readDocument text = .ok root → ¬ HasDoctype text →
        (∃ front back, RootAt text front back) ∧
        ∀ front back, RootAt text front back →
          readDocument (front ++ k.text ++ back) =
            .ok (root.shiftLines (k.body.toList.count '\n'))) ∧
    ∀ w, k.leftOver? = some w → IsPlain w →
      (∀ x y : String, IsPlain x.toList → IsPlain y.toList →
        readDocument ("<a>" ++ x ++ k.text ++ y ++ "</a>") =
          .ok ⟨"a", [], x ++ String.ofList w ++ "-->" ++ y, [], 1⟩) ∧
      ∀ text front back, RootAt text front back →
        ∃ line, readDocument (front ++ k.text ++ back) = .error (.expected line .rootElement) := by
  refine ⟨fun h => ⟨fun x y => readDocument_comment h, ?_⟩, fun w h hw =>
    ⟨fun x y => readDocument_leftOver h hw, fun text front back =>
      readDocument_leftOver_before_root h hw⟩⟩
  intro text root hread hno
  refine ⟨exists_rootAt hread hno, fun front back hroot => ?_⟩
  exact readDocument_comment_before_root h hroot hread

/-- A body may begin with a closing angle. -/
theorem comment_ended_by_its_body :
    ∃ k : Comment, k.text = "<!-->b-->" ∧ IsPlain "x".toList ∧ IsPlain "y".toList ∧
      readDocument "<a>x<!-->b-->y</a>" = .ok ⟨"a", [], "xb-->y", [], 1⟩ ∧
      readDocument "<a>x<!-->b-->y</a>" ≠ .ok ⟨"a", [], "xy", [], 1⟩ ∧
      RootAt "<a/>" "" "<a/>" ∧ readDocument "<a/>" = .ok ⟨"a", [], "", [], 1⟩ ∧
      readDocument "<!-->b--><a/>" = .error (.expected 1 .rootElement) := by
  have hread : readDocument "<a>x<!-->b-->y</a>" = .ok ⟨"a", [], "xb-->y", [], 1⟩ := rfl
  refine ⟨⟨">b", by decide, by decide⟩, rfl, by decide, by decide, hread, ?_, ?_, rfl, rfl⟩
  · intro hother
    have htext := congrArg Element.text (Except.ok.inj (hread.symm.trans hother))
    exact absurd htext (by decide)
  · exact ⟨rfl, ⟨[], [], .inl rfl, .nil, rfl⟩, 'a', "/>".toList, rfl, by decide⟩

end Markup

end ThreeAddress
