import ThreeAddress.Markup.Reader

/-! The same text further down. The reader counts lines and looks at nothing else of them, so a text
that is read is read from any other line on as well, with the lines of its elements moved. -/

namespace ThreeAddress

namespace Markup

namespace Element

mutual

/-- The tree, `n` lines further down. -/
def shiftLines (n : Nat) : Element → Element
  | ⟨name, attributes, text, children, line⟩ =>
    ⟨name, attributes, text, shiftLinesAll n children, line + n⟩

def shiftLinesAll (n : Nat) : List Element → List Element
  | [] => []
  | e :: rest => e.shiftLines n :: shiftLinesAll n rest

end

theorem shiftLinesAll_eq_map (n : Nat) (es : List Element) :
    shiftLinesAll n es = es.map (shiftLines n) := by
  induction es with
  | nil => rfl
  | cons e es ih => rw [shiftLinesAll, ih, List.map_cons]

end Element

namespace Cursor

def shiftLines (n : Nat) (c : Cursor) : Cursor := ⟨c.line + n, c.rest⟩

variable {n : Nat} {c d : Cursor}

@[simp] theorem rest_shiftLines : (c.shiftLines n).rest = c.rest := rfl

@[simp] theorem atEnd_shiftLines : (c.shiftLines n).atEnd = c.atEnd := by
  rw [atEnd, atEnd, rest_shiftLines]

@[simp] theorem startsWith_shiftLines (token : String) :
    (c.shiftLines n).startsWith token = c.startsWith token := by
  rw [startsWith, startsWith, rest_shiftLines]

@[simp] theorem skip_shiftLines (k : Nat) : (c.shiftLines n).skip k = (c.skip k).shiftLines n := by
  simp [skip, shiftLines, Nat.add_right_comm]

@[simp] theorem skipSpaces_shiftLines : (c.shiftLines n).skipSpaces = c.skipSpaces.shiftLines n :=
  skip_shiftLines _

theorem skipPast_shiftLines {token : String} {data : List Char}
    (h : c.skipPast token = .ok (data, d)) :
    (c.shiftLines n).skipPast token = .ok (data, d.shiftLines n) := by
  rw [skipPast] at h ⊢
  rw [rest_shiftLines]
  split at h
  · cases h
    rw [skip_shiftLines]
  · cases h

theorem skipDoctype_shiftLines (h : c.skipDoctype = .ok d) :
    (c.shiftLines n).skipDoctype = .ok (d.shiftLines n) := by
  rw [skipDoctype] at h ⊢
  rw [rest_shiftLines]
  split at h
  · cases h
    rw [skip_shiftLines]
  · cases h

theorem expect_shiftLines {token : String} {wanted : Wanted} (h : c.expect token wanted = .ok d) :
    (c.shiftLines n).expect token wanted = .ok (d.shiftLines n) := by
  rw [expect] at h ⊢
  rw [startsWith_shiftLines, skip_shiftLines]
  by_cases htoken : c.startsWith token = true
  · rw [if_pos htoken] at h ⊢
    cases h
    rfl
  · rw [if_neg htoken] at h
    cases h

theorem name_shiftLines {name : String} (h : c.name = .ok (name, d)) :
    (c.shiftLines n).name = .ok (name, d.shiftLines n) := by
  rw [Cursor.name] at h ⊢
  simp only [rest_shiftLines, skip_shiftLines]
  by_cases hstart : c.rest.head?.any isNameStart = true
  · rw [if_pos hstart] at h ⊢
    cases h
    rfl
  · rw [if_neg hstart] at h
    cases h

theorem decode_on_line {line : Nat} {raw : List Char} {text : String} (line' : Nat)
    (h : decode line raw = .ok text) : decode line' raw = .ok text := by
  rw [decode] at h ⊢
  split at h
  · exact h
  · cases h

theorem valueUpTo_shiftLines {quote : Char} {value : String}
    (h : c.valueUpTo quote = .ok (value, d)) :
    (c.shiftLines n).valueUpTo quote = .ok (value, d.shiftLines n) := by
  rw [valueUpTo] at h ⊢
  rw [rest_shiftLines]
  split at h
  · cases h
  · rename_i raw rest hraw
    rw [skip_shiftLines]
    by_cases hangle : raw.contains '<' = true
    · rw [if_pos hangle] at h
      cases h
    · rw [if_neg hangle] at h ⊢
      obtain ⟨decoded, hdecode, hpair⟩ := map_eq_ok.mp h
      cases hpair
      rw [decode_on_line _ hdecode]
      rfl

theorem quotedValue_shiftLines {value : String} (h : c.quotedValue = .ok (value, d)) :
    (c.shiftLines n).quotedValue = .ok (value, d.shiftLines n) := by
  rw [quotedValue.eq_def] at h ⊢
  rw [rest_shiftLines]
  split at h
  · rename_i quote rest hrest
    rw [skip_shiftLines]
    by_cases hquote : quote = '"' ∨ quote = Char.ofNat 39
    · rw [if_pos hquote] at h ⊢
      exact valueUpTo_shiftLines h
    · rw [if_neg hquote] at h
      cases h
  · cases h

theorem namedValue_shiftLines {pair : String × String} (h : c.namedValue = .ok (pair, d)) :
    (c.shiftLines n).namedValue = .ok (pair, d.shiftLines n) := by
  obtain ⟨⟨key, c₁⟩, h₁, h⟩ := bind_eq_ok.mp h
  obtain ⟨c₂, h₂, h⟩ := bind_eq_ok.mp h
  obtain ⟨⟨value, c₃⟩, h₃, h⟩ := bind_eq_ok.mp h
  cases h
  rw [namedValue, name_shiftLines h₁]
  dsimp only [bind, Except.bind]
  rw [skipSpaces_shiftLines, expect_shiftLines h₂]
  dsimp only
  rw [skipSpaces_shiftLines, quotedValue_shiftLines h₃]
  rfl

end Cursor

namespace OpenElement

def shiftLines (n : Nat) (e : OpenElement) : OpenElement :=
  { e with line := e.line + n, children := e.children.map (·.shiftLines n) }

variable (n : Nat) (e : OpenElement)

theorem new_shiftLines (name : String) (line : Nat) :
    ({ name := name, line := line } : OpenElement).shiftLines n =
      { name := name, line := line + n } := by
  simp [shiftLines]

theorem close_shiftLines : (e.shiftLines n).close = e.close.shiftLines n := by
  simp [close, shiftLines, Element.shiftLines, Element.shiftLinesAll_eq_map]

theorem addChild_shiftLines (child : Element) :
    (e.addChild child).shiftLines n = (e.shiftLines n).addChild (child.shiftLines n) := by
  simp [addChild, shiftLines]

end OpenElement

def Stage.shiftLines (n : Nat) : Stage → Stage
  | .prolog doctypeAllowed => .prolog doctypeAllowed
  | .startTag e outer => .startTag (e.shiftLines n) (outer.map (·.shiftLines n))
  | .content e outer => .content (e.shiftLines n) (outer.map (·.shiftLines n))
  | .epilog root => .epilog (root.shiftLines n)

def Progress.shiftLines (n : Nat) : Progress → Progress
  | .next stage c => .next (stage.shiftLines n) (c.shiftLines n)
  | .done root => .done (root.shiftLines n)

namespace Stage

variable {n : Nat} {c : Cursor} {p : Progress} {e : OpenElement} {outer : List OpenElement}

theorem afterElement_shiftLines (e : OpenElement) (outer : List OpenElement) :
    afterElement (e.shiftLines n) (outer.map (·.shiftLines n)) =
      (afterElement e outer).shiftLines n := by
  cases outer with
  | nil => rw [List.map_nil, afterElement, OpenElement.close_shiftLines]; rfl
  | cons parent outer =>
    rw [List.map_cons, afterElement, OpenElement.close_shiftLines,
      ← OpenElement.addChild_shiftLines]
    rfl

theorem ignorePast_shiftLines {stage : Stage} {token : String}
    (h : ignorePast stage token c = .ok p) :
    ignorePast (stage.shiftLines n) token (c.shiftLines n) = .ok (p.shiftLines n) := by
  obtain ⟨⟨data, d⟩, hpast, h⟩ := bind_eq_ok.mp h
  cases h
  rw [ignorePast, Cursor.skipPast_shiftLines hpast]
  rfl

theorem openElement_shiftLines (h : openElement outer c = .ok p) :
    openElement (outer.map (·.shiftLines n)) (c.shiftLines n) = .ok (p.shiftLines n) := by
  rw [openElement] at h ⊢
  rw [List.length_map]
  by_cases hdepth : outer.length = maxDepth
  · rw [if_pos hdepth] at h
    cases h
  · rw [if_neg hdepth] at h ⊢
    obtain ⟨⟨name, d⟩, hname, h⟩ := bind_eq_ok.mp h
    cases h
    rw [Cursor.name_shiftLines hname, Progress.shiftLines, shiftLines, OpenElement.new_shiftLines]
    rfl

theorem stepProlog_shiftLines {doctypeAllowed : Bool} (h : stepProlog doctypeAllowed c = .ok p) :
    stepProlog doctypeAllowed (c.shiftLines n) = .ok (p.shiftLines n) := by
  rw [stepProlog] at h ⊢
  simp only [Cursor.rest_shiftLines, Cursor.startsWith_shiftLines, Cursor.skipSpaces_shiftLines,
    Cursor.skip_shiftLines]
  by_cases hspace : c.rest.head?.any isSpace = true
  · rw [if_pos hspace] at h ⊢
    cases h
    rfl
  rw [if_neg hspace] at h ⊢
  by_cases hpi : c.startsWith "<?" = true
  · rw [if_pos hpi] at h ⊢
    exact ignorePast_shiftLines h
  rw [if_neg hpi] at h ⊢
  by_cases hcomment : c.startsWith "<!--" = true
  · rw [if_pos hcomment] at h ⊢
    exact ignorePast_shiftLines h
  rw [if_neg hcomment] at h ⊢
  by_cases hdoctype : doctypeAllowed = true ∧ c.startsWith "<!DOCTYPE" = true
  · rw [if_pos hdoctype] at h ⊢
    obtain ⟨d, hskip, h⟩ := bind_eq_ok.mp h
    cases h
    rw [Cursor.skipDoctype_shiftLines hskip]
    rfl
  rw [if_neg hdoctype] at h ⊢
  by_cases hangle : c.startsWith "<" = true
  · rw [if_pos hangle] at h ⊢
    exact openElement_shiftLines h
  · rw [if_neg hangle] at h
    cases h

theorem stepStartTag_shiftLines (h : stepStartTag e outer c = .ok p) :
    stepStartTag (e.shiftLines n) (outer.map (·.shiftLines n)) (c.shiftLines n) =
      .ok (p.shiftLines n) := by
  rw [stepStartTag] at h ⊢
  simp only [Cursor.rest_shiftLines, Cursor.startsWith_shiftLines, Cursor.skipSpaces_shiftLines,
    Cursor.skip_shiftLines, afterElement_shiftLines] at h ⊢
  by_cases hvoid : c.skipSpaces.startsWith "/>" = true
  · rw [if_pos hvoid] at h ⊢
    cases h
    rfl
  rw [if_neg hvoid] at h ⊢
  by_cases hend : c.skipSpaces.startsWith ">" = true
  · rw [if_pos hend] at h ⊢
    cases h
    rfl
  rw [if_neg hend] at h ⊢
  by_cases hspace : c.rest.head?.any isSpace = true
  · rw [if_pos hspace] at h ⊢
    obtain ⟨⟨⟨key, value⟩, d⟩, hvalue, h⟩ := bind_eq_ok.mp h
    rw [Cursor.namedValue_shiftLines hvalue]
    dsimp only [bind, Except.bind] at h ⊢
    split at h
    · cases h
    · rename_i hnew
      cases h
      exact if_neg hnew
  · rw [if_neg hspace] at h
    cases h

theorem endTag_shiftLines (h : endTag e outer c = .ok p) :
    endTag (e.shiftLines n) (outer.map (·.shiftLines n)) (c.shiftLines n) =
      .ok (p.shiftLines n) := by
  obtain ⟨⟨name, d⟩, hname, h⟩ := bind_eq_ok.mp h
  obtain ⟨d₁, hend, h⟩ := bind_eq_ok.mp h
  rw [endTag, Cursor.name_shiftLines hname]
  dsimp only [bind, Except.bind] at h ⊢
  rw [Cursor.skipSpaces_shiftLines, Cursor.expect_shiftLines hend, afterElement_shiftLines]
  split at h
  · rename_i hmatch
    cases h
    exact if_pos hmatch
  · cases h

theorem stepContent_shiftLines (h : stepContent e outer c = .ok p) :
    stepContent (e.shiftLines n) (outer.map (·.shiftLines n)) (c.shiftLines n) =
      .ok (p.shiftLines n) := by
  rw [stepContent] at h ⊢
  simp only [Cursor.rest_shiftLines, Cursor.atEnd_shiftLines, Cursor.startsWith_shiftLines,
    Cursor.skip_shiftLines] at h ⊢
  by_cases hatEnd : c.atEnd = true
  · rw [if_pos hatEnd] at h
    cases h
  rw [if_neg hatEnd] at h ⊢
  by_cases hclose : c.startsWith "</" = true
  · rw [if_pos hclose] at h ⊢
    exact endTag_shiftLines h
  rw [if_neg hclose] at h ⊢
  by_cases hcomment : c.startsWith "<!--" = true
  · rw [if_pos hcomment] at h ⊢
    exact ignorePast_shiftLines h
  rw [if_neg hcomment] at h ⊢
  by_cases hsection : c.startsWith "<![CDATA[" = true
  · rw [if_pos hsection] at h ⊢
    obtain ⟨⟨data, d⟩, hdata, h⟩ := bind_eq_ok.mp h
    cases h
    rw [Cursor.skipPast_shiftLines hdata]
    rfl
  rw [if_neg hsection] at h ⊢
  by_cases hpi : c.startsWith "<?" = true
  · rw [if_pos hpi] at h ⊢
    exact ignorePast_shiftLines h
  rw [if_neg hpi] at h ⊢
  by_cases hangle : c.startsWith "<" = true
  · rw [if_pos hangle] at h ⊢
    exact openElement_shiftLines h
  · rw [if_neg hangle] at h ⊢
    obtain ⟨text, hdecode, h⟩ := bind_eq_ok.mp h
    cases h
    rw [Cursor.decode_on_line _ hdecode]
    rfl

theorem stepEpilog_shiftLines {root : Element} (h : stepEpilog root c = .ok p) :
    stepEpilog (root.shiftLines n) (c.shiftLines n) = .ok (p.shiftLines n) := by
  rw [stepEpilog] at h ⊢
  simp only [Cursor.rest_shiftLines, Cursor.atEnd_shiftLines, Cursor.startsWith_shiftLines,
    Cursor.skipSpaces_shiftLines] at h ⊢
  by_cases hspace : c.rest.head?.any isSpace = true
  · rw [if_pos hspace] at h ⊢
    cases h
    rfl
  rw [if_neg hspace] at h ⊢
  by_cases hpi : c.startsWith "<?" = true
  · rw [if_pos hpi] at h ⊢
    exact ignorePast_shiftLines h
  rw [if_neg hpi] at h ⊢
  by_cases hcomment : c.startsWith "<!--" = true
  · rw [if_pos hcomment] at h ⊢
    exact ignorePast_shiftLines h
  rw [if_neg hcomment] at h ⊢
  by_cases hatEnd : c.atEnd = true
  · rw [if_pos hatEnd] at h ⊢
    cases h
    rfl
  · rw [if_neg hatEnd] at h
    cases h

theorem step_shiftLines {stage : Stage} (h : stage.step c = .ok p) :
    (stage.shiftLines n).step (c.shiftLines n) = .ok (p.shiftLines n) := by
  cases stage with
  | prolog => exact stepProlog_shiftLines h
  | startTag => exact stepStartTag_shiftLines h
  | content => exact stepContent_shiftLines h
  | epilog => exact stepEpilog_shiftLines h

/-- A text that is read is read further down as well, with every line moved. -/
theorem run_shiftLines {stage : Stage} {root : Element} (n : Nat) (h : stage.run c = .ok root) :
    (stage.shiftLines n).run (c.shiftLines n) = .ok (root.shiftLines n) := by
  generalize hlength : c.rest.length = length
  induction length using Nat.strongRecOn generalizing stage c with
  | ind length ih =>
    rw [run_eq] at h ⊢
    split at h
    · cases h
    · rename_i hdone
      cases h
      rw [step_shiftLines hdone]
      rfl
    · rename_i stage' d hstep
      rw [step_shiftLines hstep]
      exact ih d.rest.length (hlength ▸ length_step hstep) h rfl

end Stage

end Markup

end ThreeAddress
