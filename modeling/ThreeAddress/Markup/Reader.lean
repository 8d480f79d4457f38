import ThreeAddress.Markup.Cursor
import ThreeAddress.Markup.Element

/-!
Reading a document. The reader goes from one item of markup or text to the next and keeps the
elements that are open. Each step goes forward in the text, so that it comes to an end.
-/

namespace ThreeAddress.Markup

structure OpenElement where
  name : String
  line : Nat
  attributes : List (String × String) := []
  text : String := ""
  children : Array Element := #[]

namespace OpenElement

def close (e : OpenElement) : Element where
  name := e.name
  attributes := e.attributes
  text := e.text
  children := e.children.toList
  line := e.line

def addText (e : OpenElement) (text : String) : OpenElement := { e with text := e.text ++ text }

def addChild (e : OpenElement) (child : Element) : OpenElement :=
  { e with children := e.children.push child }

def addAttribute (e : OpenElement) (key value : String) : OpenElement :=
  { e with attributes := e.attributes ++ [(key, value)] }

end OpenElement

/-- Where in the document the reader is. Of open elements the innermost comes first. -/
inductive Stage where
  | prolog (doctypeAllowed : Bool)
  | startTag (e : OpenElement) (outer : List OpenElement)
  | content (e : OpenElement) (outer : List OpenElement)
  | epilog (root : Element)

inductive Progress where
  | next (stage : Stage) (c : Cursor)
  | done (root : Element)

namespace Stage

def openElement (outer : List OpenElement) (c : Cursor) : Except Error Progress :=
  if outer.length = maxDepth then .error (.tooDeep c.line)
  else do
    let (name, d) ← c.name
    return .next (.startTag { name := name, line := c.line } outer) d

def afterElement (e : OpenElement) : List OpenElement → Stage
  | [] => .epilog e.close
  | parent :: outer => .content (parent.addChild e.close) outer

/-- Goes on behind the next `token`, whatever stands before it. -/
def ignorePast (stage : Stage) (token : String) (c : Cursor) : Except Error Progress := do
  let (_, d) ← c.skipPast token
  return .next stage d

def stepProlog (doctypeAllowed : Bool) (c : Cursor) : Except Error Progress :=
  if c.rest.head?.any isSpace then .ok (.next (.prolog doctypeAllowed) c.skipSpaces)
  else if c.startsWith "<?" then ignorePast (.prolog doctypeAllowed) "?>" c
  else if c.startsWith "<!--" then ignorePast (.prolog doctypeAllowed) "-->" c
  else if doctypeAllowed ∧ c.startsWith "<!DOCTYPE" then do
    let d ← c.skipDoctype
    return .next (.prolog false) d
  else if c.startsWith "<" then openElement [] (c.skip 1)
  else .error (c.missing .rootElement)

def stepStartTag (e : OpenElement) (outer : List OpenElement) (c : Cursor) :
    Except Error Progress :=
  let d := c.skipSpaces
  if d.startsWith "/>" then .ok (.next (afterElement e outer) (d.skip 2))
  else if d.startsWith ">" then .ok (.next (.content e outer) (d.skip 1))
  else if c.rest.head?.any isSpace then do
    let ((key, value), c) ← d.namedValue
    if e.attributes.any (·.1 == key) then .error (.duplicateAttribute d.line key)
    else return .next (.startTag (e.addAttribute key value) outer) c
  else .error (d.missing .blankBeforeAttribute)

def endTag (e : OpenElement) (outer : List OpenElement) (c : Cursor) : Except Error Progress := do
  let (name, d) ← c.name
  let d ← d.skipSpaces.expect ">" .endOfEndTag
  if name = e.name then return .next (afterElement e outer) d
  else .error (.mismatchedTag c.line e.name name)

def stepContent (e : OpenElement) (outer : List OpenElement) (c : Cursor) :
    Except Error Progress :=
  if c.atEnd then .error (.unexpectedEnd c.line)
  else if c.startsWith "</" then endTag e outer (c.skip 2)
  else if c.startsWith "<!--" then ignorePast (.content e outer) "-->" c
  else if c.startsWith "<![CDATA[" then do
    let (data, d) ← (c.skip 9).skipPast "]]>"
    return .next (.content (e.addText (String.ofList data)) outer) d
  else if c.startsWith "<?" then ignorePast (.content e outer) "?>" c
  else if c.startsWith "<" then openElement (e :: outer) (c.skip 1)
  else do
    let raw := c.rest.takeWhile (· != '<')
    let text ← Cursor.decode c.line raw
    return .next (.content (e.addText text) outer) (c.skip raw.length)

def stepEpilog (root : Element) (c : Cursor) : Except Error Progress :=
  if c.rest.head?.any isSpace then .ok (.next (.epilog root) c.skipSpaces)
  else if c.startsWith "<?" then ignorePast (.epilog root) "?>" c
  else if c.startsWith "<!--" then ignorePast (.epilog root) "-->" c
  else if c.atEnd then .ok (.done root)
  else .error (.trailingContent c.line)

def step (stage : Stage) (c : Cursor) : Except Error Progress :=
  match stage with
  | .prolog doctypeAllowed => stepProlog doctypeAllowed c
  | .startTag e outer => stepStartTag e outer c
  | .content e outer => stepContent e outer c
  | .epilog root => stepEpilog root c

theorem length_openElement {outer : List OpenElement} {c d : Cursor} {stage : Stage}
    (h : openElement outer c = .ok (.next stage d)) : d.rest.length < c.rest.length := by
  unfold openElement at h
  split at h
  · nomatch h
  · obtain ⟨⟨_, d₁⟩, h₁, h⟩ := bind_eq_ok.mp h
    injection h with h
    injection h with _ h
    subst h
    exact Cursor.length_name h₁

theorem length_ignorePast {stage stage' : Stage} {token : String} {c d : Cursor}
    (ht : 0 < token.toList.length) (h : ignorePast stage token c = .ok (.next stage' d)) :
    d.rest.length < c.rest.length := by
  obtain ⟨⟨_, d₁⟩, h₁, h⟩ := bind_eq_ok.mp h
  injection h with h
  injection h with _ h
  subst h
  have := Cursor.length_skipPast h₁
  omega

theorem length_stepProlog {doctypeAllowed : Bool} {c d : Cursor} {stage : Stage}
    (h : stepProlog doctypeAllowed c = .ok (.next stage d)) : d.rest.length < c.rest.length := by
  unfold stepProlog at h
  split at h
  · rename_i hs
    injection h with h
    injection h with _ h
    subst h
    exact Cursor.length_skipSpaces_lt hs
  split at h
  · exact length_ignorePast (by decide) h
  split at h
  · exact length_ignorePast (by decide) h
  split at h
  · obtain ⟨d₁, h₁, h⟩ := bind_eq_ok.mp h
    injection h with h
    injection h with _ h
    subst h
    exact Cursor.length_skipDoctype h₁
  split at h
  · have := length_openElement h
    rw [Cursor.length_skip] at this
    omega
  · nomatch h

theorem length_stepStartTag {e : OpenElement} {outer : List OpenElement} {c d : Cursor}
    {stage : Stage} (h : stepStartTag e outer c = .ok (.next stage d)) :
    d.rest.length < c.rest.length := by
  have hc := Cursor.length_skipSpaces c
  unfold stepStartTag at h
  dsimp only at h
  split at h
  · rename_i ht
    have ht := Cursor.length_of_startsWith ht
    have h2 : "/>".toList.length = 2 := by decide
    injection h with h
    injection h with _ h
    subst h
    rw [Cursor.length_skip]
    omega
  split at h
  · rename_i ht
    have ht := Cursor.length_of_startsWith ht
    have h1 : ">".toList.length = 1 := by decide
    injection h with h
    injection h with _ h
    subst h
    rw [Cursor.length_skip]
    omega
  split at h
  · obtain ⟨⟨⟨_, _⟩, d₁⟩, h₁, h⟩ := bind_eq_ok.mp h
    dsimp only at h
    split at h
    · nomatch h
    · injection h with h
      injection h with _ h
      subst h
      have := Cursor.length_namedValue h₁
      omega
  · nomatch h

theorem length_endTag {e : OpenElement} {outer : List OpenElement} {c d : Cursor}
    {stage : Stage} (h : endTag e outer c = .ok (.next stage d)) :
    d.rest.length < c.rest.length := by
  obtain ⟨⟨_, d₁⟩, h₁, h⟩ := bind_eq_ok.mp h
  obtain ⟨d₂, h₂, h⟩ := bind_eq_ok.mp h
  split at h
  · injection h with h
    injection h with _ h
    subst h
    have := Cursor.length_name h₁
    have := Cursor.length_skipSpaces d₁
    have := Cursor.length_expect h₂
    omega
  · nomatch h

theorem length_stepContent {e : OpenElement} {outer : List OpenElement} {c d : Cursor}
    {stage : Stage} (h : stepContent e outer c = .ok (.next stage d)) :
    d.rest.length < c.rest.length := by
  unfold stepContent at h
  split at h
  · nomatch h
  rename_i hend
  split at h
  · have := length_endTag h
    rw [Cursor.length_skip] at this
    omega
  split at h
  · exact length_ignorePast (by decide) h
  split at h
  · obtain ⟨⟨_, d₁⟩, h₁, h⟩ := bind_eq_ok.mp h
    injection h with h
    injection h with _ h
    subst h
    have h3 : "]]>".toList.length = 3 := by decide
    have := Cursor.length_skipPast h₁
    rw [Cursor.length_skip] at this
    omega
  split at h
  · exact length_ignorePast (by decide) h
  split at h
  · have := length_openElement h
    rw [Cursor.length_skip] at this
    omega
  · rename_i hlt
    obtain ⟨_, _, h⟩ := bind_eq_ok.mp h
    injection h with h
    injection h with _ h
    subst h
    cases hc : c.rest with
    | nil => simp [Cursor.atEnd, hc] at hend
    | cons a cs =>
      have ha : (a != '<') = true := by
        rw [bne_iff_ne]
        rintro rfl
        exact hlt (by simp [Cursor.startsWith, hc, List.isPrefixOf])
      simp only [Cursor.length_skip, hc, List.takeWhile_cons, ha, if_true, List.length_cons]
      omega

theorem length_stepEpilog {root : Element} {c d : Cursor} {stage : Stage}
    (h : stepEpilog root c = .ok (.next stage d)) : d.rest.length < c.rest.length := by
  unfold stepEpilog at h
  split at h
  · rename_i hs
    injection h with h
    injection h with _ h
    subst h
    exact Cursor.length_skipSpaces_lt hs
  split at h
  · exact length_ignorePast (by decide) h
  split at h
  · exact length_ignorePast (by decide) h
  split at h <;> nomatch h

/-- A step that does not end the reading leaves less to read. -/
theorem length_step {stage stage' : Stage} {c d : Cursor}
    (h : stage.step c = .ok (.next stage' d)) : d.rest.length < c.rest.length := by
  cases stage with
  | prolog => exact length_stepProlog h
  | startTag => exact length_stepStartTag h
  | content => exact length_stepContent h
  | epilog => exact length_stepEpilog h

/-- At most `n` steps from a stage on; nothing if they do not come to an end. -/
def runFor : Nat → Stage → Cursor → Option (Except Error Element)
  | 0, _, _ => none
  | n + 1, stage, c =>
    match stage.step c with
    | .error e => some (.error e)
    | .ok (.done root) => some (.ok root)
    | .ok (.next stage' d) => runFor n stage' d

/-- As many steps as there are characters, and one more, are enough. -/
theorem isSome_runFor {n : Nat} {stage : Stage} {c : Cursor} (h : c.rest.length < n) :
    (runFor n stage c).isSome = true := by
  induction n generalizing stage c with
  | zero => omega
  | succ n ih =>
    unfold runFor
    split
    · rfl
    · rfl
    · rename_i stage' d hs
      have := length_step hs
      exact ih (by omega)

def run (stage : Stage) (c : Cursor) : Except Error Element :=
  (runFor (c.rest.length + 1) stage c).get (isSome_runFor (Nat.lt_succ_self _))

theorem runFor_congr {m n : Nat} {stage : Stage} {c : Cursor} (hm : c.rest.length < m)
    (hn : c.rest.length < n) : runFor m stage c = runFor n stage c := by
  induction m generalizing n stage c with
  | zero => omega
  | succ m ih =>
    cases n with
    | zero => omega
    | succ n =>
      unfold runFor
      split
      · rfl
      · rfl
      · rename_i stage' d hs
        have := length_step hs
        exact ih (by omega) (by omega)

theorem runFor_eq_some_run {n : Nat} {stage : Stage} {c : Cursor} (h : c.rest.length < n) :
    runFor n stage c = some (stage.run c) :=
  (runFor_congr h (Nat.lt_succ_self _)).trans (Option.some_get _).symm

theorem run_eq (stage : Stage) (c : Cursor) :
    stage.run c = match stage.step c with
      | .error e => .error e
      | .ok (.done root) => .ok root
      | .ok (.next stage' d) => stage'.run d := by
  apply Option.some.inj
  rw [← runFor_eq_some_run (Nat.lt_succ_self c.rest.length), runFor]
  split
  · rfl
  · rfl
  · rename_i stage' d hs
    exact runFor_eq_some_run (length_step hs)

end Stage

def dropByteOrderMark : List Char → List Char
  | c :: cs => if c.toNat = 0xfeff then cs else c :: cs
  | [] => []

def readDocument (text : String) : Except Error Element :=
  (Stage.prolog true).run { rest := dropByteOrderMark text.toList }

end ThreeAddress.Markup
