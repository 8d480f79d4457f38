import ThreeAddress.Markup.LineTable
import ThreeAddress.Proofs.DocumentTypes
import ThreeAddress.Proofs.ReferenceGrammar

/-! How a tree lies in its text. A text that is read splits into a prolog, the root element and what
may follow it, and an element into its tags and its content. What the elements of a tree have in
common, and on which lines they stand, can be read off from this. -/

namespace ThreeAddress

namespace Markup

def lineAfter (front : List Char) : Nat := 1 + front.count '\n'

inductive ValueLayout : List Char → List Char → Prop where
  | mk {quote raw value} (hquote : quote = '"' ∨ quote = Char.ofNat 39) (hraw : quote ∉ raw)
      (hangle : '<' ∉ raw) (hvalue : decodeReferences raw = .ok value) :
      ValueLayout (quote :: (raw ++ [quote])) value

inductive AttributeLayout : List Char → String → String → Prop where
  | mk {key before after raw value} (hkey : IsName key) (hbefore : IsSpaces before)
      (hafter : IsSpaces after) (hvalue : ValueLayout raw value) :
      AttributeLayout (key ++ (before ++ '=' :: (after ++ raw))) (String.ofList key)
        (String.ofList value)

inductive AttributesLayout : List Char → List (String × String) → Prop where
  | nil : AttributesLayout [] []
  | cons {blanks raw key value rest attributes} (hne : blanks ≠ []) (hblanks : IsSpaces blanks)
      (hraw : AttributeLayout raw key value) : AttributesLayout rest attributes →
      AttributesLayout (blanks ++ (raw ++ rest)) ((key, value) :: attributes)

/-- A tag that is no end tag, without its opening angle. It ends with `close`. -/
inductive TagLayout (close : List Char) : List Char → String → List (String × String) → Prop where
  | mk {name raw attributes blanks} (hname : IsName name) (hraw : AttributesLayout raw attributes)
      (hkeys : (attributes.map Prod.fst).Nodup) (hblanks : IsSpaces blanks) :
      TagLayout close (name ++ (raw ++ (blanks ++ close))) (String.ofList name) attributes

mutual

/-- An element behind the text `front`, with `level` elements around it. Its line is the one of its
name. -/
inductive ElementLayout : Nat → List Char → List Char → Element → Prop where
  | void {level front tag name attributes} (hlevel : level < maxDepth)
      (htag : TagLayout ['/', '>'] tag name attributes) :
      ElementLayout level front ('<' :: tag) ⟨name, attributes, "", [], lineAfter (front ++ ['<'])⟩
  | tags {level front tag name attributes inner text children close} (hlevel : level < maxDepth)
      (htag : TagLayout ['>'] tag name attributes) (hclose : SpellsEndTag close name) :
      ContentLayout (level + 1) (front ++ '<' :: tag) inner text children →
      ElementLayout level front ('<' :: tag ++ (inner ++ '<' :: '/' :: close))
        ⟨name, attributes, String.ofList text, children, lineAfter (front ++ ['<'])⟩

/-- What stands behind the text `front` up to an end tag: the joined text, and the children. -/
inductive ContentLayout : Nat → List Char → List Char → List Char → List Element → Prop where
  | nil {level front} : ContentLayout level front [] [] []
  | text {level front raw text rest restText children} (hangle : '<' ∉ raw)
      (htext : decodeReferences raw = .ok text) :
      ContentLayout level (front ++ raw) rest restText children →
      ContentLayout level front (raw ++ rest) (text ++ restText) children
  | data {level front data rest restText children} (hdata : ¬ "]]>".toList <:+: data) :
      ContentLayout level (front ++ ("<![CDATA[".toList ++ (data ++ "]]>".toList))) rest restText
        children →
      ContentLayout level front ("<![CDATA[".toList ++ (data ++ "]]>".toList) ++ rest)
        (data ++ restText) children
  | ignored {level front piece rest text children} (hpiece : Ignored piece) :
      ContentLayout level (front ++ piece) rest text children →
      ContentLayout level front (piece ++ rest) text children
  | child {level front raw e rest text siblings} :
      ElementLayout level front raw e → ContentLayout level (front ++ raw) rest text siblings →
      ContentLayout level front (raw ++ rest) text (e :: siblings)

end

/-- What stands in front of the root element, with a document type only where one is allowed. -/
inductive PrologLayout : Bool → List Char → Prop where
  | misc {doctypeAllowed misc} (hmisc : Misc misc) : PrologLayout doctypeAllowed misc
  | doctype {misc body rest} (hmisc : Misc misc) (hopen : "<!DOCTYPE".toList <+: body)
      (hbody : EndsAtAngle body) (hrest : Misc rest) :
      PrologLayout true (misc ++ (body ++ '>' :: rest))

/-- A whole text: the root element between a prolog and what may follow, perhaps with a byte-order
mark in front. -/
inductive DocumentLayout : List Char → Element → Prop where
  | mk {mark prolog raw after root} (hmark : mark = [] ∨ mark = [Char.ofNat 0xfeff])
      (hprolog : PrologLayout true prolog) (hroot : ElementLayout 0 (mark ++ prolog) raw root)
      (hafter : Misc after) : DocumentLayout (mark ++ prolog ++ raw ++ after) root

/-! Pieces that are read. -/

namespace Cursor

variable {c d : Cursor} {piece front : List Char}

theorem Passes.line_eq (h : c.Passes piece d) (hc : c.line = lineAfter front) :
    d.line = lineAfter (front ++ piece) := by
  rw [h.2, hc, lineAfter, lineAfter, List.count_append, Nat.add_assoc]

theorem passes_valueUpTo {quote : Char} {value : String} (h : c.valueUpTo quote = .ok (value, d)) :
    ∃ raw, quote ∉ raw ∧ '<' ∉ raw ∧ decodeReferences raw = .ok value.toList ∧
      c.Passes (raw ++ [quote]) d := by
  rw [valueUpTo] at h
  split at h
  · cases h
  · rename_i raw rest hsplit
    obtain ⟨hraw, hc⟩ := Text.splitAtFirst_eq_some hsplit
    split at h
    · cases h
    · rename_i hangle
      obtain ⟨decoded, hdecode, hpair⟩ := map_eq_ok.mp h
      cases hpair
      have hcut : c.rest = raw ++ [quote] ++ rest := by
        rw [hc, List.append_assoc]
        rfl
      exact ⟨raw, hraw, by simpa using hangle, decode_eq_ok.mp hdecode, passes_skip hcut (by simp)⟩

theorem passes_quotedValue {value : String} (h : c.quotedValue = .ok (value, d)) :
    ∃ raw, ValueLayout raw value.toList ∧ c.Passes raw d := by
  rw [quotedValue.eq_def] at h
  split at h
  · rename_i quote rest hc
    split at h
    · rename_i hquote
      have hopen : c.Passes [quote] (c.skip 1) := passes_skip hc rfl
      obtain ⟨raw, hraw, hangle, hvalue, hclose⟩ := passes_valueUpTo h
      exact ⟨_, .mk hquote hraw hangle hvalue, hopen.trans hclose⟩
    · cases h
  · cases h

theorem passes_namedValue {key value : String} (h : c.namedValue = .ok ((key, value), d)) :
    ∃ raw, AttributeLayout raw key value ∧ c.Passes raw d := by
  obtain ⟨⟨name, c₁⟩, h₁, h⟩ := bind_eq_ok.mp h
  obtain ⟨c₂, h₂, h⟩ := bind_eq_ok.mp h
  obtain ⟨⟨found, c₃⟩, h₃, h⟩ := bind_eq_ok.mp h
  cases h
  obtain ⟨hname, hkey⟩ := passes_name h₁
  obtain ⟨before, hbefore, -, hspaces⟩ := passes_skipSpaces c₁
  obtain ⟨after, hafter, -, hspaces'⟩ := passes_skipSpaces c₂
  obtain ⟨raw, hraw, hvalue⟩ := passes_quotedValue h₃
  have hlayout := AttributeLayout.mk hname hbefore hafter hraw
  rw [String.ofList_toList, String.ofList_toList] at hlayout
  exact ⟨_, hlayout, hkey.trans (hspaces.trans ((passes_expect h₂).trans (hspaces'.trans hvalue)))⟩

end Cursor

namespace OpenElement

theorem addContent_nil (e : OpenElement) : e.addContent [] [] = e := by
  simp [addContent]

theorem close_addContent {name : String} {line : Nat} {attributes : List (String × String)}
    {text : List Char} {children : List Element} :
    (({ name, line, attributes } : OpenElement).addContent text children).close =
      ⟨name, attributes, String.ofList text, children, line⟩ := by
  simp [addContent, close]

end OpenElement

/-! What a step reads. -/

namespace Stage

variable {c d z : Cursor} {e : OpenElement} {outer : List OpenElement} {stage stage' : Stage}
  {root : Element} {front : List Char}

theorem doctype_opened {body : List Char} (hstarts : c.startsWith "<!DOCTYPE" = true)
    (h : c.Passes (body ++ ['>']) d) : "<!DOCTYPE".toList <+: body := by
  have hangle : '>' ∉ "<!DOCTYPE".toList := by decide
  have hopen := List.isPrefixOf_iff_prefix.mp hstarts
  generalize "<!DOCTYPE".toList = opener at hangle hopen ⊢
  rw [h.1] at hopen
  have hopener : ¬ ['>'] <:+: opener := fun hinside => hangle (hinside.mem List.mem_cons_self)
  rcases List.prefix_concat_iff.mp (prefix_of_opened hopener hopen) with rfl | hprefix
  · exact absurd (List.mem_append_right _ List.mem_cons_self) hangle
  · exact hprefix

theorem stepStartTag_passes (h : stepStartTag e outer c = .ok (.next stage d)) :
    (∃ blanks, IsSpaces blanks ∧ c.Passes (blanks ++ ['/', '>']) d ∧
        stage = afterElement e outer) ∨
      (∃ blanks, IsSpaces blanks ∧ c.Passes (blanks ++ ['>']) d ∧ stage = .content e outer) ∨
      ∃ blanks raw key value, blanks ≠ [] ∧ IsSpaces blanks ∧ AttributeLayout raw key value ∧
        c.Passes (blanks ++ raw) d ∧ key ∉ e.attributes.map Prod.fst ∧
        stage = .startTag (e.addAttribute key value) outer := by
  obtain ⟨blanks, hblanks, hne, hspaces⟩ := c.passes_skipSpaces
  rw [stepStartTag] at h
  dsimp only at h
  by_cases hvoid : c.skipSpaces.startsWith "/>" = true
  · rw [if_pos hvoid] at h
    cases h
    have hclose : c.skipSpaces.Passes ['/', '>'] (c.skipSpaces.skip 2) :=
      Cursor.passes_token hvoid (by decide)
    exact .inl ⟨blanks, hblanks, hspaces.trans hclose, rfl⟩
  rw [if_neg hvoid] at h
  by_cases hend : c.skipSpaces.startsWith ">" = true
  · rw [if_pos hend] at h
    cases h
    have hclose : c.skipSpaces.Passes ['>'] (c.skipSpaces.skip 1) :=
      Cursor.passes_token hend (by decide)
    exact .inr (.inl ⟨blanks, hblanks, hspaces.trans hclose, rfl⟩)
  rw [if_neg hend] at h
  by_cases hspace : c.rest.head?.any isSpace = true
  · rw [if_pos hspace] at h
    obtain ⟨⟨⟨key, value⟩, d₁⟩, hvalue, h⟩ := bind_eq_ok.mp h
    dsimp only at h
    by_cases hknown : (e.attributes.any fun a => a.1 == key) = true
    · rw [if_pos hknown] at h
      cases h
    rw [if_neg hknown] at h
    cases h
    have hnew : key ∉ e.attributes.map Prod.fst := by simpa using hknown
    obtain ⟨raw, hraw, hpasses⟩ := Cursor.passes_namedValue hvalue
    exact .inr (.inr ⟨blanks, raw, key, value, hne hspace, hblanks, hraw, hspaces.trans hpasses,
      hnew, rfl⟩)
  · rw [if_neg hspace] at h
    cases h

theorem endTag_passes (h : endTag e outer c = .ok (.next stage d)) :
    stage = afterElement e outer ∧ ∃ close, SpellsEndTag close e.name ∧ c.Passes close d := by
  obtain ⟨⟨name, d₁⟩, hname, h⟩ := bind_eq_ok.mp h
  obtain ⟨d₂, hend, h⟩ := bind_eq_ok.mp h
  split at h
  · rename_i hmatch
    cases h
    obtain ⟨hisName, hpasses⟩ := Cursor.passes_name hname
    rw [hmatch] at hisName hpasses
    obtain ⟨blanks, hblanks, -, hspaces⟩ := d₁.passes_skipSpaces
    have hclose := SpellsEndTag.mk hisName hblanks
    rw [String.ofList_toList] at hclose
    exact ⟨rfl, _, hclose, hpasses.trans (hspaces.trans (Cursor.passes_expect hend))⟩
  · cases h

theorem stepContent_passes (h : stepContent e outer c = .ok (.next stage d)) :
    (stage = afterElement e outer ∧
        ∃ close, SpellsEndTag close e.name ∧ c.Passes ('<' :: '/' :: close) d) ∨
      (stage = .content e outer ∧ ∃ piece, Ignored piece ∧ c.Passes piece d) ∨
      (∃ data, ¬ "]]>".toList <:+: data ∧
        c.Passes ("<![CDATA[".toList ++ (data ++ "]]>".toList)) d ∧
        stage = .content (e.addText (String.ofList data)) outer) ∨
      (outer.length + 1 ≠ maxDepth ∧ ∃ name c₁, IsName name ∧ c.Passes ['<'] c₁ ∧
        c₁.Passes name d ∧
        stage = .startTag { name := String.ofList name, line := c₁.line } (e :: outer)) ∨
      ∃ raw text, '<' ∉ raw ∧ decodeReferences raw = .ok text ∧ c.Passes raw d ∧
        stage = .content (e.addText (String.ofList text)) outer := by
  rw [stepContent] at h
  by_cases hatEnd : c.atEnd = true
  · rw [if_pos hatEnd] at h
    cases h
  rw [if_neg hatEnd] at h
  by_cases hclose : c.startsWith "</" = true
  · rw [if_pos hclose] at h
    have hopen : c.Passes ['<', '/'] (c.skip 2) := Cursor.passes_token hclose (by decide)
    obtain ⟨rfl, close, htag, hpasses⟩ := endTag_passes h
    exact .inl ⟨rfl, close, htag, hopen.trans hpasses⟩
  rw [if_neg hclose] at h
  by_cases hcomment : c.startsWith "<!--" = true
  · rw [if_pos hcomment] at h
    obtain ⟨rfl, hpiece⟩ := ignorePast_ignored .comment (by decide) hcomment h
    exact .inr (.inl ⟨rfl, hpiece⟩)
  rw [if_neg hcomment] at h
  by_cases hsection : c.startsWith "<![CDATA[" = true
  · rw [if_pos hsection] at h
    have hopen : c.Passes "<![CDATA[".toList (c.skip 9) := Cursor.passes_token hsection (by decide)
    obtain ⟨⟨data, d₁⟩, hpast, h⟩ := bind_eq_ok.mp h
    cases h
    obtain ⟨hpasses, hdata⟩ := Cursor.passes_skipPast (by decide) hpast
    exact .inr (.inr (.inl ⟨data, hdata, hopen.trans hpasses, rfl⟩))
  rw [if_neg hsection] at h
  by_cases hpi : c.startsWith "<?" = true
  · rw [if_pos hpi] at h
    obtain ⟨rfl, hpiece⟩ := ignorePast_ignored .instruction (by decide) hpi h
    exact .inr (.inl ⟨rfl, hpiece⟩)
  rw [if_neg hpi] at h
  by_cases hangle : c.startsWith "<" = true
  · rw [if_pos hangle] at h
    exact .inr (.inr (.inr (.inl (openElement_passes hangle h))))
  · rw [if_neg hangle] at h
    obtain ⟨text, hdecode, h⟩ := bind_eq_ok.mp h
    cases h
    have hraw : '<' ∉ c.rest.takeWhile (· != '<') := by
      intro hmem
      exact absurd (List.all_eq_true.mp List.all_takeWhile '<' hmem) (by decide)
    exact .inr (.inr (.inr (.inr ⟨_, text.toList, hraw, decode_eq_ok.mp hdecode,
      Cursor.passes_skip List.takeWhile_append_dropWhile.symm rfl, by rw [String.ofList_toList]⟩)))

theorem stepEpilog_passes (h : stepEpilog root c = .ok (.next stage d)) :
    stage = .epilog root ∧
      ∃ piece, c.Passes piece d ∧ ∀ misc, Misc misc → Misc (piece ++ misc) := by
  rw [stepEpilog] at h
  by_cases hspace : c.rest.head?.any isSpace = true
  · rw [if_pos hspace] at h
    cases h
    obtain ⟨blanks, hblanks, -, hpasses⟩ := c.passes_skipSpaces
    exact ⟨rfl, blanks, hpasses, fun misc => .spaces hblanks⟩
  rw [if_neg hspace] at h
  by_cases hpi : c.startsWith "<?" = true
  · rw [if_pos hpi] at h
    obtain ⟨rfl, piece, hpiece, hpasses⟩ := ignorePast_ignored .instruction (by decide) hpi h
    exact ⟨rfl, piece, hpasses, fun misc => hpiece.misc⟩
  rw [if_neg hpi] at h
  by_cases hcomment : c.startsWith "<!--" = true
  · rw [if_pos hcomment] at h
    obtain ⟨rfl, piece, hpiece, hpasses⟩ := ignorePast_ignored .comment (by decide) hcomment h
    exact ⟨rfl, piece, hpasses, fun misc => hpiece.misc⟩
  rw [if_neg hcomment] at h
  split at h <;> cases h

/-! What is read up to the end of the root element. -/

theorem Closes.next (hstage : ∀ root, stage ≠ .epilog root) (h : Closes stage c root z) :
    ∃ stage' d, stage.step c = .ok (.next stage' d) ∧ Closes stage' d root z := by
  cases h with
  | here => exact absurd rfl (hstage root)
  | step _ hstep hrest => exact ⟨_, _, hstep, hrest⟩

theorem exists_attributes (h : Closes (.startTag e outer) c root z)
    (hkeys : (e.attributes.map Prod.fst).Nodup) :
    ∃ raw attributes blanks d, AttributesLayout raw attributes ∧
      ((e.attributes ++ attributes).map Prod.fst).Nodup ∧ IsSpaces blanks ∧
      (c.Passes (raw ++ (blanks ++ ['/', '>'])) d ∧
          Closes (afterElement { e with attributes := e.attributes ++ attributes } outer) d root z ∨
        c.Passes (raw ++ (blanks ++ ['>'])) d ∧
          Closes (.content { e with attributes := e.attributes ++ attributes } outer) d root
            z) := by
  generalize hlength : c.rest.length = length
  induction length using Nat.strongRecOn generalizing c e with
  | ind length ih =>
    obtain ⟨stage, d, hstep, hrest⟩ := h.next (by rintro _ ⟨⟩)
    have hnone : e.attributes ++ [] = e.attributes := List.append_nil _
    rcases stepStartTag_passes hstep with ⟨blanks, hblanks, hpasses, rfl⟩ |
      ⟨blanks, hblanks, hpasses, rfl⟩ |
      ⟨blanks, raw, key, value, hne, hblanks, hraw, hpasses, hnew, rfl⟩
    · refine ⟨[], [], blanks, d, .nil, by rwa [hnone], hblanks, .inl ⟨hpasses, ?_⟩⟩
      rwa [hnone]
    · refine ⟨[], [], blanks, d, .nil, by rwa [hnone], hblanks, .inr ⟨hpasses, ?_⟩⟩
      rwa [hnone]
    · have hkeys' : ((e.addAttribute key value).attributes.map Prod.fst).Nodup := by
        rw [OpenElement.addAttribute, List.map_append, List.nodup_append]
        refine ⟨hkeys, by simp, ?_⟩
        rintro k hk _ hkey rfl
        obtain rfl : k = key := List.mem_singleton.mp hkey
        exact hnew hk
      obtain ⟨more, attributes, tail, d', hmore, hnodup, htail, hends⟩ :=
        ih d.rest.length (hlength ▸ length_step hstep) hrest hkeys' rfl
      have hassoc : (e.addAttribute key value).attributes ++ attributes =
          e.attributes ++ (key, value) :: attributes := by
        simp [OpenElement.addAttribute]
      rw [hassoc] at hnodup hends
      refine ⟨_, _, tail, d', .cons hne hblanks hraw hmore, hnodup, htail, ?_⟩
      rw [← List.append_assoc blanks, List.append_assoc _ more, List.append_assoc _ more]
      exact hends.imp (And.imp_left hpasses.trans) (And.imp_left hpasses.trans)

/-- What is left to read of the open element is content and its end tag. -/
def EndsElement (front : List Char) (e : OpenElement) (outer : List OpenElement) (c : Cursor)
    (root : Element) (z : Cursor) : Prop :=
  ∃ inner text children close d, ContentLayout (outer.length + 1) front inner text children ∧
    SpellsEndTag close e.name ∧ c.Passes (inner ++ '<' :: '/' :: close) d ∧
    Closes (behind (e.addContent text children).close outer) d root z

theorem EndsElement.after {piece text : List Char} {children : List Element}
    (hpasses : c.Passes piece d)
    (hlayout : ∀ {inner moreText siblings},
      ContentLayout (outer.length + 1) (front ++ piece) inner moreText siblings →
      ContentLayout (outer.length + 1) front (piece ++ inner) (text ++ moreText)
        (children ++ siblings))
    (h : EndsElement (front ++ piece) (e.addContent text children) outer d root z) :
    EndsElement front e outer c root z := by
  obtain ⟨inner, moreText, siblings, close, d', hinner, hclose, hend, hbehind⟩ := h
  rw [OpenElement.addContent_addContent] at hbehind
  refine ⟨_, _, _, close, d', hlayout hinner, hclose, ?_, hbehind⟩
  rw [List.append_assoc]
  exact hpasses.trans hend

def ContentEnds (c : Cursor) : Prop :=
  ∀ {front : List Char} {e : OpenElement} {outer : List OpenElement} {root : Element} {z : Cursor},
    c.line = lineAfter front → outer.length < maxDepth → Closes (.content e outer) c root z →
    EndsElement front e outer c root z

theorem exists_element {name : List Char} {c₁ : Cursor} (hline : c.line = lineAfter front)
    (hlevel : outer.length < maxDepth) (hname : IsName name) (hangle : c.Passes ['<'] c₁)
    (hpasses : c₁.Passes name d)
    (h : Closes (.startTag { name := String.ofList name, line := c₁.line } outer) d root z)
    (hcontent : ∀ d' : Cursor, d'.rest.length < d.rest.length → ContentEnds d') :
    ∃ raw child d', ElementLayout outer.length front raw child ∧ raw ≠ [] ∧ c.Passes raw d' ∧
      Closes (behind child outer) d' root z := by
  have hline₁ := hangle.line_eq hline
  obtain ⟨raw, attributes, blanks, d₂, hraw, hkeys, hblanks, hends⟩ :=
    exists_attributes h List.nodup_nil
  rw [List.nil_append] at hkeys
  rcases hends with ⟨hpasses', hclose⟩ | ⟨hpasses', hclose⟩
  · have htag : TagLayout ['/', '>'] _ _ _ := .mk hname hraw hkeys hblanks
    rw [afterElement_eq, hline₁] at hclose
    exact ⟨_, _, d₂, .void hlevel htag, List.cons_ne_nil _ _,
      hangle.trans (hpasses.trans hpasses'), hclose⟩
  · have htag : TagLayout ['>'] _ _ _ := .mk hname hraw hkeys hblanks
    have hwhole := hangle.trans (hpasses.trans hpasses')
    obtain ⟨inner, text, children, close, d₃, hinner, hend, hpasses₃, hbehind⟩ :=
      hcontent d₂ (hpasses'.length_lt (by simp)) (hwhole.line_eq hline) hlevel hclose
    rw [OpenElement.close_addContent, hline₁] at hbehind
    exact ⟨_, _, d₃, .tags hlevel htag hend hinner, List.cons_ne_nil _ _, hwhole.trans hpasses₃,
      hbehind⟩

/-- What is read inside an element is its content and its end tag. -/
theorem contentEnds (c : Cursor) : ContentEnds c := by
  generalize hlength : c.rest.length = length
  induction length using Nat.strongRecOn generalizing c with
  | ind length ih =>
    intro front e outer root z hline hlevel h
    obtain ⟨stage, d, hstep, hrest⟩ := h.next (by rintro _ ⟨⟩)
    have hshorter := hlength ▸ length_step hstep
    rcases stepContent_passes hstep with ⟨rfl, close, hclose, hpasses⟩ |
      ⟨rfl, piece, hpiece, hpasses⟩ | ⟨data, hdata, hpasses, rfl⟩ |
      ⟨hdepth, name, c₁, hname, hangle, hpasses, rfl⟩ | ⟨raw, text, hangle, htext, hpasses, rfl⟩
    · rw [afterElement_eq, ← e.addContent_nil] at hrest
      exact ⟨[], [], [], close, d, .nil, hclose, hpasses, hrest⟩
    · rw [← e.addContent_nil] at hrest
      exact .after hpasses (.ignored hpiece)
        (ih _ hshorter d rfl (hpasses.line_eq hline) hlevel hrest)
    · rw [OpenElement.addText_eq] at hrest
      exact .after hpasses (.data hdata) (ih _ hshorter d rfl (hpasses.line_eq hline) hlevel hrest)
    · -- The induction hypothesis is used twice: for the content of the child, and behind its end.
      have hchild : (e :: outer).length < maxDepth :=
        Nat.lt_of_le_of_ne (Nat.succ_le_of_lt hlevel) hdepth
      obtain ⟨raw, child, d₁, hlayout, hne, hraw, hafter⟩ := exists_element hline hchild hname
        hangle hpasses hrest fun d' hd' => ih _ (Nat.lt_trans hd' hshorter) d' rfl
      rw [behind, OpenElement.addChild_eq] at hafter
      exact .after hraw (.child hlayout)
        (ih _ (hlength ▸ hraw.length_lt hne) d₁ rfl (hraw.line_eq hline) hlevel hafter)
    · rw [OpenElement.addText_eq] at hrest
      exact .after hpasses (.text hangle htext)
        (ih _ hshorter d rfl (hpasses.line_eq hline) hlevel hrest)

theorem exists_root_element {doctypeAllowed : Bool} (hline : c.line = lineAfter front)
    (h : Closes (.prolog doctypeAllowed) c root z) :
    ∃ prolog raw, PrologLayout doctypeAllowed prolog ∧
      ElementLayout 0 (front ++ prolog) raw root ∧ c.Passes (prolog ++ raw) z := by
  generalize hlength : c.rest.length = length
  induction length using Nat.strongRecOn generalizing c front doctypeAllowed with
  | ind length ih =>
    obtain ⟨stage, d, hstep, hrest⟩ := h.next (by rintro _ ⟨⟩)
    have hshorter := hlength ▸ length_step hstep
    rcases stepProlog_cases hstep with ⟨rfl, piece, hpasses, hpiece⟩ | ⟨rfl, rfl, hstarts, hskip⟩ |
      ⟨name, c₁, hname, hangle, hpasses, rfl⟩
    · obtain ⟨prolog, raw, hprolog, hroot, hend⟩ := ih _ hshorter (hpasses.line_eq hline) hrest rfl
      rw [List.append_assoc] at hroot
      refine ⟨piece ++ prolog, raw, ?_, hroot, by rw [List.append_assoc]; exact hpasses.trans hend⟩
      cases hprolog with
      | misc hmisc => exact .misc (hpiece _ hmisc)
      | doctype hmisc hopen hbody hmisc' =>
        rw [← List.append_assoc]
        exact .doctype (hpiece _ hmisc) hopen hbody hmisc'
    · obtain ⟨body, hbody, hpasses⟩ := Cursor.skipDoctype_eq_ok.mp hskip
      have hopen := doctype_opened hstarts hpasses
      obtain ⟨prolog, raw, hprolog, hroot, hend⟩ := ih _ hshorter (hpasses.line_eq hline) hrest rfl
      rw [List.append_assoc] at hroot
      refine ⟨_, raw, ?_, hroot, by rw [List.append_assoc]; exact hpasses.trans hend⟩
      cases hprolog with
      | misc hmisc =>
        rw [List.append_assoc]
        exact .doctype .nil hopen hbody hmisc
    · obtain ⟨raw, child, d', hlayout, -, hraw, hafter⟩ := exists_element hline (by decide) hname
        hangle hpasses hrest fun d' _ => contentEnds d'
      obtain ⟨rfl, rfl⟩ := hafter.unique .here
      exact ⟨[], raw, .misc .nil, by rwa [List.append_nil], hraw⟩

theorem rest_eq_nil_of_done {root' : Element} (h : stepEpilog root c = .ok (.done root')) :
    c.rest = [] := by
  rw [stepEpilog] at h
  split at h
  · cases h
  split at h
  · exact absurd h ignorePast_ne_done
  split at h
  · exact absurd h ignorePast_ne_done
  split at h
  · rename_i hatEnd
    exact List.isEmpty_iff.mp hatEnd
  · cases h

theorem misc_of_epilog (h : run (.epilog root) c = .ok root) : Misc c.rest := by
  generalize hlength : c.rest.length = length
  induction length using Nat.strongRecOn generalizing c with
  | ind length ih =>
    rw [run_eq] at h
    split at h
    · cases h
    · rename_i hdone
      rw [rest_eq_nil_of_done hdone]
      exact .nil
    · rename_i stage d hstep
      obtain ⟨rfl, piece, hpasses, hpiece⟩ := stepEpilog_passes hstep
      rw [hpasses.1]
      exact hpiece _ (ih _ (hlength ▸ length_step hstep) h rfl)

end Stage

/-- Every text that is read is the layout of what is read from it. -/
theorem documentLayout_of_read {text : String} {root : Element}
    (h : readDocument text = .ok root) : DocumentLayout text.toList root := by
  obtain ⟨mark, hmark, htext⟩ := exists_byteOrderMark text.toList
  have hline : 1 = lineAfter mark := by rcases hmark with rfl | rfl <;> rfl
  obtain ⟨z, hclose⟩ := Stage.exists_closes h
  obtain ⟨prolog, raw, hprolog, hroot, hpasses⟩ := Stage.exists_root_element hline hclose
  have hafter := Stage.misc_of_epilog (hclose.run_eq.symm.trans h)
  have hrest : dropByteOrderMark text.toList = prolog ++ raw ++ z.rest := hpasses.1
  rw [htext, hrest, ← List.append_assoc, ← List.append_assoc]
  exact .mk hmark hprolog hroot hafter

/-! What the elements of a tree have in common. -/

theorem AttributesLayout.isName {raw : List Char} {attributes : List (String × String)}
    (h : AttributesLayout raw attributes) : ∀ a ∈ attributes, IsName a.1.toList := by
  induction h with
  | nil => intro a ha; cases ha
  | cons _ _ hraw _ ih =>
    intro a ha
    rcases List.mem_cons.mp ha with rfl | ha
    · obtain ⟨hkey, -, -, -⟩ := hraw
      rwa [String.toList_ofList]
    · exact ih a ha

/-- The name of the element and the keys of its attributes are names, and no two keys are equal. -/
structure Element.WellNamed (e : Element) : Prop where
  name : IsName e.name.toList
  keys : ∀ a ∈ e.attributes, IsName a.1.toList
  distinct : (e.attributes.map Prod.fst).Nodup

theorem TagLayout.wellNamed {close tag : List Char} {e : Element}
    (h : TagLayout close tag e.name e.attributes) : e.WellNamed := by
  obtain ⟨name, attributes, text, children, line⟩ := e
  change TagLayout close tag name attributes at h
  obtain ⟨hname, hraw, hkeys, -⟩ := h
  exact ⟨by rwa [String.toList_ofList], hraw.isName, hkeys⟩

/-- The start tag of the element stands behind the text `front`, and its line is the one of its
name. -/
structure StartTagAt (text front : List Char) (e : Element) : Prop where
  tag : ∃ close tag, TagLayout close tag e.name e.attributes ∧ front ++ '<' :: tag <+: text
  line : e.line = lineAfter (front ++ ['<'])

/-- A list of elements in the order of their start tags, which stand in the text `raw` behind
`front`. Each is given with the text in front of its start tag. -/
structure Places (front raw : List Char) (places : List (List Char × Element)) : Prop where
  tags : ∀ p ∈ places, front <+: p.1 ∧ StartTagAt (front ++ raw) p.1 p.2
  ordered : places.Pairwise fun p q => p.1 <+: q.1 ∧ p.1.length < q.1.length

theorem lineAfter_le {front more : List Char} (h : front <+: more) :
    lineAfter front ≤ lineAfter more :=
  Nat.add_le_add_left (h.sublist.count_le '\n') 1

theorem lineAfter_concat (front : List Char) : lineAfter (front ++ ['<']) = lineAfter front := by
  rw [lineAfter, lineAfter, List.count_append]
  rfl

namespace StartTagAt

variable {text front more : List Char} {e : Element}

theorem wellNamed (h : StartTagAt text front e) : e.WellNamed := by
  obtain ⟨close, tag, htag, -⟩ := h.tag
  exact htag.wellNamed

theorem mono (h : StartTagAt text front e) (htext : text <+: more) : StartTagAt more front e := by
  obtain ⟨close, tag, htag, hprefix⟩ := h.tag
  exact ⟨⟨close, tag, htag, hprefix.trans htext⟩, h.line⟩

theorem prefix_length (h : StartTagAt text front e) :
    front <+: text ∧ front.length < text.length := by
  obtain ⟨close, tag, -, hprefix⟩ := h.tag
  have hlength := hprefix.length_le
  rw [List.length_append, List.length_cons] at hlength
  exact ⟨(List.prefix_append front _).trans hprefix, by omega⟩

theorem line_le (h : StartTagAt text front e) : e.line ≤ lineAfter text := by
  rw [h.line, lineAfter_concat]
  exact lineAfter_le h.prefix_length.1

end StartTagAt

/-- The part of a text in which places are counted: a byte-order mark in front is left out. -/
def unmarked (cs : List Char) : String := String.ofList (dropByteOrderMark cs)

theorem count_unmarked (cs : List Char) : (unmarked cs).toList.count '\n' = cs.count '\n' := by
  obtain ⟨mark, hmark, hcs⟩ := exists_byteOrderMark cs
  have hnone : mark.count '\n' = 0 := by
    rcases hmark with rfl | rfl
    · rfl
    · decide
  have hcount := congrArg (List.count '\n') hcs
  rw [List.count_append, hnone, Nat.zero_add] at hcount
  rw [unmarked, String.toList_ofList, hcount]

theorem StartTagAt.line_eq_lineAt {text front : List Char} {e : Element}
    (h : StartTagAt text front e) :
    e.line = (LineTable.ofText (unmarked text)).lineAt
      (unmarked (front ++ ['<'])).utf8ByteSize := by
  obtain ⟨close, tag, -, rest, hrest⟩ := h.tag
  have htext : unmarked text = unmarked (front ++ ['<']) ++ String.ofList (tag ++ rest) := by
    have hcut : text = front ++ ['<'] ++ (tag ++ rest) := by simp [← hrest]
    have hne : front ++ ['<'] ≠ [] := List.append_ne_nil_of_right_ne_nil _ (List.cons_ne_nil _ _)
    rw [unmarked, unmarked, ← String.ofList_append, hcut, dropByteOrderMark_append _ hne]
  rw [h.line, htext, LineTable.lineAt_ofText, count_unmarked, lineAfter]

namespace Places

variable {front raw more : List Char} {ps qs : List (List Char × Element)}

theorem nil : Places front raw [] := ⟨by rintro _ ⟨⟩, .nil⟩

theorem append (hps : Places front raw ps) (hqs : Places (front ++ raw) more qs) :
    Places front (raw ++ more) (ps ++ qs) := by
  constructor
  · intro p hp
    rw [← List.append_assoc]
    rcases List.mem_append.mp hp with hp | hp
    · obtain ⟨hfront, htag⟩ := hps.tags p hp
      exact ⟨hfront, htag.mono (List.prefix_append _ more)⟩
    · obtain ⟨hfront, htag⟩ := hqs.tags p hp
      exact ⟨(List.prefix_append front raw).trans hfront, htag⟩
  · rw [List.pairwise_append]
    refine ⟨hps.ordered, hqs.ordered, fun p hp q hq => ?_⟩
    obtain ⟨hbefore, hlength⟩ := (hps.tags p hp).2.prefix_length
    have hfront := (hqs.tags q hq).1
    exact ⟨hbefore.trans hfront, Nat.lt_of_lt_of_le hlength hfront.length_le⟩

theorem skip (h : Places (front ++ raw) more qs) : Places front (raw ++ more) qs :=
  append nil h

theorem stop (h : Places front raw ps) : Places front (raw ++ more) ps := by
  have hnone : Places (front ++ raw) more [] := nil
  have hboth := h.append hnone
  rwa [List.append_nil] at hboth

theorem startTag {close tag : List Char} {name : String} {attributes : List (String × String)}
    (htag : TagLayout close tag name attributes) {text : String} {children : List Element} :
    Places front ('<' :: tag)
      [(front, ⟨name, attributes, text, children, lineAfter (front ++ ['<'])⟩)] := by
  constructor
  · intro p hp
    obtain rfl := List.mem_singleton.mp hp
    exact ⟨List.prefix_refl front, ⟨close, tag, htag, List.prefix_refl _⟩, rfl⟩
  · exact List.pairwise_singleton _ _

end Places

/-- The start tags of the elements stand in the text `raw` behind `front`, in this order. -/
def HasPlaces (front raw : List Char) (es : List Element) : Prop :=
  ∃ places, places.map Prod.snd = es ∧ Places front raw places

namespace HasPlaces

variable {front raw more : List Char} {es : List Element}

theorem skip (h : HasPlaces (front ++ raw) more es) : HasPlaces front (raw ++ more) es := by
  obtain ⟨places, hes, h⟩ := h
  exact ⟨places, hes, h.skip⟩

theorem stop (h : HasPlaces front raw es) : HasPlaces front (raw ++ more) es := by
  obtain ⟨places, hes, h⟩ := h
  exact ⟨places, hes, h.stop⟩

theorem exists_startTagAt (h : HasPlaces front raw es) {e : Element} (he : e ∈ es) :
    ∃ before, StartTagAt (front ++ raw) before e := by
  obtain ⟨places, rfl, h⟩ := h
  obtain ⟨p, hp, rfl⟩ := List.mem_map.mp he
  exact ⟨p.1, (h.tags p hp).2⟩

theorem lines_ordered (h : HasPlaces front raw es) : (es.map Element.line).Pairwise (· ≤ ·) := by
  obtain ⟨places, rfl, h⟩ := h
  rw [List.pairwise_map, List.pairwise_map]
  refine h.ordered.imp_of_mem fun {p q} hp hq hpq => ?_
  rw [(h.tags p hp).2.line, (h.tags q hq).2.line, lineAfter_concat, lineAfter_concat]
  exact lineAfter_le hpq.1

end HasPlaces

namespace ElementLayout

variable {level : Nat} {front raw : List Char} {e : Element}

/-- By induction over the two relations, an element is laid out in the order of its tree. -/
theorem hasPlaces (h : ElementLayout level front raw e) (depth : Nat) :
    HasPlaces front raw ((e.preorder depth).map Prod.snd) := by
  refine @ElementLayout.rec
    (fun _ front raw e _ => ∀ depth, HasPlaces front raw ((e.preorder depth).map Prod.snd))
    (fun _ front raw _ children _ =>
      ∀ depth, HasPlaces front raw ((Element.preorderAll depth children).map Prod.snd))
    ?void ?tags ?nil ?text ?data ?ignored ?child level front raw e h depth
  case void =>
    intro _ front _ _ _ _ htag depth
    exact ⟨_, rfl, .startTag htag⟩
  case tags =>
    intro _ front tag name attributes inner text children _ _ htag _ _ hinner depth
    obtain ⟨places, hes, h⟩ := hinner (depth + 1)
    have hfirst : Places front ('<' :: tag) [(front, ⟨name, attributes, String.ofList text,
        children, lineAfter (front ++ ['<'])⟩)] := .startTag htag
    refine ⟨_, ?_, hfirst.append h.stop⟩
    rw [List.map_append, hes]
    rfl
  case nil =>
    intro _ _ depth
    exact ⟨[], rfl, .nil⟩
  case text =>
    intro _ _ _ _ _ _ _ _ _ _ hrest depth
    exact (hrest depth).skip
  case data =>
    intro _ _ _ _ _ _ _ _ hrest depth
    exact (hrest depth).skip
  case ignored =>
    intro _ _ _ _ _ _ _ _ hrest depth
    exact (hrest depth).skip
  case child =>
    intro _ _ _ e _ _ siblings _ _ hchild hrest depth
    obtain ⟨ps, hps, hchild⟩ := hchild depth
    obtain ⟨qs, hqs, hrest⟩ := hrest depth
    refine ⟨ps ++ qs, ?_, hchild.append hrest⟩
    rw [List.map_append, hps, hqs, Element.preorderAll, List.map_append]

theorem depth_le (h : ElementLayout level front raw e) : level + e.depth ≤ maxDepth := by
  refine @ElementLayout.rec (fun level _ _ e _ => level + e.depth ≤ maxDepth)
    (fun level _ _ _ children _ => level ≤ maxDepth → level + Element.depthAll children ≤ maxDepth)
    ?void ?tags ?nil ?text ?data ?ignored ?child level front raw e h
  case void =>
    intro level _ _ _ _ hlevel _
    exact Nat.succ_le_of_lt hlevel
  case tags =>
    intro level _ _ _ _ _ _ children _ hlevel _ _ _ hinner
    have hdepth := hinner hlevel
    rw [Element.depth]
    omega
  case nil =>
    intro _ _ hlevel
    exact hlevel
  case text =>
    intro _ _ _ _ _ _ _ _ _ _ hrest
    exact hrest
  case data =>
    intro _ _ _ _ _ _ _ _ hrest
    exact hrest
  case ignored =>
    intro _ _ _ _ _ _ _ _ hrest
    exact hrest
  case child =>
    intro _ _ _ e _ _ siblings _ _ hchild hrest hlevel
    have hdepth := hrest hlevel
    rw [Element.depthAll]
    omega

end ElementLayout

variable {text : String} {root : Element}

theorem DocumentLayout.hasPlaces {cs : List Char} (h : DocumentLayout cs root) :
    HasPlaces [] cs ((root.preorder 0).map Prod.snd) := by
  obtain ⟨-, -, hroot, -⟩ := h
  rename_i mark prolog raw after
  have hplaces : HasPlaces ([] ++ (mark ++ prolog)) (raw ++ after) _ := (hroot.hasPlaces 0).stop
  rw [List.append_assoc]
  exact hplaces.skip

theorem DocumentLayout.depth_le {cs : List Char} (h : DocumentLayout cs root) :
    root.depth ≤ maxDepth := by
  obtain ⟨-, -, hroot, -⟩ := h
  have hdepth := hroot.depth_le
  rwa [Nat.zero_add] at hdepth

/-- Every tree that is read is laid out in its text: each element has a start tag there, which gives
its name and its attributes, and the tags come in the order of the tree. So the elements are well
named, they are nested no deeper than is allowed, and their lines, which are those of the names in
the start tags, do not go back and are lines of the text; the table of lines has the same ones for
the places of the names. -/
theorem trees_laid_out (h : readDocument text = .ok root) :
    DocumentLayout text.toList root ∧
      HasPlaces [] text.toList ((root.preorder 0).map Prod.snd) ∧
      (∀ p ∈ root.preorder 0, p.2.WellNamed) ∧ root.depth ≤ maxDepth ∧
      ((root.preorder 0).map fun p => p.2.line).Pairwise (· ≤ ·) ∧
      (∀ p ∈ root.preorder 0, ∃ front, StartTagAt text.toList front p.2 ∧
        p.2.line = (LineTable.ofText (unmarked text.toList)).lineAt
          (unmarked (front ++ ['<'])).utf8ByteSize) ∧
      ∀ p ∈ root.preorder 0, 1 ≤ p.2.line ∧ p.2.line ≤ 1 + text.toList.count '\n' := by
  have hlayout := documentLayout_of_read h
  have hplaces := hlayout.hasPlaces
  refine ⟨hlayout, hplaces, fun p hp => ?_, hlayout.depth_le, ?_, fun p hp => ?_, fun p hp => ?_⟩
  · obtain ⟨front, htag⟩ := hplaces.exists_startTagAt (List.mem_map_of_mem hp)
    exact htag.wellNamed
  · have hlines := hplaces.lines_ordered
    rwa [List.map_map] at hlines
  · obtain ⟨front, htag⟩ := hplaces.exists_startTagAt (List.mem_map_of_mem hp)
    exact ⟨front, htag, htag.line_eq_lineAt⟩
  · obtain ⟨front, htag⟩ := hplaces.exists_startTagAt (List.mem_map_of_mem hp)
    exact ⟨by rw [htag.line]; exact Nat.le_add_right 1 _, htag.line_le⟩

/-- A document on five lines, with a tag over two of them, and with a comment and a section of data
in which there only seem to be tags. -/
theorem trees_laid_out_five_lines :
    ∃ text root, text = "<!--<x>\n--><a k='1'\nl='&lt;'>\n<b/><![CDATA[<x>\n]]><c></c></a>" ∧
      readDocument text = .ok root ∧
      (root.preorder 0).map (fun p => (p.2.name, p.2.attributes, p.2.line)) =
        [("a", [("k", "1"), ("l", "<")], 2), ("b", [], 4), ("c", [], 5)] ∧
      DocumentLayout text.toList root ∧
      HasPlaces [] text.toList ((root.preorder 0).map Prod.snd) ∧
      (∀ p ∈ root.preorder 0, p.2.WellNamed) ∧ root.depth ≤ maxDepth ∧
      ((root.preorder 0).map fun p => p.2.line).Pairwise (· ≤ ·) ∧
      (∀ p ∈ root.preorder 0, ∃ front, StartTagAt text.toList front p.2 ∧
        p.2.line = (LineTable.ofText (unmarked text.toList)).lineAt
          (unmarked (front ++ ['<'])).utf8ByteSize) ∧
      ∀ p ∈ root.preorder 0, 1 ≤ p.2.line ∧ p.2.line ≤ 1 + text.toList.count '\n' := by
  have hread : readDocument "<!--<x>\n--><a k='1'\nl='&lt;'>\n<b/><![CDATA[<x>\n]]><c></c></a>" =
      .ok ⟨"a", [("k", "1"), ("l", "<")], "\n<x>\n",
        [⟨"b", [], "", [], 4⟩, ⟨"c", [], "", [], 5⟩], 2⟩ := rfl
  exact ⟨_, _, rfl, hread, rfl, trees_laid_out hread⟩

end Markup

end ThreeAddress
