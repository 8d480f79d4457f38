import Mathlib.Logic.Relation
import ThreeAddress.Proofs.Layout

/-! Reading comes to an end, whatever the text. A round of each loop that does not return takes a
whole item off the front of what is left of the text, so that the place in the text goes forward
from one character to a later one and there are no more rounds than characters. -/

namespace ThreeAddress.Markup

open Relation

/-! Positions in a text. -/

/-- What is left of a text begins at a position, which is always one between whole characters. -/
def BeginsAt {text : String} (p : text.Pos) (rest : List Char) : Prop :=
  ∃ front, p.Splits front (String.ofList rest)

theorem exists_beginsAt {text : String} {rest : List Char} (h : rest <:+ text.toList) :
    ∃ p : text.Pos, BeginsAt p rest := by
  obtain ⟨front, hfront⟩ := h
  have htext : text = String.ofList front ++ String.ofList rest := by
    rw [← String.ofList_append, hfront, String.ofList_toList]
  have hvalid : (String.ofList front).rawEndPos.IsValid text :=
    String.Pos.Raw.isValid_iff_exists_append.mpr ⟨_, _, htext, rfl⟩
  exact ⟨⟨_, hvalid⟩, String.ofList front, htext, rfl⟩

theorem BeginsAt.lt {text : String} {p q : text.Pos} {piece rest : List Char}
    (hp : BeginsAt p (piece ++ rest)) (hq : BeginsAt q rest) (hne : piece ≠ []) : p < q := by
  obtain ⟨front, hp⟩ := hp
  obtain ⟨front', hq⟩ := hq
  have hpos : (String.ofList piece).utf8ByteSize ≠ 0 := by
    rw [Ne, String.utf8ByteSize_eq_zero_iff, ← String.toList_eq_nil_iff, String.toList_ofList]
    exact hne
  rw [String.Pos.lt_iff_remainingBytes_lt, hp.remainingBytes_eq, hq.remainingBytes_eq,
    String.ofList_append, String.utf8ByteSize_append]
  omega

section Consuming

variable {σ : Type} {R : σ → σ → Prop} {left : σ → List Char} {s t start : σ} {text : String}

/-- Every round takes a piece off the front of what is left. -/
def Consumes (R : σ → σ → Prop) (left : σ → List Char) : Prop :=
  ∀ s t, R s t → ∃ piece, piece ≠ [] ∧ left s = piece ++ left t

/-- The rounds of a loop over a text stay within it, from one whole character to another, and go
forward. -/
structure GoesForward (R : σ → σ → Prop) (left : σ → List Char) (start : σ) (text : String) :
    Prop where
  within : ∀ s, ReflTransGen R start s → ∃ p : text.Pos, BeginsAt p (left s)
  forward : ∀ s t, TransGen R s t → ∀ p q : text.Pos,
    BeginsAt p (left s) → BeginsAt q (left t) → p < q

theorem Consumes.length_lt (h : Consumes R left) (hst : R s t) :
    (left t).length < (left s).length := by
  obtain ⟨piece, hne, hpiece⟩ := h s t hst
  rw [hpiece, List.length_append]
  exact Nat.lt_add_of_pos_left (List.length_pos_iff.mpr hne)

theorem Consumes.suffix (h : Consumes R left) (hst : ReflTransGen R s t) :
    left t <:+ left s := by
  induction hst with
  | refl => exact List.suffix_refl _
  | tail _ hround ih =>
    obtain ⟨piece, -, hpiece⟩ := h _ _ hround
    exact .trans ⟨piece, hpiece.symm⟩ ih

theorem Consumes.exists_piece (h : Consumes R left) (hst : TransGen R s t) :
    ∃ piece, piece ≠ [] ∧ left s = piece ++ left t := by
  induction hst with
  | single hround => exact h _ _ hround
  | tail _ hround ih =>
    obtain ⟨piece, hne, hpiece⟩ := ih
    obtain ⟨more, -, hmore⟩ := h _ _ hround
    refine ⟨piece ++ more, ?_, by rw [hpiece, hmore, List.append_assoc]⟩
    exact List.append_ne_nil_of_left_ne_nil hne more

theorem Consumes.goesForward (h : Consumes R left) (hstart : left start = text.toList) :
    GoesForward R left start text where
  within s hs := exists_beginsAt (hstart ▸ h.suffix hs)
  forward s t hst p q hp hq := by
    obtain ⟨piece, hne, hpiece⟩ := h.exists_piece hst
    rw [hpiece] at hp
    exact hp.lt hq hne

end Consuming

/-! What a step reads. -/

namespace Stage

/-- The pieces of text that are read at once in each stage, and the stage that comes next. A piece
goes up to its own end, so that nothing is skipped behind it. -/
inductive Reads : Stage → List Char → Stage → Prop where
  | misc {stage piece} (hstage : ∀ e outer, stage ≠ .startTag e outer) (hne : piece ≠ [])
      (hpiece : Misc piece) : Reads stage piece stage
  | doctype {body} (hopen : "<!DOCTYPE".toList <+: body) (hbody : EndsAtAngle body) :
      Reads (.prolog true) (body ++ ['>']) (.prolog false)
  | root {doctypeAllowed name line} (hname : IsName name) :
      Reads (.prolog doctypeAllowed) ('<' :: name)
        (.startTag { name := String.ofList name, line := line } [])
  | keyValue {e outer blanks raw key value} (hne : blanks ≠ []) (hblanks : IsSpaces blanks)
      (hraw : AttributeLayout raw key value) :
      Reads (.startTag e outer) (blanks ++ raw) (.startTag (e.addAttribute key value) outer)
  | voidTag {e outer blanks} (hblanks : IsSpaces blanks) :
      Reads (.startTag e outer) (blanks ++ ['/', '>']) (afterElement e outer)
  | startTag {e outer blanks} (hblanks : IsSpaces blanks) :
      Reads (.startTag e outer) (blanks ++ ['>']) (.content e outer)
  | endTag {e outer close} (hclose : SpellsEndTag close e.name) :
      Reads (.content e outer) ('<' :: '/' :: close) (afterElement e outer)
  | data {e outer data} (hdata : ¬ "]]>".toList <:+: data) :
      Reads (.content e outer) ("<![CDATA[".toList ++ (data ++ "]]>".toList))
        (.content (e.addText (String.ofList data)) outer)
  | child {e outer name line} (hlevel : outer.length + 1 ≠ maxDepth) (hname : IsName name) :
      Reads (.content e outer) ('<' :: name)
        (.startTag { name := String.ofList name, line := line } (e :: outer))
  | text {e outer raw text} (hne : raw ≠ []) (hangle : '<' ∉ raw)
      (htext : decodeReferences raw = .ok text) :
      Reads (.content e outer) raw (.content (e.addText (String.ofList text)) outer)

variable {stage stage' : Stage} {c d : Cursor} {piece : List Char}

theorem ne_nil_of_passes (h : stage.step c = .ok (.next stage' d)) (hpasses : c.Passes piece d) :
    piece ≠ [] := by
  rintro rfl
  have hlength := length_step h
  rw [hpasses.1, List.nil_append] at hlength
  exact Nat.lt_irrefl _ hlength

theorem reads_misc (h : stage.step c = .ok (.next stage d))
    (hstage : ∀ e outer, stage ≠ .startTag e outer) (hpasses : c.Passes piece d)
    (hpiece : ∀ misc, Misc misc → Misc (piece ++ misc)) : Reads stage piece stage := by
  have hmisc := hpiece [] .nil
  rw [List.append_nil] at hmisc
  exact .misc hstage (ne_nil_of_passes h hpasses) hmisc

theorem exists_reads (h : stage.step c = .ok (.next stage' d)) :
    ∃ piece, Reads stage piece stage' ∧ c.Passes piece d := by
  cases stage with
  | prolog doctypeAllowed =>
    rcases stepProlog_cases h with ⟨rfl, piece, hpasses, hpiece⟩ | ⟨rfl, rfl, hstarts, hskip⟩ |
      ⟨name, c₁, hname, hangle, hpasses, rfl⟩
    · exact ⟨piece, reads_misc h (by rintro _ _ ⟨⟩) hpasses hpiece, hpasses⟩
    · obtain ⟨body, hbody, hpasses⟩ := Cursor.skipDoctype_eq_ok.mp hskip
      exact ⟨_, .doctype (doctype_opened hstarts hpasses) hbody, hpasses⟩
    · exact ⟨_, .root hname, hangle.trans hpasses⟩
  | startTag e outer =>
    rcases stepStartTag_passes h with ⟨blanks, hblanks, hpasses, rfl⟩ |
      ⟨blanks, hblanks, hpasses, rfl⟩ |
      ⟨blanks, raw, key, value, hne, hblanks, hraw, hpasses, -, rfl⟩
    · exact ⟨_, .voidTag hblanks, hpasses⟩
    · exact ⟨_, .startTag hblanks, hpasses⟩
    · exact ⟨_, .keyValue hne hblanks hraw, hpasses⟩
  | content e outer =>
    rcases stepContent_passes h with ⟨rfl, close, hclose, hpasses⟩ |
      ⟨rfl, piece, hpiece, hpasses⟩ | ⟨data, hdata, hpasses, rfl⟩ |
      ⟨hlevel, name, c₁, hname, hangle, hpasses, rfl⟩ | ⟨raw, text, hangle, htext, hpasses, rfl⟩
    · exact ⟨_, .endTag hclose, hpasses⟩
    · exact ⟨piece, reads_misc h (by rintro _ _ ⟨⟩) hpasses fun _ => hpiece.misc, hpasses⟩
    · exact ⟨_, .data hdata, hpasses⟩
    · exact ⟨_, .child hlevel hname, hangle.trans hpasses⟩
    · exact ⟨raw, .text (ne_nil_of_passes h hpasses) hangle htext, hpasses⟩
  | epilog root =>
    obtain ⟨rfl, piece, hpasses, hpiece⟩ := stepEpilog_passes h
    exact ⟨piece, reads_misc h (by rintro _ _ ⟨⟩) hpasses hpiece, hpasses⟩

theorem Reads.ne_nil (h : Reads stage piece stage') : piece ≠ [] := by
  cases h with
  | misc _ hne => exact hne
  | doctype => exact List.append_ne_nil_of_right_ne_nil _ (List.cons_ne_nil _ _)
  | root => exact List.cons_ne_nil _ _
  | keyValue hne => exact List.append_ne_nil_of_left_ne_nil hne _
  | voidTag => exact List.append_ne_nil_of_right_ne_nil _ (List.cons_ne_nil _ _)
  | startTag => exact List.append_ne_nil_of_right_ne_nil _ (List.cons_ne_nil _ _)
  | endTag => exact List.cons_ne_nil _ _
  | data => exact List.append_ne_nil_of_left_ne_nil (by decide) _
  | child => exact List.cons_ne_nil _ _
  | text hne => exact hne

def depth : Stage → Nat
  | prolog _ => 0
  | startTag _ outer => outer.length + 1
  | content _ outer => outer.length + 1
  | epilog _ => 0

theorem depth_afterElement (e : OpenElement) (outer : List OpenElement) :
    (afterElement e outer).depth = outer.length := by
  cases outer <;> rfl

theorem Reads.depth_le (h : Reads stage piece stage') (hdepth : stage.depth ≤ maxDepth) :
    stage'.depth ≤ maxDepth := by
  cases h with
  | misc | keyValue | startTag | data | text => exact hdepth
  | doctype => exact Nat.zero_le _
  | root => exact (by decide : 1 ≤ maxDepth)
  | voidTag | endTag =>
    rw [depth_afterElement]
    exact Nat.le_of_succ_le hdepth
  | child hlevel => exact Nat.succ_le_of_lt (Nat.lt_of_le_of_ne hdepth hlevel)

end Stage

/-! The reader. -/

/-- Where the reader is: in a stage of the document and at a place in the text. -/
abbrev Place := Stage × Cursor

namespace Place

variable {s t : Place}

/-- The text that is read: a byte-order mark in front does not belong to it. -/
def document (text : String) : String := String.ofList (dropByteOrderMark text.toList)

def start (text : String) : Place := (.prolog true, { rest := (document text).toList })

def Advances (s t : Place) : Prop := s.1.step s.2 = .ok (.next t.1 t.2)

def Returns (s : Place) (result : Except Error Element) : Prop :=
  (∃ e, s.1.step s.2 = .error e ∧ result = .error e) ∨
    ∃ root, s.1.step s.2 = .ok (.done root) ∧ result = .ok root

theorem length_start_le (text : String) : (start text).2.rest.length ≤ text.length := by
  obtain ⟨mark, -, htext⟩ := exists_byteOrderMark text.toList
  have hlength := congrArg List.length htext
  rw [List.length_append, String.length_toList] at hlength
  change (String.ofList (dropByteOrderMark text.toList)).toList.length ≤ text.length
  rw [String.toList_ofList]
  omega

theorem readDocument_eq_run (text : String) :
    readDocument text = (start text).1.run (start text).2 := by
  rw [readDocument, start, document, String.toList_ofList]

theorem consumes_advances : Consumes Advances fun s => s.2.rest := by
  intro s t h
  obtain ⟨piece, hreads, hpasses⟩ := Stage.exists_reads h
  exact ⟨piece, hreads.ne_nil, hpasses.1⟩

theorem depth_le_of_reached {text : String} (h : ReflTransGen Advances (start text) s) :
    s.1.depth ≤ maxDepth := by
  induction h with
  | refl => exact Nat.zero_le _
  | tail _ hstep ih =>
    obtain ⟨piece, hreads, -⟩ := Stage.exists_reads hstep
    exact hreads.depth_le ih

theorem exists_passes (h : ReflTransGen Advances s t) : ∃ piece, s.2.Passes piece t.2 := by
  induction h with
  | refl => exact ⟨[], rfl, rfl⟩
  | tail _ hstep ih =>
    obtain ⟨piece, hpiece⟩ := ih
    obtain ⟨more, -, hmore⟩ := Stage.exists_reads hstep
    exact ⟨piece ++ more, hpiece.trans hmore⟩

/-- The reader counts lines as it goes forward, and wherever it comes to, this is the line that the
table of lines has for the position. -/
theorem line_of_reached {text : String} (h : ReflTransGen Advances (start text) s)
    {p : (document text).Pos} (hp : BeginsAt p s.2.rest) :
    s.2.line = (LineTable.ofText (document text)).lineAt p.offset.byteIdx := by
  obtain ⟨piece, hrest, hline⟩ := exists_passes h
  obtain ⟨front, hsplits⟩ := hp
  have hfront : front.toList = piece := by
    have hcut := congrArg String.toList hsplits.eq_append
    rw [String.toList_append, String.toList_ofList] at hcut
    exact List.append_cancel_right (hcut.symm.trans hrest)
  have hposition : p.offset.byteIdx = front.utf8ByteSize :=
    congrArg String.Pos.Raw.byteIdx hsplits.offset_eq_rawEndPos
  rw [hposition, hsplits.eq_append, LineTable.lineAt_ofText, hline, hfront]
  rfl

theorem exists_returns (s : Place) :
    ∃ t, ReflTransGen Advances s t ∧ Returns t (s.1.run s.2) := by
  induction hn : s.2.rest.length using Nat.strongRecOn generalizing s with
  | ind n ih =>
    rw [Stage.run_eq]
    split
    · rename_i e he
      exact ⟨s, .refl, .inl ⟨e, he, rfl⟩⟩
    · rename_i root hroot
      exact ⟨s, .refl, .inr ⟨root, hroot, rfl⟩⟩
    · rename_i stage d hstep
      have hadvances : s.Advances (stage, d) := hstep
      obtain ⟨t, ht, hreturns⟩ := ih _ (hn ▸ Stage.length_step hstep) (stage, d) rfl
      exact ⟨t, .head hadvances ht, hreturns⟩

end Place

/-! Decoding of references. -/

/-- One round of decoding: the text up to the end of the next reference, which is replaced, and what
is left to decode; or all of the text if there is no reference. -/
def decodeRound (raw : List Char) : Except (List Char) (List Char × Option (List Char)) :=
  match Text.splitAtFirst '&' raw with
  | (front, none) => .ok (front, none)
  | (front, some after) =>
    match Text.splitAtFirst ';' after with
    | (_, none) => .error (after.take 8)
    | (body, some rest) =>
      match resolveReference? body with
      | some c => .ok (front ++ [c], some rest)
      | none => .error body

def decodeFor : Nat → List Char → Option (Except (List Char) (List Char))
  | 0, _ => none
  | n + 1, raw =>
    match decodeRound raw with
    | .error body => some (.error body)
    | .ok (out, none) => some (.ok out)
    | .ok (out, some rest) => (decodeFor n rest).map fun decoded => decoded.map (out ++ ·)

def DecodesOn (raw rest : List Char) : Prop := ∃ out, decodeRound raw = .ok (out, some rest)

theorem decodeReferences_append {front : List Char} (h : '&' ∉ front) (cs : List Char) :
    decodeReferences (front ++ cs) = (decodeReferences cs).map (front ++ ·) := by
  induction front with
  | nil => cases hcs : decodeReferences cs <;> rw [List.nil_append, hcs] <;> rfl
  | cons c front ih =>
    rw [List.mem_cons, not_or] at h
    have hstep : decodeReferences (c :: (front ++ cs)) =
        (decodeReferences (front ++ cs)).map (c :: ·) := by
      rw [decodeReferences, decodeReferencesFrom, if_neg (Ne.symm h.1)]
      rfl
    rw [List.cons_append, hstep, ih h.2]
    cases decodeReferences cs <;> rfl

theorem decodeReferencesFrom_append {body : List Char} (h : ';' ∉ body) (read cs : List Char) :
    decodeReferencesFrom (some read) (body ++ cs) =
      decodeReferencesFrom (some (body.reverse ++ read)) cs := by
  induction body generalizing read with
  | nil => rfl
  | cons b body ih =>
    rw [List.mem_cons, not_or] at h
    rw [List.cons_append, decodeReferencesFrom, if_neg (Ne.symm h.1), ih h.2, List.reverse_cons,
      List.append_assoc, List.singleton_append]

theorem decodeReferences_unclosed {after : List Char} (h : ';' ∉ after) :
    decodeReferences ('&' :: after) = .error (after.take 8) := by
  have hall := decodeReferencesFrom_append h [] []
  rw [List.append_nil, List.append_nil] at hall
  calc decodeReferences ('&' :: after) = decodeReferencesFrom (some []) after := rfl
    _ = .error (after.reverse.reverse.take 8) := hall
    _ = .error (after.take 8) := by rw [List.reverse_reverse]

theorem decodeReferences_closed {body : List Char} (h : ';' ∉ body) (rest : List Char) :
    decodeReferences ('&' :: (body ++ ';' :: rest)) = match resolveReference? body with
      | some c => (decodeReferences rest).map (c :: ·)
      | none => .error body := by
  have hall := decodeReferencesFrom_append h [] (';' :: rest)
  rw [List.append_nil, decodeReferencesFrom, if_pos rfl, List.reverse_reverse] at hall
  exact hall

theorem decodeReferences_round (raw : List Char) :
    decodeReferences raw = match decodeRound raw with
      | .error body => .error body
      | .ok (out, none) => .ok out
      | .ok (out, some rest) => (decodeReferences rest).map (out ++ ·) := by
  by_cases hmark : '&' ∈ raw
  · obtain ⟨front, after, rfl, hfront⟩ := List.eq_append_cons_of_mem hmark
    rw [decodeReferences_append hfront, decodeRound, Text.splitAtFirst_of_mem hfront]
    by_cases hclosed : ';' ∈ after
    · obtain ⟨body, rest, rfl, hbody⟩ := List.eq_append_cons_of_mem hclosed
      rw [decodeReferences_closed hbody]
      simp only [Text.splitAtFirst_of_mem hbody]
      cases resolveReference? body with
      | none => rfl
      | some c =>
        change ((decodeReferences rest).map (c :: ·)).map (front ++ ·) =
          (decodeReferences rest).map (front ++ [c] ++ ·)
        cases decodeReferences rest with
        | error body => rfl
        | ok out => exact congrArg Except.ok (List.append_cons front c out)
    · rw [decodeReferences_unclosed hclosed]
      simp only [Text.splitAtFirst_of_not_mem hclosed]
      rfl
  · have hplain := decodeReferences_append hmark []
    rw [List.append_nil] at hplain
    rw [hplain, decodeRound, Text.splitAtFirst_of_not_mem hmark]
    exact congrArg Except.ok (List.append_nil raw)

theorem consumes_decodesOn : Consumes DecodesOn id := by
  rintro raw rest ⟨out, h⟩
  rw [decodeRound.eq_def] at h
  split at h
  · cases h
  · rename_i front after hfront
    obtain ⟨-, rfl⟩ := Text.splitAtFirst_eq_some hfront
    split at h
    · cases h
    · rename_i body rest' hbody
      obtain ⟨-, rfl⟩ := Text.splitAtFirst_eq_some hbody
      split at h
      · cases h
        exact ⟨front ++ '&' :: (body ++ [';']), by simp, by simp⟩
      · cases h

theorem decodeFor_eq {n : Nat} {raw : List Char} (h : raw.length < n) :
    decodeFor n raw = some (decodeReferences raw) := by
  induction n generalizing raw with
  | zero => omega
  | succ n ih =>
    rw [decodeFor, decodeReferences_round raw]
    split
    · rfl
    · rfl
    · rename_i out rest hround
      have hlength : rest.length < raw.length := consumes_decodesOn.length_lt ⟨out, hround⟩
      rw [ih (by omega)]
      rfl

/-- Every text is read to an end. The reader goes forward from one character to a later one and
never out of the text; every step that is not the last reads a whole piece of it; there are never
more open elements than may be; and the reader comes to a place where it returns its result, for
which as many steps as the text has characters, and one more, are enough. The decoding of references
goes forward and comes to an end in the same way. -/
theorem reading_ends (text : String) :
    GoesForward Place.Advances (fun s => s.2.rest) (Place.start text) (Place.document text) ∧
    (∀ s, ReflTransGen Place.Advances (Place.start text) s → s.1.depth ≤ maxDepth ∧
      ∀ t, s.Advances t → ∃ piece, piece ≠ [] ∧ Stage.Reads s.1 piece t.1 ∧
        s.2.Passes piece t.2) ∧
    (∃ s, ReflTransGen Place.Advances (Place.start text) s ∧ s.Returns (readDocument text)) ∧
    (∀ n, text.length < n →
      Stage.runFor n (Place.start text).1 (Place.start text).2 = some (readDocument text)) ∧
    ∀ raw : String, GoesForward DecodesOn id raw.toList raw ∧
      ∀ n, raw.length < n → decodeFor n raw.toList = some (decodeReferences raw.toList) := by
  refine ⟨?_, fun s hs => ⟨Place.depth_le_of_reached hs, fun t ht => ?_⟩, ?_, fun n hn => ?_,
    fun raw => ⟨consumes_decodesOn.goesForward rfl, fun n => decodeFor_eq⟩⟩
  · exact Place.consumes_advances.goesForward rfl
  · obtain ⟨piece, hreads, hpasses⟩ := Stage.exists_reads ht
    exact ⟨piece, hreads.ne_nil, hreads, hpasses⟩
  · rw [Place.readDocument_eq_run]
    exact Place.exists_returns (Place.start text)
  · rw [Place.readDocument_eq_run]
    exact Stage.runFor_eq_some_run (Nat.lt_of_le_of_lt (Place.length_start_le text) hn)

/-- The element is not closed, and the name and the reference are of characters of two bytes. -/
theorem open_element_read :
    let start := Place.start "<ž>&#382;é"
    let opened : Place := (.startTag { name := "ž", line := 1 } [], { rest := ">&#382;é".toList })
    start.Advances opened ∧
    (∃ p q : (Place.document "<ž>&#382;é").Pos,
      BeginsAt p start.2.rest ∧ BeginsAt q opened.2.rest ∧ p < q) ∧
    opened.1.depth ≤ maxDepth ∧ (∃ piece, Stage.Reads start.1 piece opened.1) ∧
    Stage.runFor 11 start.1 start.2 = some (readDocument "<ž>&#382;é") ∧
    DecodesOn "&#382;é".toList ['é'] ∧
    (∃ p q : String.Pos "&#382;é", BeginsAt p "&#382;é".toList ∧ BeginsAt q ['é'] ∧ p < q) ∧
    decodeFor 8 "&#382;é".toList = some (decodeReferences "&#382;é".toList) := by
  intro start opened
  have hopened : start.Advances opened := rfl
  have hdecodes : DecodesOn "&#382;é".toList ['é'] := ⟨['ž'], rfl⟩
  obtain ⟨hforward, hreached, -, hfuel, hdecoding⟩ := reading_ends "<ž>&#382;é"
  obtain ⟨hforward', hfuel'⟩ := hdecoding "&#382;é"
  obtain ⟨piece, -, hreads, -⟩ := (hreached start .refl).2 opened hopened
  obtain ⟨p, hp⟩ := hforward.within start .refl
  obtain ⟨q, hq⟩ := hforward.within opened (.single hopened)
  obtain ⟨p', hp'⟩ := hforward'.within _ .refl
  obtain ⟨q', hq'⟩ := hforward'.within _ (.single hdecodes)
  exact ⟨hopened, ⟨p, q, hp, hq, hforward.forward _ _ (.single hopened) p q hp hq⟩,
    (hreached opened (.single hopened)).1, ⟨piece, hreads⟩, hfuel 11 (by decide), hdecodes,
    ⟨p', q', hp', hq', hforward'.forward _ _ (.single hdecodes) p' q' hp' hq'⟩,
    hfuel' 8 (by decide)⟩

end ThreeAddress.Markup
