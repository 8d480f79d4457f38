import ThreeAddress.Proofs.FloatText
import ThreeAddress.Proofs.ProgramStore
import ThreeAddress.Proofs.Rendering
import ThreeAddress.Source

/-! Programs as markup, and that loading what was printed gives the program back. -/

namespace ThreeAddress

namespace Markup

def entity? (c : Char) : Option String :=
  if c = '&' then some "amp"
  else if c = '<' then some "lt"
  else if c = '>' then some "gt"
  else if c = '"' then some "quot"
  else if c = Char.ofNat 39 then some "apos"
  else none

def escapeChar (c : Char) : List Char :=
  match entity? c with
  | some name => '&' :: name.toList ++ [';']
  | none => [c]

def escape (cs : List Char) : List Char := cs.flatMap escapeChar

def printAttribute (key value : String) : List Char :=
  ' ' :: key.toList ++ '=' :: '"' :: escape value.toList ++ ['"']

def printElement (name : String) (attributes : List (String × String)) (inner : List Char) :
    List Char :=
  '<' :: name.toList ++ attributes.flatMap (fun a => printAttribute a.1 a.2) ++ '>' :: inner ++
    '<' :: '/' :: name.toList ++ ['>']

end Markup

open Markup

def Text.protect (cs : List Char) : List Char :=
  cs.flatMap fun c => if c = '\\' then "\\092".toList else [c]

def Operand.sourceText : Operand → String
  | var v => v.render
  | const .nil => "nil"
  | const (.bool b) => if b then "true" else "false"
  | const (.int n) => toString n.toInt
  | const (.float x) => x.render
  | const (.string s) => String.ofList (Text.protect s.toList)
  | label name => name
  | type tag => tag.name

def Source.argumentName (position : Nat) : String := s!"arg{position}"

def Instruction.printArgument (i : Instruction) (position : Nat) : List Char :=
  match i.get? position with
  | some a =>
    printElement (Source.argumentName position) [("type", a.kind)] (escape a.sourceText.toList)
  | none => []

def Source.attributesOf (i : Instruction) : List (String × String) :=
  [("order", toString i.order.toInt), ("opcode", i.opcode.mnemonic)]

def Instruction.print (i : Instruction) : List Char :=
  printElement "instruction" (Source.attributesOf i) ([1, 2, 3].flatMap i.printArgument)

def Source.print (is : List Instruction) : String :=
  String.ofList (printElement "program" [("language", language)] (is.flatMap Instruction.print))

/-- An operand that its text denotes: blanks around names are lost, and so are the bits of NaNs. -/
def Operand.Printable : Operand → Prop
  | var v => v.name ≠ "" ∧ ∀ c, v.name.toList.getLast? = some c → Text.isBlank c = false
  | label name => name ≠ "" ∧ (∀ c, name.toList.head? = some c → Text.isBlank c = false) ∧
      ∀ c, name.toList.getLast? = some c → Text.isBlank c = false
  | const (.float x) => x.isNaN = false
  | _ => True

/-! Texts of operands. -/

theorem Text.decodeEscapesFrom_protect (cs : List Char) (position : Nat) :
    decodeEscapesFrom position (protect cs) = .ok cs := by
  induction cs generalizing position with
  | nil => rfl
  | cons c cs ih =>
    by_cases hc : c = '\\'
    · subst hc
      change (decodeEscapesFrom (position + 4) (protect cs)).map ('\\' :: ·) = _
      rw [ih]
      rfl
    · have hcons : protect (c :: cs) = c :: protect cs := by simp [protect, hc]
      rw [hcons, decodeEscapesFrom_cons hc, ih]
      rfl

theorem FrameKind.ofName?_name (kind : FrameKind) : ofName? kind.name.toList = some kind := by
  cases kind <;> rfl

theorem Opcode.ofMnemonic?_mnemonic (opcode : Opcode) :
    ofMnemonic? opcode.mnemonic.toList = some opcode := by
  cases opcode <;> rfl

theorem Variable.trim_render {v : Variable} (hname : v.name ≠ "")
    (hend : ∀ c, v.name.toList.getLast? = some c → Text.isBlank c = false) :
    Text.trim v.render.toList = v.render.toList := by
  apply Text.trim_of_ends
  · intro c hc
    cases hk : v.frame <;> simp [render, FrameKind.name, hk] at hc <;> subst hc <;> decide
  · intro c hc
    have hne : v.name.toList ≠ [] := by simpa using hname
    have hlast := List.getLast?_eq_some_getLast hne
    rw [render, String.toList_append, List.getLast?_append, hlast, Option.some_or] at hc
    exact hend c (hlast.trans hc)

theorem Variable.parse?_render {v : Variable} (hname : v.name ≠ "")
    (hend : ∀ c, v.name.toList.getLast? = some c → Text.isBlank c = false) :
    parse? v.render.toList = some v := by
  have hframe : '@' ∉ v.frame.name.toList := by cases v.frame <;> decide
  have hsplit : Text.splitAtFirst '@' v.render.toList =
      (v.frame.name.toList, some v.name.toList) := by
    simpa [render] using Text.splitAtFirst_of_mem hframe
  have hne : v.name.toList ≠ [] := by simpa using hname
  obtain ⟨c, rest, hcons⟩ := List.exists_cons_of_ne_nil hne
  rw [parse?, trim_render hname hend, hsplit, hcons]
  simp [FrameKind.ofName?_name, ← hcons]

theorem Operand.folded_kind (a : Operand) :
    String.ofList ((Text.trim a.kind.toList).map Char.toLower) = a.kind := by
  have hwords : ∀ word ∈ ["var", "label", "type", "nil", "bool", "int", "float", "string"],
      String.ofList ((Text.trim word.toList).map Char.toLower) = word := by
    decide
  apply hwords
  cases a with
  | const value => cases value <;> simp [kind, Value.tag, TypeTag.name]
  | var v | label name | type tag => simp [kind]

theorem Source.operand_sourceText {a : Operand} (h : a.Printable) (line : Nat) :
    operand a.kind a.sourceText line = .ok a := by
  simp only [operand, a.folded_kind]
  cases a with
  | var v =>
    simp only [Operand.kind, Operand.sourceText, Variable.trim_render h.1 h.2,
      Variable.parse?_render h.1 h.2, Option.map_some]
  | label name =>
    have hne : name.toList ≠ [] := by simpa using h.1
    simp only [Operand.kind, Operand.sourceText, Text.trim_of_ends h.2.1 h.2.2, if_neg hne,
      String.ofList_toList]
  | type tag => cases tag <;> rfl
  | const value =>
    simp only [Operand.kind, Value.tag, TypeTag.name]
    cases value with
    | nil => rfl
    | bool b => cases b <;> rfl
    | int n =>
      simp only [Operand.sourceText, Text.trim_toString, Text.int64?_toString, Option.map_some]
    | float x =>
      have htrim : Text.trim x.render.toList = x.render.toList :=
        Text.trim_of_not_blank fun c hc => (Binary64.plain_of_mem_render h hc).1
      simp only [Operand.sourceText, htrim, Binary64.parse?_render h, Option.map_some]
    | string s =>
      simp only [Operand.sourceText, Text.decodeEscapes_eq, String.toList_ofList,
        Text.decodeEscapesFrom_protect, Except.map, Except.toOption, Option.map_some,
        String.ofList_toList]

/-! Elements. -/

namespace Markup

/-- A reference is written with letters only, and stands for its character. -/
theorem entity?_eq_some {c : Char} {name : String} (h : entity? c = some name) :
    (∀ d ∈ name.toList, entity? d = none) ∧ Denotes name.toList c := by
  unfold entity? at h
  repeat' split at h
  all_goals cases h
  all_goals
    subst_vars
    exact ⟨by simp [entity?], by constructor⟩

theorem spells_escape (cs : List Char) : Spells (escape cs) cs := by
  induction cs with
  | nil => exact .nil
  | cons c cs ih =>
    have hcons : escape (c :: cs) = escapeChar c ++ escape cs := rfl
    rw [hcons, escapeChar]
    cases hc : entity? c with
    | none =>
      refine .plain ?_ ih
      rintro rfl
      nomatch hc
    | some name =>
      have hspells := Spells.reference (entity?_eq_some hc).2 ih
      simpa using hspells

/-- No character that has a reference stands in an escaped text, but for the ampersand. -/
theorem not_mem_escape {d : Char} (hd : entity? d ≠ none) (hne : d ≠ '&') (cs : List Char) :
    d ∉ escape cs := by
  intro h
  obtain ⟨c, -, hc⟩ := List.mem_flatMap.mp h
  rw [escapeChar] at hc
  cases he : entity? c with
  | none =>
    rw [he] at hc
    obtain rfl := List.mem_singleton.mp hc
    exact hd he
  | some name =>
    simp only [he, List.mem_append, List.mem_cons, List.not_mem_nil, or_false] at hc
    rcases hc with (rfl | hc) | rfl
    · exact hne rfl
    · exact hd ((entity?_eq_some he).1 d hc)
    · exact hd (by decide)

theorem spellsAttributes_print {attributes : List (String × String)}
    (h : ∀ a ∈ attributes, IsName a.1.toList) :
    SpellsAttributes (attributes.flatMap fun a => printAttribute a.1 a.2) attributes := by
  induction attributes with
  | nil => exact .nil
  | cons a attributes ih =>
    have hraw : '"' ∉ escape a.2.toList := not_mem_escape (by decide) (by decide) _
    have hangle : '<' ∉ escape a.2.toList := not_mem_escape (by decide) (by decide) _
    have hblank : IsSpaces [' '] := by simp [IsSpaces]; decide
    have hnone : IsSpaces [] := by simp [IsSpaces]
    have hvalue := SpellsQuoted.mk (.inl rfl) hraw hangle (spells_escape a.2.toList)
    have hspells := SpellsAttributes.cons (by simp) hblank (.mk (h a (by simp)) hnone hnone hvalue)
      (ih fun b hb => h b (by simp [hb]))
    simpa [printAttribute] using hspells

structure IsTag (name : String) (attributes : List (String × String)) : Prop where
  isName : IsName name.toList
  isKey : ∀ a ∈ attributes, IsName a.1.toList
  distinct : (attributes.map Prod.fst).Nodup

section Element

variable {name : String} {attributes : List (String × String)} {inner text : List Char}
  {P Q : List Element → Prop}

theorem spellsTag_print (h : IsTag name attributes) :
    SpellsTag ['>'] (name.toList ++ (attributes.flatMap (fun a => printAttribute a.1 a.2) ++ ['>']))
      name attributes := by
  have hspells := @SpellsTag.mk ['>'] _ _ _ [] h.isName (spellsAttributes_print h.isKey) h.distinct
    (by simp [IsSpaces])
  simpa using hspells

theorem spellsEndTag_print (hname : IsName name.toList) :
    SpellsEndTag (name.toList ++ ['>']) name := by
  have hspells := SpellsEndTag.mk hname (show IsSpaces [] by simp [IsSpaces])
  simpa using hspells

theorem spellsContent_escape (line : Nat) (cs : List Char) :
    SpellsContent line (escape cs) cs [] := by
  have hspells := SpellsContent.text (not_mem_escape (by decide) (by decide) cs) (spells_escape cs)
    (@SpellsContent.nil (line + (escape cs).count '\n'))
  simpa using hspells

theorem spellsElement_print {line : Nat} {children : List Element} (h : IsTag name attributes)
    (hinner : SpellsContent (line + (name.toList ++ (attributes.flatMap
      (fun a => printAttribute a.1 a.2) ++ ['>'])).count '\n') inner text children) :
    ∃ raw, printElement name attributes inner = '<' :: raw ∧
      SpellsElement line raw ⟨name, attributes, String.ofList text, children, line⟩ := by
  have hspells := SpellsElement.tags (spellsTag_print h) (spellsEndTag_print h.isName) hinner
  exact ⟨_, by simp [printElement], hspells⟩

theorem spellsContent_print {rest restText : List Char} (h : IsTag name attributes)
    (hinner : ∀ line, ∃ children, SpellsContent line inner text children ∧ P children)
    (hrest : ∀ line, ∃ siblings, SpellsContent line rest restText siblings ∧ Q siblings)
    (line : Nat) :
    ∃ children siblings, SpellsContent line (printElement name attributes inner ++ rest)
        restText (⟨name, attributes, String.ofList text, children, line⟩ :: siblings) ∧
      P children ∧ Q siblings := by
  obtain ⟨children, hchildren, hp⟩ := hinner _
  obtain ⟨raw, hprint, hraw⟩ := spellsElement_print h hchildren
  obtain ⟨siblings, hsiblings, hq⟩ := hrest (line + raw.count '\n')
  refine ⟨children, siblings, ?_, hp, hq⟩
  rw [hprint]
  exact .child hraw hsiblings

/-- A printed element is read back, with the lines that its children stand on. -/
theorem readDocument_print (h : IsTag name attributes)
    (hinner : ∀ line, ∃ children, SpellsContent line inner text children ∧
      Element.depthAll children < maxDepth ∧ P children) :
    ∃ children, readDocument (String.ofList (printElement name attributes inner)) =
        .ok ⟨name, attributes, String.ofList text, children, 1⟩ ∧ P children := by
  obtain ⟨children, hchildren, hdepth, hp⟩ := hinner _
  obtain ⟨raw, hprint, hraw⟩ := spellsElement_print h hchildren
  refine ⟨children, ?_, hp⟩
  rw [hprint]
  exact readDocument_element hraw (by rw [Element.depth]; omega)

end Element

end Markup

/-! Instructions. -/

namespace Source

theorem position?_argumentName {position : Nat} (h : position ∈ [1, 2, 3]) :
    position? (argumentName position) = some position := by
  revert position
  decide

theorem isTag_argument {position : Nat} (h : position ∈ [1, 2, 3]) (kind : String) :
    IsTag (argumentName position) [("type", kind)] where
  isName := by
    revert position
    decide
  isKey := by
    simp only [List.mem_singleton, forall_eq]
    decide
  distinct := by simp

theorem addArgument_print {j : Instruction} {position : Nat} {a : Operand} {line : Nat}
    (hposition : position ∈ [1, 2, 3]) (ha : a.Printable) (hj : j.get? position = none) :
    addArgument j ⟨argumentName position, [("type", a.kind)], a.sourceText, [], line⟩ =
      .ok (j.set position a) := by
  have hkind : required ⟨argumentName position, [("type", a.kind)], a.sourceText, [], line⟩ "type" =
      .ok a.kind := rfl
  simp only [addArgument, position?_argumentName hposition, hj, hkind, operand_sourceText ha,
    Option.isSome_none, Bool.false_eq_true, if_false, bind, Except.bind, pure, Except.pure]

def copyOperand (i j : Instruction) (position : Nat) : Instruction :=
  match i.get? position with
  | some a => j.set position a
  | none => j

theorem spellsContent_arguments {i : Instruction}
    (h : ∀ position a, i.get? position = some a → a.Printable) (positions : List Nat)
    (hpositions : ∀ position ∈ positions, position ∈ [1, 2, 3]) (hnodup : positions.Nodup)
    (line : Nat) :
    ∃ children, SpellsContent line (positions.flatMap i.printArgument) [] children ∧
      Element.depthAll children ≤ 1 ∧
      ∀ j : Instruction, (∀ position ∈ positions, j.get? position = none) →
        children.foldlM addArgument j = .ok (positions.foldl (copyOperand i) j) := by
  induction positions generalizing line with
  | nil => exact ⟨[], .nil, Nat.zero_le 1, fun j _ => rfl⟩
  | cons position positions ih =>
    rw [List.nodup_cons] at hnodup
    have hrest := ih (fun k hk => hpositions k (by simp [hk])) hnodup.2
    rw [List.flatMap_cons, Instruction.printArgument]
    cases ha : i.get? position with
    | none =>
      obtain ⟨children, hchildren, hdepth, hfold⟩ := hrest line
      refine ⟨children, hchildren, hdepth, fun j hj => ?_⟩
      rw [List.foldl_cons, copyOperand, ha]
      exact hfold j fun k hk => hj k (by simp [hk])
    | some a =>
      have hposition := hpositions position (by simp)
      obtain ⟨children, siblings, hspells, rfl, hdepth, hfold⟩ :=
        spellsContent_print (P := (· = [])) (isTag_argument hposition a.kind)
          (fun line => ⟨[], spellsContent_escape line a.sourceText.toList, rfl⟩) hrest line
      refine ⟨_, hspells, by simpa [Element.depthAll, Element.depth] using hdepth, fun j hj => ?_⟩
      have hnone := hj position (by simp)
      rw [String.ofList_toList, List.foldlM_cons,
        addArgument_print hposition (h position a ha) hnone, List.foldl_cons, copyOperand, ha]
      refine hfold (j.set position a) fun k hk => ?_
      have hne : k ≠ position := fun hkp => hnodup.1 (hkp ▸ hk)
      rw [Instruction.get?_set_of_ne hne]
      exact hj k (by simp [hk])

theorem foldl_copyOperand (i : Instruction) :
    [1, 2, 3].foldl (copyOperand i) { order := i.order, opcode := i.opcode } = i := by
  obtain ⟨order, opcode, _ | a, _ | b, _ | c⟩ := i <;> rfl

theorem isTag_instruction (i : Instruction) : IsTag "instruction" (attributesOf i) where
  isName := by decide
  isKey := by
    simp only [attributesOf, List.mem_cons, List.not_mem_nil, or_false, forall_eq_or_imp, forall_eq]
    decide
  distinct := by simp [attributesOf]

theorem instruction_print {i : Instruction} {text : String} {children : List Element} {line : Nat}
    (horder : 0 < i.order)
    (hfold : children.foldlM addArgument { order := i.order, opcode := i.opcode } = .ok i) :
    instruction ⟨"instruction", attributesOf i, text, children, line⟩ = .ok i := by
  let e : Element := ⟨"instruction", attributesOf i, text, children, line⟩
  have hordertext : required e "order" = .ok (toString i.order.toInt) := rfl
  have hopcodetext : required e "opcode" = .ok i.opcode.mnemonic := rfl
  have ho : order e = .ok i.order := by
    simp only [order, hordertext, bind, Except.bind, Text.trim_toString, Text.int64?_toString,
      if_pos horder]
  have hc : opcode e = .ok i.opcode := by
    simp only [opcode, hopcodetext, bind, Except.bind, Opcode.ofMnemonic?_mnemonic]
  rw [instruction, if_pos rfl, ho, hc]
  exact hfold

theorem spellsContent_instructions {is : List Instruction} (horder : ∀ i ∈ is, 0 < i.order)
    (h : ∀ i ∈ is, ∀ position a, i.get? position = some a → a.Printable) (line : Nat) :
    ∃ children, SpellsContent line (is.flatMap Instruction.print) [] children ∧
      Element.depthAll children < maxDepth ∧ children.mapM instruction = .ok is := by
  induction is generalizing line with
  | nil => exact ⟨[], .nil, by decide, rfl⟩
  | cons i is ih =>
    have hrest := ih (fun j hj => horder j (by simp [hj])) (fun j hj => h j (by simp [hj]))
    have harguments := spellsContent_arguments (h i (by simp)) [1, 2, 3] (by simp) (by decide)
    obtain ⟨children, siblings, hspells, ⟨harity, hfold⟩, hdepth, hmap⟩ :=
      spellsContent_print (isTag_instruction i) harguments hrest line
    refine ⟨_, hspells, ?_, ?_⟩
    · have hlimit : 2 < maxDepth := by decide
      simp only [Element.depthAll, Element.depth]
      omega
    have hcopy := hfold { order := i.order, opcode := i.opcode } (by simp [Instruction.get?])
    rw [foldl_copyOperand] at hcopy
    rw [List.mapM_cons, instruction_print (horder i (by simp)) hcopy, hmap]
    rfl

theorem foldlM_addInstruction {es : List Element} {is : List Instruction} (p : Program)
    (h : es.mapM instruction = .ok is) :
    es.foldlM addInstruction p = (p.addAll is).mapError .program := by
  induction es generalizing is p with
  | nil =>
    obtain rfl : [] = is := Except.ok.inj h
    rfl
  | cons e es ih =>
    rw [List.mapM_cons] at h
    obtain ⟨i, hi, h⟩ := bind_eq_ok.mp h
    obtain ⟨js, hjs, h⟩ := bind_eq_ok.mp h
    obtain rfl : i :: js = is := Except.ok.inj h
    rw [List.foldlM_cons, addInstruction, hi, Program.addAll, List.foldlM_cons]
    change ((p.add i).mapError .program >>= fun q => es.foldlM addInstruction q) = _
    cases p.add i with
    | error e => rfl
    | ok q => exact ih q hjs

theorem program_print (text : String) (children : List Element) (line : Nat) :
    program ⟨"program", [("language", language)], text, children, line⟩ =
      children.foldlM addInstruction .empty := by
  have hlanguage : (some language).any (fun text =>
      Text.sameFolded (Text.trim text.toList) language.toList) = true := by decide
  rw [program, if_pos rfl]
  exact if_pos hlanguage

end Source

theorem Program.order_pos_of_addAll {p q : Program} {is : List Instruction}
    (h : p.addAll is = .ok q) : ∀ i ∈ is, 0 < i.order := by
  induction is generalizing p with
  | nil => simp
  | cons i is ih =>
    obtain ⟨r, hr, h⟩ := bind_eq_ok.mp h
    intro j hj
    rcases List.mem_cons.mp hj with rfl | hj
    · exact (add_eq_ok.mp hr).1
    · exact ih h j hj

/-- Loading a printed program gives the program of its instructions. -/
theorem Source.load_print {is : List Instruction} {p : Program}
    (hp : Program.ofInstructions is = .ok p)
    (h : ∀ i ∈ is, ∀ position a, i.get? position = some a → a.Printable) :
    load (print is) = .ok p := by
  have htag : IsTag "program" [("language", language)] := ⟨by decide, by decide, by decide⟩
  obtain ⟨children, hread, hmap⟩ := readDocument_print htag
    (spellsContent_instructions (Program.order_pos_of_addAll hp) h)
  simp only [load, print, hread, Except.mapError, bind, Except.bind, program_print]
  rw [foldlM_addInstruction .empty hmap]
  exact mapError_eq_ok.mpr hp

/-- A label and a string that markup and escapes would both take for their own. -/
theorem Source.load_print_awkward :
    let is : List Instruction := [
      { order := 7, opcode := .move, arg1 := some (.var ⟨.local, "a@b"⟩),
        arg2 := some (.const (.string "<\\065>&\"\r\n\t")) },
      { order := 2, opcode := .label, arg1 := some (.label "é") }]
    ∃ p, Program.ofInstructions is = .ok p ∧ load (print is) = .ok p := by
  intro is
  have hprintable : ∀ i ∈ is, ∀ position a, i.get? position = some a → a.Printable := by
    intro i hi position a ha
    simp only [is, List.mem_cons, List.not_mem_nil, or_false] at hi
    rcases hi with rfl | rfl
    · unfold Instruction.get? at ha
      split at ha <;> cases ha
      · refine ⟨by decide, fun c hc => ?_⟩
        obtain rfl : 'b' = c := Option.some.inj hc
        decide
      · trivial
    · unfold Instruction.get? at ha
      split at ha <;> cases ha
      refine ⟨by decide, fun c hc => ?_, fun c hc => ?_⟩ <;>
        (obtain rfl : 'é' = c := Option.some.inj hc; decide)
  exact ⟨_, rfl, load_print rfl hprintable⟩

end ThreeAddress
