import Mathlib.Data.List.DropRight
import Mathlib.Tactic.Tauto
import ThreeAddress.Input
import ThreeAddress.Proofs.FloatLiteral
import ThreeAddress.Source

/-! Literals in a program and literals in the input. Constants of a program and input lines are
turned into values at two places, which trim the text at different times; what they make of a text
is the same for integers, floats and strings, and for truth values it differs only by blanks. -/

namespace ThreeAddress

namespace Text

/-! Trimming. -/

theorem head_trim {cs : List Char} {c : Char} (h : (trim cs).head? = some c) :
    isBlank c = false := by
  have hfront : trim cs <+: cs.dropWhile isBlank := List.rdropWhile_prefix isBlank _
  obtain ⟨back, hback⟩ := hfront
  have hhead : (cs.dropWhile isBlank).head? = some c := by
    rw [← hback, List.head?_append, h, Option.some_or]
  have hdrop := List.head?_dropWhile_not isBlank cs
  rw [hhead] at hdrop
  simpa using hdrop

theorem getLast_trim {cs : List Char} {c : Char} (h : (trim cs).getLast? = some c) :
    isBlank c = false := by
  have hdrop := List.head?_dropWhile_not isBlank (cs.dropWhile isBlank).reverse
  rw [trim, List.getLast?_reverse] at h
  rw [h] at hdrop
  simpa using hdrop

theorem trim_trim (cs : List Char) : trim (trim cs) = trim cs :=
  trim_of_ends (fun _ => head_trim) fun _ => getLast_trim

theorem trim_of_folded {cs word : List Char} (h : cs.map Char.toLower = word)
    (hword : word.any isBlank = false) : trim cs = cs := by
  apply trim_of_not_blank
  intro c hc
  rw [← (toLower_invariant c).1, ← Bool.not_eq_true]
  exact List.any_eq_false.mp hword _ (h ▸ List.mem_map_of_mem hc)

theorem sameFolded_true {cs : List Char} :
    sameFolded cs "true".toList = true ↔ cs.map Char.toLower = "true".toList := by
  rw [sameFolded, beq_iff_eq]
  rfl

end Text

theorem Binary64.parse?_trim (cs : List Char) : parse? (Text.trim cs) = parse? cs := by
  rw [parse?, parse?, Text.trim_trim]

namespace TypeTag

/-- The kind of an operand is written as the name of the type, in any case and between blanks. -/
def NamedBy (tag : TypeTag) (kind : String) : Prop :=
  (Text.trim kind.toList).map Char.toLower = tag.name.toList

instance decidableNamedBy (tag : TypeTag) (kind : String) : Decidable (tag.NamedBy kind) :=
  inferInstanceAs (Decidable (_ = _))

def literalTypes : List TypeTag := [int, float, string]

def literal? (tag : TypeTag) (text : String) : Option Value :=
  match tag with
  | int => (Text.int64? (Text.trim text.toList)).map .int
  | float => (Binary64.parse? text.toList).map .float
  | string => (Text.decodeEscapes text).toOption.map .string
  | nil | bool | label | type => none

theorem NamedBy.folded {tag : TypeTag} {kind : String} (h : tag.NamedBy kind) :
    String.ofList ((Text.trim kind.toList).map Char.toLower) = tag.name := by
  rw [h, String.ofList_toList]

theorem literal?_ne_nil {tag : TypeTag} {text : String} : tag.literal? text ≠ some .nil := by
  intro h
  cases tag with
  | int | float | string =>
    obtain ⟨_, -, hvalue⟩ := Option.map_eq_some_iff.mp h
    cases hvalue
  | nil | bool | label | type => cases h

end TypeTag

variable {tag : TypeTag} {kind text : String} {line : Nat}

theorem Source.operand_of_literal (htag : tag ∈ TypeTag.literalTypes) (hkind : tag.NamedBy kind) :
    operand kind text line = match tag.literal? text with
      | some v => .ok (.const v)
      | none => .error (.invalidValue line tag.name text) := by
  simp only [operand, hkind.folded]
  cases tag with
  | int =>
    simp only [TypeTag.name, TypeTag.literal?]
    cases Text.int64? (Text.trim text.toList) <;> rfl
  | float =>
    simp only [TypeTag.name, TypeTag.literal?, Binary64.parse?_trim]
    cases Binary64.parse? text.toList <;> rfl
  | string =>
    simp only [TypeTag.name, TypeTag.literal?]
    cases (Text.decodeEscapes text).toOption <;> rfl
  | nil | bool | label | type => simp [TypeTag.literalTypes] at htag

theorem Input.value_of_literal (htag : tag ∈ TypeTag.literalTypes) :
    value (some text) tag = (tag.literal? text).getD .nil := by
  cases tag with
  | int | float => rfl
  | string =>
    simp only [value, TypeTag.literal?]
    cases Text.decodeEscapes text <;> rfl
  | nil | bool | label | type => simp [TypeTag.literalTypes] at htag

theorem Source.operand_bool (hkind : TypeTag.bool.NamedBy kind) :
    operand kind text line =
      .ok (.const (.bool (Text.sameFolded (Text.trim text.toList) "true".toList))) := by
  simp only [operand, hkind.folded]
  rfl

/-- Every text is the same literal in a program and in the input, or none in either; only a word for
truth between blanks counts in a program and not in the input. -/
theorem literals_read_alike (text : String) (line : Nat) :
    (∀ tag ∈ TypeTag.literalTypes, ∀ kind, tag.NamedBy kind →
      (∀ v, Source.operand kind text line = .ok (.const v) ↔
        Input.value (some text) tag = v ∧ v ≠ .nil) ∧
      ((∃ e, Source.operand kind text line = .error e) ↔ Input.value (some text) tag = .nil)) ∧
    ∀ kind, TypeTag.bool.NamedBy kind →
      ∃ b b', Source.operand kind text line = .ok (.const (.bool b)) ∧
        Input.value (some text) .bool = .bool b' ∧
        (b ≠ b' ↔ (Text.trim text.toList).map Char.toLower = "true".toList ∧
          text.toList.map Char.toLower ≠ "true".toList) := by
  constructor
  · intro tag htag kind hkind
    rw [Source.operand_of_literal htag hkind, Input.value_of_literal htag]
    have hnil : tag.literal? text ≠ some .nil := TypeTag.literal?_ne_nil
    cases hliteral : tag.literal? text with
    | none => simp [eq_comm]
    | some v =>
      have hv : v ≠ .nil := by
        rintro rfl
        exact hnil hliteral
      simp only [Except.ok.injEq, Operand.const.injEq, Option.getD_some]
      constructor
      · intro w
        constructor
        · rintro rfl
          exact ⟨rfl, hv⟩
        · exact fun h => h.1
      · simp [hv]
  · intro kind hkind
    refine ⟨_, _, Source.operand_bool hkind, rfl, ?_⟩
    have hblanks : text.toList.map Char.toLower = "true".toList →
        (Text.trim text.toList).map Char.toLower = "true".toList := by
      intro htrue
      rw [Text.trim_of_folded htrue rfl, htrue]
    rw [ne_eq, Bool.eq_iff_iff, Text.sameFolded_true, Text.sameFolded_true]
    tauto

/-- A number, a text that is none, and a word for truth behind a blank. -/
theorem literals_read_alike_padded :
    TypeTag.int ∈ TypeTag.literalTypes ∧ TypeTag.int.NamedBy " Int" ∧ TypeTag.bool.NamedBy "bool" ∧
      Source.operand " Int" " 12\n" 1 = .ok (.const (.int 12)) ∧
      (∃ e, Source.operand " Int" "1 2" 1 = .error e) ∧
      ∃ b b', Source.operand "bool" " True" 1 = .ok (.const (.bool b)) ∧
        Input.value (some " True") .bool = .bool b' ∧ b ≠ b' := by
  have hint : TypeTag.int ∈ TypeTag.literalTypes := by decide
  have hkind : TypeTag.int.NamedBy " Int" := by decide
  have hbool : TypeTag.bool.NamedBy "bool" := by decide
  refine ⟨hint, hkind, hbool, ?_, ?_, ?_⟩
  · exact (((literals_read_alike " 12\n" 1).1 .int hint " Int" hkind).1 _).mpr
      ⟨by decide, by decide⟩
  · exact ((literals_read_alike "1 2" 1).1 .int hint " Int" hkind).2.mpr (by decide)
  · obtain ⟨b, b', hprogram, hinput, hdiffer⟩ := (literals_read_alike " True" 1).2 "bool" hbool
    exact ⟨b, b', hprogram, hinput, hdiffer.mpr ⟨by decide, by decide⟩⟩

end ThreeAddress
