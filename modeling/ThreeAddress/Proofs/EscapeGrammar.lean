import ThreeAddress.Proofs.Numerals
import ThreeAddress.Result
import ThreeAddress.Text.Escape

/-! Texts with escapes. Such a text is a sequence of pieces, each a character that stands for itself
or an escape; what follows the pieces that were read decides how reading goes on. So decoding is
described by the pieces a text consists of, and by the backslash that is not the start of one. -/

namespace ThreeAddress.Text

/-- A character other than the backslash, or an escape with the digits of a code point. -/
inductive Piece where
  | plain (c : Char) (h : c ≠ '\\')
  | escape (a b c : Fin 10)

namespace Piece

def text : Piece → List Char
  | plain c _ => [c]
  | escape a b c => ['\\', a.val.digitChar, b.val.digitChar, c.val.digitChar]

def char : Piece → Char
  | plain c _ => c
  | escape a b c => Char.ofNat (100 * a + 10 * b + c)

end Piece

def spell (pieces : List Piece) : List Char := pieces.flatMap Piece.text

theorem spell_cons (piece : Piece) (pieces : List Piece) :
    spell (piece :: pieces) = piece.text ++ spell pieces := List.flatMap_cons

def EscapeError.shift (count : Nat) : EscapeError → EscapeError
  | truncated position => truncated (count + position)
  | invalidDigits position sequence => invalidDigits (count + position) sequence

/-! Digits. -/

theorem isDecimalDigit_digitChar (d : Fin 10) : isDecimalDigit d.val.digitChar = true := by
  revert d
  decide

theorem exists_digitChar_of_isDecimalDigit {c : Char} (h : isDecimalDigit c = true) :
    ∃ d : Fin 10, c = d.val.digitChar := by
  have hbounds : 48 ≤ c.toNat ∧ c.toNat ≤ 57 := by
    simpa [isDecimalDigit, Char.le_def, UInt32.le_iff_toNat_le] using h
  have hdigits : ∀ n < 10, Nat.digitChar n = Char.ofNat (48 + n) := by decide
  refine ⟨⟨c.toNat - 48, by omega⟩, ?_⟩
  rw [hdigits _ (by omega), Nat.add_sub_cancel' hbounds.1, Char.ofNat_toNat]

theorem numeral_three_digits (a b c : Fin 10) :
    numeral 10 [a.val.digitChar, b.val.digitChar, c.val.digitChar] = 100 * a + 10 * b + c := by
  simp only [numeral, List.foldl_cons, List.foldl_nil]
  rw [digitValue_digitChar (by omega), digitValue_digitChar (by omega),
    digitValue_digitChar (by omega)]
  omega

/-! Decoding, piece by piece. -/

theorem decodeEscapesFrom_piece (piece : Piece) (position : Nat) (cs : List Char) :
    decodeEscapesFrom position (piece.text ++ cs) =
      (decodeEscapesFrom (position + piece.text.length) cs).map (piece.char :: ·) := by
  cases piece with
  | plain c h => exact decodeEscapesFrom_cons h position cs
  | escape a b c =>
    have hdigits : [a.val.digitChar, b.val.digitChar, c.val.digitChar].all isDecimalDigit := by
      simp [isDecimalDigit_digitChar]
    simp only [Piece.text, List.cons_append, List.nil_append, decodeEscapesFrom]
    rw [if_pos hdigits, numeral_three_digits]
    rfl

theorem decodeEscapesFrom_spell (pieces : List Piece) (position : Nat) (cs : List Char) :
    decodeEscapesFrom position (spell pieces ++ cs) =
      (decodeEscapesFrom (position + (spell pieces).length) cs).map
        (pieces.map Piece.char ++ ·) := by
  induction pieces generalizing position with
  | nil =>
    simp only [spell, List.flatMap_nil, List.nil_append, List.length_nil, Nat.add_zero,
      List.map_nil]
    cases decodeEscapesFrom position cs <;> rfl
  | cons piece pieces ih =>
    rw [spell_cons, List.append_assoc, decodeEscapesFrom_piece, ih, List.length_append,
      Nat.add_assoc]
    cases decodeEscapesFrom _ cs <;> rfl

theorem decodeEscapesFrom_short {rest : List Char} (h : rest.length < 3) (position : Nat) :
    decodeEscapesFrom position ('\\' :: rest) = .error (.truncated position) := by
  match rest, h with
  | [], _ => rfl
  | [_], _ => rfl
  | [_, _], _ => rfl

theorem decodeEscapesFrom_invalid {sequence : List Char} (hlength : sequence.length = 3)
    (h : ¬ ∀ c ∈ sequence, isDecimalDigit c = true) (position : Nat) (rest : List Char) :
    decodeEscapesFrom position ('\\' :: (sequence ++ rest)) =
      .error (.invalidDigits position sequence) := by
  match sequence, hlength with
  | [a, b, c], _ =>
    have hdigits : ¬ [a, b, c].all isDecimalDigit = true := by rwa [List.all_eq_true]
    simp only [List.cons_append, List.nil_append, decodeEscapesFrom]
    rw [if_neg hdigits]

/-- How a text begins: it is a sequence of pieces, or after some pieces there is a backslash that
starts none. -/
inductive Segmented : List Char → Prop where
  | whole (pieces : List Piece) : Segmented (spell pieces)
  | truncated (pieces : List Piece) {rest : List Char} : rest.length < 3 →
      Segmented (spell pieces ++ '\\' :: rest)
  | invalid (pieces : List Piece) {sequence rest : List Char} : sequence.length = 3 →
      (¬ ∀ c ∈ sequence, isDecimalDigit c = true) →
      Segmented (spell pieces ++ '\\' :: (sequence ++ rest))

theorem Segmented.append_piece (piece : Piece) {cs : List Char} (h : Segmented cs) :
    Segmented (piece.text ++ cs) := by
  cases h with
  | whole pieces => exact .whole (piece :: pieces)
  | truncated pieces hrest =>
    rw [← List.append_assoc]
    exact .truncated (piece :: pieces) hrest
  | invalid pieces hlength hdigits =>
    rw [← List.append_assoc]
    exact .invalid (piece :: pieces) hlength hdigits

theorem segmented_cons_backslash {cs : List Char} (h : Segmented (cs.drop 3)) :
    Segmented ('\\' :: cs) := by
  by_cases hlength : cs.length < 3
  · exact .truncated [] hlength
  · have hthree : (cs.take 3).length = 3 := by
      rw [List.length_take]
      omega
    by_cases hdigits : ∀ c ∈ cs.take 3, isDecimalDigit c = true
    · match cs, hthree with
      | a :: b :: c :: rest, _ =>
        obtain ⟨x, rfl⟩ := exists_digitChar_of_isDecimalDigit (hdigits a (by simp))
        obtain ⟨y, rfl⟩ := exists_digitChar_of_isDecimalDigit (hdigits b (by simp))
        obtain ⟨z, rfl⟩ := exists_digitChar_of_isDecimalDigit (hdigits c (by simp))
        exact h.append_piece (.escape x y z)
    · have hinvalid := @Segmented.invalid [] _ (cs.drop 3) hthree hdigits
      rwa [List.take_append_drop] at hinvalid

theorem segmented (cs : List Char) : Segmented cs := by
  induction hn : cs.length using Nat.strongRecOn generalizing cs with
  | ind n ih =>
    cases cs with
    | nil => exact .whole []
    | cons c cs =>
      by_cases hc : c = '\\'
      · subst hc
        apply segmented_cons_backslash
        apply ih (cs.drop 3).length _ _ rfl
        rw [← hn, List.length_drop, List.length_cons]
        omega
      · apply (ih cs.length _ cs rfl).append_piece (.plain c hc)
        rw [← hn, List.length_cons]
        omega

/-! Results of decoding. -/

section Results

variable {position : Nat} {cs : List Char}

theorem decodeEscapesFrom_whole (position : Nat) (pieces : List Piece) :
    decodeEscapesFrom position (spell pieces) = .ok (pieces.map Piece.char) := by
  have h := decodeEscapesFrom_spell pieces position []
  rw [List.append_nil] at h
  rw [h]
  simp [decodeEscapesFrom, Except.map]

theorem decodeEscapesFrom_truncated (position : Nat) (pieces : List Piece) {rest : List Char}
    (h : rest.length < 3) : decodeEscapesFrom position (spell pieces ++ '\\' :: rest) =
      .error (.truncated (position + (spell pieces).length)) := by
  rw [decodeEscapesFrom_spell, decodeEscapesFrom_short h]
  rfl

theorem decodeEscapesFrom_malformed (position : Nat) (pieces : List Piece)
    {sequence rest : List Char} (hlength : sequence.length = 3)
    (h : ¬ ∀ c ∈ sequence, isDecimalDigit c = true) :
    decodeEscapesFrom position (spell pieces ++ '\\' :: (sequence ++ rest)) =
      .error (.invalidDigits (position + (spell pieces).length) sequence) := by
  rw [decodeEscapesFrom_spell, decodeEscapesFrom_invalid hlength h]
  rfl

theorem decodeEscapesFrom_eq_ok {out : List Char} : decodeEscapesFrom position cs = .ok out ↔
    ∃ pieces, cs = spell pieces ∧ out = pieces.map Piece.char := by
  constructor
  · intro h
    cases segmented cs with
    | whole pieces =>
      rw [decodeEscapesFrom_whole] at h
      exact ⟨pieces, rfl, (Except.ok.inj h).symm⟩
    | truncated pieces hrest =>
      rw [decodeEscapesFrom_truncated _ _ hrest] at h
      cases h
    | invalid pieces hlength hdigits =>
      rw [decodeEscapesFrom_malformed _ _ hlength hdigits] at h
      cases h
  · rintro ⟨pieces, rfl, rfl⟩
    exact decodeEscapesFrom_whole position pieces

theorem decodeEscapesFrom_eq_truncated {n : Nat} :
    decodeEscapesFrom position cs = .error (.truncated n) ↔
      ∃ pieces rest, cs = spell pieces ++ '\\' :: rest ∧ rest.length < 3 ∧
        n = position + (spell pieces).length := by
  constructor
  · intro h
    cases segmented cs with
    | whole pieces =>
      rw [decodeEscapesFrom_whole] at h
      cases h
    | truncated pieces hrest =>
      rw [decodeEscapesFrom_truncated _ _ hrest] at h
      exact ⟨pieces, _, rfl, hrest, (EscapeError.truncated.inj (Except.error.inj h)).symm⟩
    | invalid pieces hlength hdigits =>
      rw [decodeEscapesFrom_malformed _ _ hlength hdigits] at h
      cases h
  · rintro ⟨pieces, rest, rfl, hrest, rfl⟩
    exact decodeEscapesFrom_truncated position pieces hrest

theorem decodeEscapesFrom_eq_invalidDigits {n : Nat} {sequence : List Char} :
    decodeEscapesFrom position cs = .error (.invalidDigits n sequence) ↔
      ∃ pieces rest, cs = spell pieces ++ '\\' :: (sequence ++ rest) ∧ sequence.length = 3 ∧
        (¬ ∀ c ∈ sequence, isDecimalDigit c = true) ∧ n = position + (spell pieces).length := by
  constructor
  · intro h
    cases segmented cs with
    | whole pieces =>
      rw [decodeEscapesFrom_whole] at h
      cases h
    | truncated pieces hrest =>
      rw [decodeEscapesFrom_truncated _ _ hrest] at h
      cases h
    | invalid pieces hlength hdigits =>
      rw [decodeEscapesFrom_malformed _ _ hlength hdigits] at h
      obtain ⟨rfl, rfl⟩ := EscapeError.invalidDigits.inj (Except.error.inj h)
      exact ⟨pieces, _, rfl, hlength, hdigits, rfl⟩
  · rintro ⟨pieces, rest, rfl, hlength, hdigits, rfl⟩
    exact decodeEscapesFrom_malformed position pieces hlength hdigits

theorem decodeEscapesFrom_add (count position : Nat) (cs : List Char) :
    decodeEscapesFrom (count + position) cs =
      (decodeEscapesFrom position cs).mapError (EscapeError.shift count) := by
  cases segmented cs with
  | whole pieces =>
    rw [decodeEscapesFrom_whole, decodeEscapesFrom_whole]
    rfl
  | truncated pieces hrest =>
    rw [decodeEscapesFrom_truncated _ _ hrest, decodeEscapesFrom_truncated _ _ hrest,
      Nat.add_assoc]
    rfl
  | invalid pieces hlength hdigits =>
    rw [decodeEscapesFrom_malformed _ _ hlength hdigits,
      decodeEscapesFrom_malformed _ _ hlength hdigits, Nat.add_assoc]
    rfl

end Results

/-! Ways of writing a text. -/

def escapeOf (c : Char) : List Char :=
  ['\\', (c.toNat / 100).digitChar, (c.toNat / 10 % 10).digitChar, (c.toNat % 10).digitChar]

/-- The second text is the first one with its backslashes, and any other characters up to the code
point 999, written as escapes. -/
inductive Writes : List Char → List Char → Prop where
  | nil : Writes [] []
  | raw {c : Char} {cs text : List Char} : c ≠ '\\' → Writes cs text →
      Writes (c :: cs) (c :: text)
  | escaped {c : Char} {cs text : List Char} : c.toNat ≤ 999 → Writes cs text →
      Writes (c :: cs) (escapeOf c ++ text)

theorem exists_piece_of_escapeOf {c : Char} (h : c.toNat ≤ 999) :
    ∃ piece : Piece, piece.text = escapeOf c ∧ piece.char = c := by
  refine ⟨.escape ⟨c.toNat / 100, by omega⟩ ⟨c.toNat / 10 % 10, by omega⟩
    ⟨c.toNat % 10, by omega⟩, rfl, ?_⟩
  have hsum : 100 * (c.toNat / 100) + 10 * (c.toNat / 10 % 10) + c.toNat % 10 = c.toNat := by
    omega
  simp only [Piece.char, hsum, Char.ofNat_toNat]

theorem Writes.exists_pieces {cs text : List Char} (h : Writes cs text) :
    ∃ pieces, text = spell pieces ∧ cs = pieces.map Piece.char := by
  induction h with
  | nil => exact ⟨[], rfl, rfl⟩
  | @raw c cs text hc _ ih =>
    obtain ⟨pieces, rfl, rfl⟩ := ih
    exact ⟨.plain c hc :: pieces, rfl, rfl⟩
  | escaped hc _ ih =>
    obtain ⟨pieces, rfl, rfl⟩ := ih
    obtain ⟨piece, htext, hchar⟩ := exists_piece_of_escapeOf hc
    refine ⟨piece :: pieces, ?_, ?_⟩
    · rw [← htext]
      rfl
    · rw [List.map_cons, hchar]

/-! Texts that are their own decoding. -/

theorem length_le_spell (pieces : List Piece) : pieces.length ≤ (spell pieces).length := by
  induction pieces with
  | nil => exact Nat.zero_le _
  | cons piece pieces ih =>
    have hpiece : 1 ≤ piece.text.length := by cases piece <;> simp [Piece.text]
    rw [spell_cons, List.length_append, List.length_cons]
    omega

theorem length_lt_spell {pieces : List Piece} (h : '\\' ∈ spell pieces) :
    pieces.length < (spell pieces).length := by
  induction pieces with
  | nil => simp [spell] at h
  | cons piece pieces ih =>
    have hrest := length_le_spell pieces
    rw [spell_cons, List.mem_append] at h
    rw [spell_cons, List.length_append, List.length_cons]
    cases piece with
    | plain c hc =>
      have htext : '\\' ∉ (Piece.plain c hc).text := by simpa [Piece.text] using Ne.symm hc
      have := ih (h.resolve_left htext)
      simp only [Piece.text, List.length_singleton]
      omega
    | escape a b c =>
      simp only [Piece.text, List.length_cons, List.length_nil]
      omega

/-! Whole texts. -/

theorem decodeEscapes_eq_ok {text out : String} : decodeEscapes text = .ok out ↔
    ∃ pieces, text.toList = spell pieces ∧ out.toList = pieces.map Piece.char := by
  rw [decodeEscapes_eq, map_eq_ok]
  constructor
  · rintro ⟨cs, h, rfl⟩
    rw [String.toList_ofList]
    exact decodeEscapesFrom_eq_ok.mp h
  · intro h
    exact ⟨out.toList, decodeEscapesFrom_eq_ok.mpr h, String.ofList_toList⟩

theorem decodeEscapes_eq_error {text : String} {e : EscapeError} :
    decodeEscapes text = .error e ↔ decodeEscapesFrom 0 text.toList = .error e := by
  rw [decodeEscapes_eq]
  cases decodeEscapesFrom 0 text.toList <;> simp [Except.map]

/-- Decoding succeeds exactly on sequences of pieces and gives their characters. Otherwise the error
is at the first backslash that starts no piece when the text is read from left to right. Every way
of writing a text is decoded to it, what was decoded does not depend on what follows, and only texts
without a backslash are their own decoding. -/
theorem decodeEscapes_by_pieces :
    (∀ text out : String, decodeEscapes text = .ok out ↔
      ∃ pieces, text.toList = spell pieces ∧ out.toList = pieces.map Piece.char) ∧
    (∀ (text : String) (n : Nat), decodeEscapes text = .error (.truncated n) ↔
      ∃ pieces rest, text.toList = spell pieces ++ '\\' :: rest ∧ rest.length < 3 ∧
        n = (spell pieces).length) ∧
    (∀ (text : String) (n : Nat) (sequence : List Char),
      decodeEscapes text = .error (.invalidDigits n sequence) ↔
        ∃ pieces rest, text.toList = spell pieces ++ '\\' :: (sequence ++ rest) ∧
          sequence.length = 3 ∧ (¬ ∀ c ∈ sequence, isDecimalDigit c = true) ∧
          n = (spell pieces).length) ∧
    (∀ s text : String, Writes s.toList text.toList → decodeEscapes text = .ok s) ∧
    (∀ a b x : String, decodeEscapes a = .ok x → decodeEscapes (a ++ b) =
      ((decodeEscapes b).map (x ++ ·)).mapError (EscapeError.shift a.length)) ∧
    (∀ s : String, decodeEscapes s = .ok s ↔ '\\' ∉ s.toList) := by
  refine ⟨fun text out => decodeEscapes_eq_ok, ?_, ?_, ?_, ?_, ?_⟩
  · intro text n
    rw [decodeEscapes_eq_error, decodeEscapesFrom_eq_truncated]
    simp only [Nat.zero_add]
  · intro text n sequence
    rw [decodeEscapes_eq_error, decodeEscapesFrom_eq_invalidDigits]
    simp only [Nat.zero_add]
  · intro s text h
    exact decodeEscapes_eq_ok.mpr h.exists_pieces
  · intro a b x h
    obtain ⟨pieces, ha, hx⟩ := decodeEscapes_eq_ok.mp h
    have hlength : a.length = (spell pieces).length := by rw [← ha, String.length_toList]
    have hshift := decodeEscapesFrom_add a.length 0 b.toList
    rw [Nat.add_zero] at hshift
    rw [decodeEscapes_eq, decodeEscapes_eq, String.toList_append, ha, decodeEscapesFrom_spell,
      Nat.zero_add, ← hlength, hshift, ← hx]
    cases decodeEscapesFrom 0 b.toList with
    | error e => rfl
    | ok cs =>
      change Except.ok (String.ofList (x.toList ++ cs)) = Except.ok (x ++ String.ofList cs)
      rw [String.ofList_append, String.ofList_toList]
  · intro s
    constructor
    · intro h hmem
      obtain ⟨pieces, htext, hout⟩ := decodeEscapes_eq_ok.mp h
      have hshorter := length_lt_spell (htext ▸ hmem)
      rw [← htext, hout, List.length_map] at hshorter
      exact Nat.lt_irrefl _ hshorter
    · intro h
      rw [decodeEscapes_eq, decodeEscapesFrom_of_not_mem h]
      simp [Except.map]

/-- A backslash that was decoded does not start an escape, and an error is counted from the start
of the whole text. -/
theorem decoded_backslash_starts_nothing :
    decodeEscapes "\\092035" = .ok "\\035" ∧
      decodeEscapes ("\\092" ++ "a\\03") = .error (.truncated 5) := by
  obtain ⟨-, -, -, hwritten, happend, -⟩ := decodeEscapes_by_pieces
  constructor
  · apply hwritten
    exact .escaped (c := '\\') (by decide)
      (.raw (by decide) (.raw (by decide) (.raw (by decide) .nil)))
  · rw [happend "\\092" "a\\03" "\\" (by decide +kernel)]
    decide +kernel

end ThreeAddress.Text
