import ThreeAddress.Proofs.Channels

/-! Input lines. The calls of a reader give the pieces of its bytes between the newlines, one each
and in order, whatever the bytes are; where a stream breaks off, the piece in front of that place is
the only one that is lost. -/

namespace ThreeAddress

open ByteStream (newline carriageReturn)

/-! What the lines of a byte sequence are. -/

/-- The bytes are cut behind each newline. What stands behind the last one is a piece of its own,
unless it is nothing. -/
inductive CutAtNewlines : List UInt8 → List (List UInt8) → Prop where
  | nil : CutAtNewlines [] []
  | unended {line} (hne : line ≠ []) (hline : newline ∉ line) : CutAtNewlines line [line]
  | ended {line rest pieces} (hline : newline ∉ line) : CutAtNewlines rest pieces →
      CutAtNewlines (line ++ newline :: rest) ((line ++ [newline]) :: pieces)

/-- The line that a piece stands for. A carriage return belongs to it unless a newline follows. -/
inductive IsLine : List UInt8 → List UInt8 → Prop where
  | unended {line} (hline : newline ∉ line) : IsLine line line
  | newline {line} (hlast : line.getLast? ≠ some carriageReturn) :
      IsLine line (line ++ [newline])
  | carriageReturn {line} : IsLine line (line ++ [carriageReturn, newline])

def EndsInNewline (piece : List UInt8) : Prop := piece.getLast? = some newline

instance decidableEndsInNewline (piece : List UInt8) : Decidable (EndsInNewline piece) :=
  inferInstanceAs (Decidable (_ = _))

/-- The pieces that arrive: where the stream breaks off, only those that are ended. -/
def arriving (breaksOff : Bool) (pieces : List (List UInt8)) : List (List UInt8) :=
  if breaksOff then pieces.filter EndsInNewline else pieces

theorem arriving_nil (breaksOff : Bool) : arriving breaksOff [] = [] := by
  cases breaksOff <;> rfl

theorem arriving_ended (breaksOff : Bool) (line : List UInt8) (pieces : List (List UInt8)) :
    arriving breaksOff ((line ++ [newline]) :: pieces) =
      (line ++ [newline]) :: arriving breaksOff pieces := by
  cases breaksOff with
  | false => rfl
  | true =>
    have hends : EndsInNewline (line ++ [newline]) := List.getLast?_concat
    simp [arriving, hends]

theorem arriving_unended {line : List UInt8} (h : newline ∉ line) : arriving true [line] = [] := by
  have hends : ¬ EndsInNewline line := by
    intro hlast
    exact h (List.mem_of_getLast? hlast)
  simp [arriving, hends]

theorem ne_newline {line : List UInt8} (h : newline ∉ line) :
    ∀ b ∈ line, (b != newline) = true := by
  intro b hb
  rw [bne_iff_ne]
  rintro rfl
  exact h hb

theorem takeWhile_line {line : List UInt8} (h : newline ∉ line) (rest : List UInt8) :
    (line ++ newline :: rest).takeWhile (· != newline) = line ∧
      (line ++ newline :: rest).dropWhile (· != newline) = newline :: rest := by
  rw [List.takeWhile_append_of_pos (ne_newline h), List.dropWhile_append_of_pos (ne_newline h)]
  simp

theorem exists_cutAtNewlines (bytes : List UInt8) : ∃ pieces, CutAtNewlines bytes pieces := by
  generalize hlength : bytes.length = length
  induction length using Nat.strongRecOn generalizing bytes with
  | ind length ih =>
    by_cases hmem : newline ∈ bytes
    · obtain ⟨line, rest, rfl, hline⟩ := List.eq_append_cons_of_mem hmem
      have hshorter : rest.length < length := by
        simp only [List.length_append, List.length_cons] at hlength
        omega
      obtain ⟨pieces, hpieces⟩ := ih rest.length hshorter rest rfl
      exact ⟨_, .ended hline hpieces⟩
    · cases bytes with
      | nil => exact ⟨[], .nil⟩
      | cons b bytes => exact ⟨_, .unended (List.cons_ne_nil b bytes) hmem⟩

theorem first_newline_unique {line line' rest rest' : List UInt8} (h : newline ∉ line)
    (h' : newline ∉ line') (heq : line ++ newline :: rest = line' ++ newline :: rest') :
    line = line' ∧ rest = rest' := by
  obtain ⟨htake, hdrop⟩ := takeWhile_line h rest
  obtain ⟨htake', hdrop'⟩ := takeWhile_line h' rest'
  rw [heq] at htake hdrop
  exact ⟨htake.symm.trans htake', (List.cons.inj (hdrop.symm.trans hdrop')).2⟩

theorem CutAtNewlines.unique {bytes : List UInt8} {pieces pieces' : List (List UInt8)}
    (h : CutAtNewlines bytes pieces) (h' : CutAtNewlines bytes pieces') : pieces' = pieces := by
  induction h generalizing pieces' with
  | nil =>
    generalize hbytes : ([] : List UInt8) = bytes at h'
    cases h' with
    | nil => rfl
    | unended hne => exact absurd hbytes.symm hne
    | ended => simp at hbytes
  | unended hne hline =>
    cases h' with
    | nil => exact absurd rfl hne
    | unended => rfl
    | ended => simp at hline
  | @ended line rest pieces hline _ ih =>
    generalize hbytes : line ++ newline :: rest = bytes at h'
    cases h' with
    | nil => simp at hbytes
    | unended _ hline' =>
      subst hbytes
      simp at hline'
    | ended hline' hrest =>
      obtain ⟨rfl, rfl⟩ := first_newline_unique hline hline' hbytes
      rw [ih hrest]

/-! Text in bytes. -/

namespace Text

theorem decodeUtf8?_eq_some {bytes : List UInt8} {s : String} :
    decodeUtf8? bytes = some s ↔ s.toUTF8 = bytes.toByteArray := by
  rw [decodeUtf8?, String.fromUTF8?, String.toUTF8_eq_toByteArray]
  constructor
  · intro h
    split at h
    · cases h
      rfl
    · cases h
  · intro h
    rw [dif_pos (h ▸ s.isValidUTF8)]
    exact congrArg some (String.toByteArray_inj.mp h.symm)

theorem decodeUtf8?_eq_none {bytes : List UInt8} :
    decodeUtf8? bytes = none ↔ ¬ bytes.toByteArray.IsValidUTF8 := by
  rw [decodeUtf8?, String.fromUTF8?]
  split <;> simp_all

/-- A character of one byte at the end of a text is no part of another character. -/
theorem isValidUTF8_concat {bytes : List UInt8} {b : UInt8} (hb : b.IsUTF8FirstByte)
    (hvalid : [b].toByteArray.IsValidUTF8) :
    (bytes ++ [b]).toByteArray.IsValidUTF8 ↔ bytes.toByteArray.IsValidUTF8 := by
  constructor
  · intro h
    have hplace : String.Pos.Raw.IsValid (.ofByteArray _ h) ⟨bytes.length⟩ := by
      rw [String.Pos.Raw.isValid_iff_isUTF8FirstByte]
      refine .inr ⟨?_, ?_⟩
      · simp [String.Pos.Raw.lt_iff]
      · rw [String.getUTF8Byte_eq_getElem]
        simpa [ByteArray.getElem_eq_getElem_data] using hb
    have hfront : ((bytes ++ [b]).toByteArray.extract 0 bytes.length).IsValidUTF8 :=
      hplace.isValidUTF8_extract_zero
    rwa [List.toByteArray_append, ByteArray.extract_append_eq_left (by simp)] at hfront
  · intro h
    rw [List.toByteArray_append]
    exact h.append hvalid

end Text

/-! Ends of lines. -/

theorem dropCarriageReturn_of_last {line : List UInt8} (h : line.getLast? ≠ some carriageReturn) :
    LineReader.dropCarriageReturn line = line := if_neg h

theorem dropTerminator_newline (line : List UInt8) :
    LineReader.dropTerminator (line ++ [newline]) = LineReader.dropCarriageReturn line := by
  rw [LineReader.dropTerminator, if_pos List.getLast?_concat, List.dropLast_concat]

theorem dropTerminator_unended {line : List UInt8} (h : newline ∉ line) :
    LineReader.dropTerminator line = line := by
  apply if_neg
  intro hlast
  exact h (List.mem_of_getLast? hlast)

theorem isLine_ended (line : List UInt8) :
    IsLine (LineReader.dropTerminator (line ++ [newline])) (line ++ [newline]) := by
  rw [dropTerminator_newline]
  by_cases hlast : line.getLast? = some carriageReturn
  · obtain ⟨front, rfl⟩ := List.getLast?_eq_some_iff.mp hlast
    rw [LineReader.dropCarriageReturn, if_pos hlast, List.dropLast_concat, List.append_assoc]
    exact .carriageReturn
  · rw [dropCarriageReturn_of_last hlast]
    exact .newline hlast

theorem isLine_unended {line : List UInt8} (h : newline ∉ line) :
    IsLine (LineReader.dropTerminator line) line := by
  rw [dropTerminator_unended h]
  exact .unended h

theorem IsLine.isValidUTF8_iff {line piece : List UInt8} (h : IsLine line piece) :
    piece.toByteArray.IsValidUTF8 ↔ line.toByteArray.IsValidUTF8 := by
  cases h with
  | unended => rfl
  | newline => exact Text.isValidUTF8_concat (by decide) (by decide)
  | carriageReturn =>
    rw [← List.singleton_append, ← List.append_assoc,
      Text.isValidUTF8_concat (by decide) (by decide),
      Text.isValidUTF8_concat (by decide) (by decide)]

theorem CutAtNewlines.isLine {bytes piece : List UInt8} {pieces : List (List UInt8)}
    (h : CutAtNewlines bytes pieces) (hpiece : piece ∈ pieces) :
    IsLine (LineReader.dropTerminator piece) piece := by
  induction h with
  | nil => cases hpiece
  | unended _ hline =>
    rw [List.mem_singleton.mp hpiece]
    exact isLine_unended hline
  | ended _ _ ih =>
    rcases List.mem_cons.mp hpiece with rfl | hlater
    · exact isLine_ended _
    · exact ih hlater

/-! Calls of a reader. -/

namespace LineReader

def afterCalls : Nat → LineReader → LineReader
  | 0, r => r
  | k + 1, r => r.nextLine.2.afterCalls k

/-- The result of a call, the first one being number 0. -/
def result (r : LineReader) (k : Nat) : Option String := (r.afterCalls k).nextLine.1

variable {line rest : List UInt8} {breaksOff : Bool}

theorem result_zero (r : LineReader) : r.result 0 = r.nextLine.1 := rfl

theorem result_succ (r : LineReader) (k : Nat) : r.result (k + 1) = r.nextLine.2.result k := rfl

theorem result_of_end {r : LineReader} (h : r.nextLine = (none, ⟨none⟩)) (k : Nat) :
    r.result k = none := by
  induction k generalizing r with
  | zero => rw [result_zero, h]
  | succ k ih =>
    rw [result_succ, h]
    exact ih rfl

theorem nextLine_ended (h : newline ∉ line) :
    (⟨some ⟨line ++ newline :: rest, breaksOff⟩⟩ : LineReader).nextLine =
      (Text.decodeUtf8? (dropTerminator (line ++ [newline])), ⟨some ⟨rest, breaksOff⟩⟩) := by
  obtain ⟨htake, hdrop⟩ := takeWhile_line h rest
  have hread : (⟨line ++ newline :: rest, breaksOff⟩ : ByteStream).readLine =
      (some (line ++ [newline]), ⟨rest, breaksOff⟩) := by
    simp only [ByteStream.readLine, htake, hdrop]
  obtain ⟨b, more, hcons⟩ := List.exists_cons_of_ne_nil (List.concat_ne_nil newline line)
  simp only [nextLine, hread, hcons]

theorem readLine_unended (h : newline ∉ line) :
    (⟨line, breaksOff⟩ : ByteStream).readLine =
      (if breaksOff then none else some line, ⟨[], breaksOff⟩) := by
  have hdrop : line.dropWhile (· != newline) = [] := by
    simpa using @List.dropWhile_append_of_pos _ _ line [] (ne_newline h)
  simp only [ByteStream.readLine, hdrop]

theorem nextLine_unended (hne : line ≠ []) (h : newline ∉ line) :
    (⟨some ⟨line, false⟩⟩ : LineReader).nextLine =
      (Text.decodeUtf8? (dropTerminator line), ⟨some ⟨[], false⟩⟩) := by
  obtain ⟨b, more, rfl⟩ := List.exists_cons_of_ne_nil hne
  simp only [nextLine, readLine_unended h, Bool.false_eq_true, if_false]

theorem nextLine_nil (breaksOff : Bool) :
    (⟨some ⟨[], breaksOff⟩⟩ : LineReader).nextLine = (none, ⟨none⟩) := by
  cases breaksOff <;> rfl

theorem nextLine_breaksOff (h : newline ∉ line) :
    (⟨some ⟨line, true⟩⟩ : LineReader).nextLine = (none, ⟨none⟩) := by
  simp only [nextLine, readLine_unended h, if_true]

theorem result_eq {bytes : List UInt8} {pieces : List (List UInt8)}
    (h : CutAtNewlines bytes pieces) (breaksOff : Bool) (k : Nat) :
    (⟨some ⟨bytes, breaksOff⟩⟩ : LineReader).result k =
      (arriving breaksOff pieces)[k]?.bind fun piece =>
        Text.decodeUtf8? (dropTerminator piece) := by
  induction h generalizing k with
  | nil =>
    rw [result_of_end (nextLine_nil breaksOff), arriving_nil]
    rfl
  | unended hne hline =>
    cases breaksOff with
    | true =>
      rw [result_of_end (nextLine_breaksOff hline), arriving_unended hline]
      rfl
    | false =>
      cases k with
      | zero => rw [result_zero, nextLine_unended hne hline]; rfl
      | succ k =>
        rw [result_succ, nextLine_unended hne hline, result_of_end (nextLine_nil false)]
        rfl
  | ended hline _ ih =>
    rw [arriving_ended]
    cases k with
    | zero => rw [result_zero, nextLine_ended hline]; rfl
    | succ k => rw [result_succ, nextLine_ended hline, ih]; rfl

theorem nextLine_of_end {r : LineReader} {line : Option String} (h : r.nextLine = (line, ⟨none⟩)) :
    line = none := by
  unfold nextLine at h
  split at h
  · exact (Prod.mk.inj h).1.symm
  · split at h
    · exact (Prod.mk.inj h).1.symm
    · exact (Prod.mk.inj h).1.symm
    · cases (Prod.mk.inj h).2

theorem remaining_ended : (⟨none⟩ : LineReader).remaining = [] := by
  rw [remaining]
  rfl

/-- Taking a line from those that were read in advance is calling the reader. -/
theorem next_remaining (r : LineReader) :
    (⟨r.remaining⟩ : Input).next = (r.nextLine.1, ⟨r.nextLine.2.remaining⟩) := by
  rw [remaining]
  split
  · rename_i hend
    rw [hend, nextLine_of_end hend, remaining_ended]
    rfl
  · rename_i hnext
    rw [hnext]
    rfl

theorem afterCalls_remaining (r : LineReader) (k : Nat) :
    (⟨r.remaining⟩ : Input).afterCalls k = ⟨(r.afterCalls k).remaining⟩ := by
  induction k generalizing r with
  | zero => rfl
  | succ k ih =>
    rw [Input.afterCalls, next_remaining]
    exact ih _

theorem result_remaining (r : LineReader) (k : Nat) :
    (⟨r.remaining⟩ : Input).result k = r.result k := by
  rw [Input.result, afterCalls_remaining, next_remaining]
  rfl

end LineReader

/-- The bytes have one cut into pieces, and the calls of a reader give the lines of the pieces that
arrive, one each and in order, and nothing ever after. A call whose piece is not encoded text gives
nothing either, and changes nothing for the others. The lines of the machine's input are the
same. -/
theorem lines_delivered (bytes : List UInt8) :
    ∃ pieces, CutAtNewlines bytes pieces ∧
      (∀ other, CutAtNewlines bytes other → other = pieces) ∧
      ∀ breaksOff : Bool,
        let reader : LineReader := ⟨some ⟨bytes, breaksOff⟩⟩
        (∀ k piece, (arriving breaksOff pieces)[k]? = some piece →
          ∃ line, IsLine line piece ∧
            (∀ s, reader.result k = some s ↔ s.toUTF8 = line.toByteArray) ∧
            (reader.result k = none ↔ ¬ piece.toByteArray.IsValidUTF8)) ∧
        (∀ k, (arriving breaksOff pieces).length ≤ k → reader.result k = none) ∧
        ∀ k, (Input.ofBytes bytes breaksOff).result k = reader.result k := by
  obtain ⟨pieces, hpieces⟩ := exists_cutAtNewlines bytes
  refine ⟨pieces, hpieces, fun other => hpieces.unique, fun breaksOff => ⟨?_, ?_, ?_⟩⟩
  · intro k piece hpiece
    have hmem : piece ∈ pieces := by
      have harrives := List.mem_of_getElem? hpiece
      cases breaksOff with
      | false => exact harrives
      | true => exact (List.mem_filter.mp harrives).1
    have hline := hpieces.isLine hmem
    have hresult := LineReader.result_eq hpieces breaksOff k
    rw [hpiece, Option.bind_some] at hresult
    refine ⟨_, hline, fun s => ?_, ?_⟩
    · rw [hresult, Text.decodeUtf8?_eq_some]
    · rw [hresult, Text.decodeUtf8?_eq_none, hline.isValidUTF8_iff]
  · intro k hk
    rw [LineReader.result_eq hpieces, List.getElem?_eq_none hk]
    rfl
  · exact LineReader.result_remaining _

end ThreeAddress
