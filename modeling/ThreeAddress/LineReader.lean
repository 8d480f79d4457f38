import ThreeAddress.Text.Utf8

/-!
Lines of a byte stream, read one at a time.
-/

namespace ThreeAddress

/-- The bytes still to come, and whether the stream breaks off behind them instead of ending. -/
structure ByteStream where
  rest : List UInt8
  breaksOff : Bool := false
  deriving DecidableEq, Repr

namespace ByteStream

def newline : UInt8 := 10

def carriageReturn : UInt8 := 13

/-- The bytes up to the next newline, with it, or up to the end of the stream. Those in front of
the place where the stream breaks off are lost. -/
def readLine (s : ByteStream) : Option (List UInt8) × ByteStream :=
  match s.rest.dropWhile (· != newline) with
  | [] => (if s.breaksOff then none else some s.rest, { s with rest := [] })
  | b :: rest => (some (s.rest.takeWhile (· != newline) ++ [b]), { s with rest := rest })

theorem length_readLine {s t : ByteStream} {b : UInt8} {line : List UInt8}
    (h : s.readLine = (some (b :: line), t)) : t.rest.length < s.rest.length := by
  unfold readLine at h
  split at h
  · obtain ⟨hline, rfl⟩ := Prod.mk.inj h
    split at hline
    · cases hline
    · rw [Option.some.inj hline]
      exact Nat.zero_lt_succ _
  · rename_i rest hdrop
    obtain ⟨-, rfl⟩ := Prod.mk.inj h
    have hle := (List.dropWhile_suffix (l := s.rest) (· != newline)).length_le
    rw [hdrop] at hle
    exact hle

end ByteStream

/-- Gives out the lines of a stream. A stream that has come to its end is not asked again. -/
structure LineReader where
  stream : Option ByteStream
  deriving DecidableEq, Repr

namespace LineReader

open ByteStream

def dropCarriageReturn (line : List UInt8) : List UInt8 :=
  if line.getLast? = some carriageReturn then line.dropLast else line

/-- A newline at the end is not part of the line, nor is one carriage return in front of it. -/
def dropTerminator (line : List UInt8) : List UInt8 :=
  if line.getLast? = some newline then dropCarriageReturn line.dropLast else line

/-- The next line. There is none at the end of the stream, where it breaks off, and in place of a
line that is not encoded text; the reader goes on in the last case only. -/
def nextLine (r : LineReader) : Option String × LineReader :=
  match r.stream with
  | none => (none, r)
  | some stream =>
    match stream.readLine with
    | (none, _) => (none, ⟨none⟩)
    | (some [], _) => (none, ⟨none⟩)
    | (some (b :: line), rest) => (Text.decodeUtf8? (dropTerminator (b :: line)), ⟨some rest⟩)

def bytesLeft (r : LineReader) : List UInt8 := (r.stream.map ByteStream.rest).getD []

theorem length_nextLine {r : LineReader} {line : Option String} {stream : ByteStream}
    (h : r.nextLine = (line, ⟨some stream⟩)) : stream.rest.length < r.bytesLeft.length := by
  unfold nextLine at h
  split at h
  · rename_i hnone
    obtain ⟨-, rfl⟩ := Prod.mk.inj h
    cases hnone
  · rename_i before hstream
    split at h
    · cases h
    · cases h
    · rename_i hread
      cases h
      rw [bytesLeft, hstream]
      exact length_readLine hread

def remaining (r : LineReader) : List (Option String) :=
  match _ : r.nextLine with
  | (_, ⟨none⟩) => []
  | (line, ⟨some stream⟩) => line :: remaining ⟨some stream⟩
termination_by r.bytesLeft.length
decreasing_by exact length_nextLine (by assumption)

end LineReader

end ThreeAddress
