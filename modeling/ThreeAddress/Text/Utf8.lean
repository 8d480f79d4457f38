/-!
UTF-8 byte sequences.
-/

namespace ThreeAddress.Text

def encodeUtf8 (s : String) : List UInt8 := s.toUTF8.data.toList

def decodeUtf8? (bytes : List UInt8) : Option String :=
  String.fromUTF8? bytes.toByteArray

/-- Where the longest run of whole encoded characters from position `start` on ends. -/
def validUtf8End (bytes : ByteArray) (start : Nat) : Nat :=
  if start < bytes.size then
    match bytes.utf8DecodeChar? start with
    | some c => validUtf8End bytes (start + c.utf8Size)
    | none => start
  else
    start
termination_by bytes.size - start
decreasing_by
  have := Char.utf8Size_pos c
  omega

end ThreeAddress.Text
