/-
# Bytes in JSON

A text stands for its UTF-8 encoding.  Bytes that encode no text are an object with their
hexadecimal digits.
-/
import TreeDiff.Json.Parser
import TreeDiff.Text.Encoding

namespace TreeDiff.Json

/-- The bytes that pairs of hexadecimal digits denote. -/
def hexBytes : List Char → List UInt8
  | a :: b :: rest =>
    UInt8.ofNat ((hexDigit? a).getD 0 * 16 + (hexDigit? b).getD 0) :: hexBytes rest
  | _ => []

/-- The bytes that a value stands for. -/
def bytes (json : Json) : List UInt8 :=
  match json with
  | .str s => Text.Utf8.encode s
  | other =>
    match other.get? "hex" with
    | some (.str digits) => hexBytes digits.toList
    | _ => []

end TreeDiff.Json
