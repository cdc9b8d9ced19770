/-
# YAML documents in files

A file holds at most one document, encoded in UTF-8.  Every line break counts as a newline.
-/
import TreeDiff.Text.Encoding
import TreeDiff.Yaml.Content

namespace TreeDiff.Yaml

/-- Why a file holds no document. -/
inductive Unreadable where
  /-- Bytes that encode no text. -/
  | undecodable (fault : Text.DecodeFault)
  /-- A character that may not stand in a document, with the number of characters before it. -/
  | unacceptable (c : Char) (offset : Nat)
  /-- A text that breaks the rules of the format. -/
  | ungrammatical (fault : Fault)
  /-- A text that is not what its tag says. -/
  | misfit (misfit : Misfit)
deriving DecidableEq, Repr

/-- The hexadecimal digits of a number, at least four. -/
def hexNumber (n : Nat) : String := String.ofList (Text.hexDigits 4 n)

/-- The text about a character that may not stand in a document. -/
def unacceptableMessage (file : String) (c : Char) (offset : Nat) : String :=
  s!"unacceptable character #x{hexNumber c.toNat}: special characters are not allowed\n" ++
    s!"  in \"{file}\", position {offset}"

/-- A text with every line break as a newline. -/
def withNewlines : List Char → List Char
  | [] => []
  | '\r' :: '\n' :: rest => '\n' :: withNewlines rest
  | '\r' :: rest => '\n' :: withNewlines rest
  | c :: rest => c :: withNewlines rest

/-- Whether a character may stand in a document. -/
def isAcceptable (c : Char) : Bool :=
  let n := c.toNat
  n = 0x9 || n = 0xa || n = 0xd || (0x20 ≤ n && n ≤ 0x7e) || n = 0x85 ||
    (0xa0 ≤ n && n ≤ 0xd7ff) || (0xe000 ≤ n && n ≤ 0xfffd) || 0x10000 ≤ n

/-- Why tokens or nodes cannot be read. -/
def Unreadable.ofScanFault : ScanFault → Unreadable
  | .fault f => .ungrammatical f
  | .noCharacter huge => .misfit (if huge then .hugeCharacter else .character)

/-- Why a node denotes nothing. -/
def Unreadable.ofFlaw : Flaw → Unreadable
  | .fault f => .ungrammatical f
  | .misfit kind => .misfit kind

/-- The value of the document that a text holds; a text without one holds null. -/
def readText (text : List Char) : Except Unreadable Value :=
  match text.findIdx? fun c => !isAcceptable c with
  | some offset => .error (.unacceptable (text.getD offset endMark) offset)
  | none =>
    match Node.ofTokens (TokenStream.ofChars text) with
    | .error fault => .error (.ofScanFault fault)
    | .ok root => (Node.value root).mapError Unreadable.ofFlaw

/-- The value of the document that a file holds. -/
def readBytes (bytes : List UInt8) : Except Unreadable Value :=
  match Text.Utf8.decode bytes with
  | .error fault => .error (.undecodable fault)
  | .ok text => readText (withNewlines text.toList)

end TreeDiff.Yaml
