/-
# Decoding bytes

UTF-8 with the exact extent of every ill-formed part, and the choice between UTF-8, UTF-16 and
UTF-32 that the first bytes of a JSON document allow.
-/

namespace TreeDiff.Text

/-- Why bytes cannot be decoded. -/
inductive DecodeReason where
  | invalidStart
  | invalidContinuation
  | unexpectedEnd
  | truncated
  | outOfRange
deriving DecidableEq, Repr

/-- The wording of a reason. -/
def DecodeReason.message : DecodeReason → String
  | invalidStart => "invalid start byte"
  | invalidContinuation => "invalid continuation byte"
  | unexpectedEnd => "unexpected end of data"
  | truncated => "truncated data"
  | outOfRange => "code point not in range(0x110000)"

/-- The first part of a byte sequence that cannot be decoded. -/
structure DecodeFault where
  /-- The name of the encoding. -/
  encoding : String
  /-- Where the part starts. -/
  offset : Nat
  /-- The bytes of the part. -/
  bytes : List UInt8
  reason : DecodeReason
deriving DecidableEq, Repr

/-- The error text: one byte is shown by its value, several by their places. -/
def DecodeFault.message (f : DecodeFault) : String :=
  let place := match f.bytes with
    | [b] =>
      let digits := Nat.toDigits 16 b.toNat
      let shown := String.ofList (List.replicate (2 - digits.length) '0' ++ digits)
      s!"byte 0x{shown} in position {f.offset}"
    | bytes => s!"bytes in position {f.offset}-{f.offset + bytes.length - 1}"
  s!"'{f.encoding}' codec can't decode {place}: {f.reason.message}"

/-- One decoded part of a byte sequence: a character or an ill-formed part, with its width. -/
inductive Piece where
  | char (c : Char) (width : Nat)
  | fault (width : Nat) (reason : DecodeReason)
deriving DecidableEq, Repr

/-- How many bytes a part takes. -/
def Piece.width : Piece → Nat
  | char _ width => width
  | fault width _ => width

namespace Utf8

/-- What a first byte announces: its own bits of the code point, how many bytes follow, and the
least and the greatest value of the next of them. -/
def lead? (b : Nat) : Option (Nat × Nat × Nat × Nat) :=
  if b < 0xc2 then none
  else if b < 0xe0 then some (b - 0xc0, 1, 0x80, 0xbf)
  else if b = 0xe0 then some (0, 2, 0xa0, 0xbf)
  else if b = 0xed then some (0xd, 2, 0x80, 0x9f)
  else if b < 0xf0 then some (b - 0xe0, 2, 0x80, 0xbf)
  else if b = 0xf0 then some (0, 3, 0x90, 0xbf)
  else if b < 0xf4 then some (b - 0xf0, 3, 0x80, 0xbf)
  else if b = 0xf4 then some (4, 3, 0x80, 0x8f)
  else none

/-- Reads the bytes that a first byte announced. -/
def continuation : Nat → Nat → Nat → List UInt8 → Nat → Nat → Piece
  | 0, _, _, _, code, width => .char (Char.ofNat code) width
  | _ + 1, _, _, [], _, width => .fault width .unexpectedEnd
  | tails + 1, low, high, b :: rest, code, width =>
    if low ≤ b.toNat ∧ b.toNat ≤ high then
      continuation tails 0x80 0xbf rest (code * 64 + (b.toNat - 0x80)) (width + 1)
    else .fault width .invalidContinuation

/-- The part that starts with byte `b`. -/
def piece (b : UInt8) (rest : List UInt8) : Piece :=
  if b.toNat < 0x80 then .char (Char.ofNat b.toNat) 1
  else match lead? b.toNat with
    | none => .fault 1 .invalidStart
    | some (code, tails, low, high) => continuation tails low high rest code 1

/-- All parts of a byte sequence; `skip` bytes still belong to the part before. -/
def pieces : Nat → List UInt8 → List Piece
  | _, [] => []
  | skip + 1, _ :: rest => pieces skip rest
  | 0, b :: rest =>
    let p := piece b rest
    p :: pieces (p.width - 1) rest

/-- The characters of decoded parts, or the place of the first ill-formed one. -/
def collect (bytes : List UInt8) : Nat → List Piece → List Char → Except DecodeFault String
  | _, [], read => .ok (String.ofList read.reverse)
  | offset, .char c width :: rest, read => collect bytes (offset + width) rest (c :: read)
  | offset, .fault width reason :: _, _ =>
    .error ⟨"utf-8", offset, (bytes.drop offset).take width, reason⟩

/-- The text that bytes encode. -/
def decode (bytes : List UInt8) : Except DecodeFault String := collect bytes 0 (pieces 0 bytes) []

/-- The text that bytes encode, with U+FFFD for every ill-formed part. -/
def decodeLossy (bytes : List UInt8) : String :=
  String.ofList ((pieces 0 bytes).map fun
    | .char c _ => c
    | .fault _ _ => Char.ofNat 0xfffd)

/-- The bytes that encode a text. -/
def encode (s : String) : List UInt8 := s.toUTF8.toList

end Utf8

/-- The order of the bytes of a code unit. -/
inductive ByteOrder where
  | little
  | big
deriving DecidableEq, Repr

/-- The value of the bytes of a code unit. -/
def ByteOrder.value (order : ByteOrder) (bytes : List UInt8) : Nat :=
  let bigFirst := match order with
    | .little => bytes.reverse
    | .big => bytes
  bigFirst.foldl (fun n b => n * 256 + b.toNat) 0

/-- The name of an order in the name of an encoding. -/
def ByteOrder.suffix : ByteOrder → String
  | little => "le"
  | big => "be"

namespace Utf16

/-- A code unit that stands alone; a lone surrogate has no character. -/
def single (unit : Nat) : Char :=
  if 0xd800 ≤ unit ∧ unit ≤ 0xdfff then Char.ofNat 0xfffd else Char.ofNat unit

/-- Joins surrogate pairs. -/
def join : List Nat → List Char
  | high :: low :: rest =>
    if 0xd800 ≤ high ∧ high ≤ 0xdbff ∧ 0xdc00 ≤ low ∧ low ≤ 0xdfff then
      Char.ofNat (0x10000 + (high - 0xd800) * 0x400 + (low - 0xdc00)) :: join rest
    else single high :: join (low :: rest)
  | [unit] => [single unit]
  | [] => []

/-- The code units of bytes, or the byte that is left over. -/
def units (order : ByteOrder) : Nat → List UInt8 → Except DecodeFault (List Nat)
  | _, [] => .ok []
  | offset, [b] => .error ⟨"utf-16-" ++ order.suffix, offset, [b], .truncated⟩
  | offset, a :: b :: rest =>
    (units order (offset + 2) rest).map (order.value [a, b] :: ·)

/-- The text that bytes from an offset on encode. -/
def decode (order : ByteOrder) (offset : Nat) (bytes : List UInt8) : Except DecodeFault String :=
  (units order offset bytes).map fun us => String.ofList (join us)

end Utf16

namespace Utf32

/-- The characters of bytes, or the first unit that is no code point. -/
def chars (order : ByteOrder) : Nat → List UInt8 → Except DecodeFault (List Char)
  | _, [] => .ok []
  | offset, a :: b :: c :: d :: rest =>
    let code := order.value [a, b, c, d]
    if 0x110000 ≤ code then .error ⟨"utf-32-" ++ order.suffix, offset, [a, b, c, d], .outOfRange⟩
    else (chars order (offset + 4) rest).map (Utf16.single code :: ·)
  | offset, bytes => .error ⟨"utf-32-" ++ order.suffix, offset, bytes, .truncated⟩

/-- The text that bytes from an offset on encode. -/
def decode (order : ByteOrder) (offset : Nat) (bytes : List UInt8) : Except DecodeFault String :=
  (chars order offset bytes).map String.ofList

end Utf32

/-- The text of a JSON document: the encoding follows from a byte order mark, or else from where the
zero bytes of the first two characters lie. -/
def decodeDocument (bytes : List UInt8) : Except DecodeFault String :=
  match bytes with
  | 0x00 :: 0x00 :: 0xfe :: 0xff :: rest => Utf32.decode .big 4 rest
  | 0xff :: 0xfe :: 0x00 :: 0x00 :: rest => Utf32.decode .little 4 rest
  | 0xfe :: 0xff :: rest => Utf16.decode .big 2 rest
  | 0xff :: 0xfe :: rest => Utf16.decode .little 2 rest
  | 0xef :: 0xbb :: 0xbf :: rest => Utf8.decode rest
  | a :: b :: c :: d :: _ =>
    if a = 0 then
      if b = 0 then Utf32.decode .big 0 bytes else Utf16.decode .big 0 bytes
    else if b = 0 then
      if c = 0 ∧ d = 0 then Utf32.decode .little 0 bytes else Utf16.decode .little 0 bytes
    else Utf8.decode bytes
  | [a, b] =>
    if a = 0 then Utf16.decode .big 0 bytes
    else if b = 0 then Utf16.decode .little 0 bytes
    else Utf8.decode bytes
  | _ => Utf8.decode bytes

end TreeDiff.Text
