import WhileLang.Yaml.Problem

/-!
# Characters of a YAML text

A text is bytes in UTF-8 or, when it starts with the mark for it, UTF-16. It is taken in blocks of 512
bytes, and a defect anywhere in a block keeps all of the block from being read. So a `Source` is the
characters of the blocks before the first defect, and that defect.
-/

namespace WhileLang.Yaml

/-- Readable characters, and what stops further reading, if anything does. -/
structure Source where
  chars : List Char
  failure : Option Problem := none

namespace Source

/-- The forms a text may be encoded in. -/
inductive Encoding
  | utf8
  | utf16 (bigEndian : Bool)

/-- The characters a text may hold: line breaks, tabs, and everything else that is not a control. -/
def allowed (n : Nat) : Bool :=
  n == 9 || n == 10 || n == 13 || (0x20 ≤ n && n ≤ 0x7e) || n == 0x85 || (0xa0 ≤ n && n ≤ 0xd7ff)
    || (0xe000 ≤ n && n ≤ 0xfffd) || 0x10000 ≤ n

/-- What stands at the start of some bytes. -/
inductive Head
  | char (code : Nat) (width : Nat)
  | incomplete (width : Nat) (problem : Problem)
  | bad (problem : Problem)

/-- The bytes of a UTF-8 sequence after its first. -/
def trailing : Nat → Nat → List UInt8 → Option Nat
  | 0, value, _ => some value
  | _ + 1, _, [] => none
  | n + 1, value, b :: rest =>
    if b.toNat / 64 = 2 then trailing n (64 * value + b.toNat % 64) rest else none

/-- The width of a UTF-8 sequence, and the value bits of its first byte. -/
def leading (b : Nat) : Option (Nat × Nat) :=
  if b < 0x80 then some (1, b)
  else if 0xc0 ≤ b ∧ b < 0xe0 then some (2, b % 32)
  else if 0xe0 ≤ b ∧ b < 0xf0 then some (3, b % 16)
  else if 0xf0 ≤ b ∧ b < 0xf8 then some (4, b % 8)
  else none

/-- The least code point that needs a UTF-8 sequence of a width. -/
def leastCode : Nat → Nat
  | 2 => 0x80
  | 3 => 0x800
  | 4 => 0x10000
  | _ => 0

/-- A code point, if it may stand in a text. -/
def headOf (code width : Nat) : Head := if allowed code then .char code width else .bad .control

/-- The UTF-8 sequence at the start of bytes of which `room` can be seen. -/
def utf8Head (room : Nat) (bytes : List UInt8) : Head :=
  match bytes with
  | [] => .incomplete 1 .shortSequence
  | b :: rest =>
    match leading b.toNat with
    | none => .bad .badLeadingOctet
    | some (width, value) =>
      if room < width then .incomplete width .shortSequence
      else
        match trailing (width - 1) value rest with
        | none => .bad .badTrailingOctet
        | some code =>
          if code < leastCode width then .bad .badLength
          else if (0xd800 ≤ code ∧ code ≤ 0xdfff) ∨ 0x10ffff < code then .bad .badCharacter
          else headOf code width

/-- A 16-bit unit at the start of some bytes. -/
def unit (bigEndian : Bool) : List UInt8 → Nat
  | a :: b :: _ => if bigEndian then 256 * a.toNat + b.toNat else 256 * b.toNat + a.toNat
  | _ => 0

/-- The UTF-16 sequence at the start of bytes of which `room` can be seen. -/
def utf16Head (bigEndian : Bool) (room : Nat) (bytes : List UInt8) : Head :=
  if room < 2 then .incomplete 2 .shortUnit
  else
    let high := unit bigEndian bytes
    if high / 1024 = 0x37 then .bad .loneLowSurrogate
    else if high / 1024 = 0x36 then
      if room < 4 then .incomplete 4 .shortPair
      else
        let low := unit bigEndian (bytes.drop 2)
        if low / 1024 = 0x37 then headOf (0x10000 + 1024 * (high % 1024) + low % 1024) 4
        else .bad .loneHighSurrogate
    else headOf high 2

/-- The sequence at the start of some bytes. -/
def Encoding.head : Encoding → Nat → List UInt8 → Head
  | .utf8 => utf8Head
  | .utf16 bigEndian => utf16Head bigEndian

/-- The encoding of a text, and what follows its mark. -/
def Encoding.detect : List UInt8 → Encoding × List UInt8
  | 0xff :: 0xfe :: rest => (.utf16 false, rest)
  | 0xfe :: 0xff :: rest => (.utf16 true, rest)
  | 0xef :: 0xbb :: 0xbf :: rest => (.utf8, rest)
  | bytes => (.utf8, bytes)

/-- How many bytes are taken at a time. -/
def blockSize : Nat := 512

/-- Read characters. `size` counts the bytes, `room` those left in the block; `fresh` holds the
characters of the block and `kept` those of the blocks before it, both latest first. -/
def take (enc : Encoding) (fuel : Nat) (bytes : List UInt8) (size room : Nat)
    (fresh kept : List Char) : Source :=
  match fuel with
  | 0 => ⟨(fresh ++ kept).reverse, none⟩
  | fuel + 1 =>
    if size = 0 then ⟨(fresh ++ kept).reverse, none⟩
    else
      match enc.head (min room size) bytes with
      | .char code width =>
        take enc fuel (bytes.drop width) (size - width) (room - width)
          (Char.ofNat code :: fresh) kept
      | .incomplete width problem =>
        if size < width then ⟨(fresh ++ kept).reverse, some problem⟩
        else take enc fuel bytes size blockSize [] (fresh ++ kept)
      | .bad problem => ⟨kept.reverse, some problem⟩

/-- The characters of a text. -/
def ofBytes (bytes : List UInt8) : Source :=
  let (enc, rest) := Encoding.detect bytes
  let size := rest.length
  take enc (2 * size + 1) rest size (blockSize - (bytes.length - size)) [] []

/-- A text that cannot be read at all. -/
def unreadable (reason : String) : Source := ⟨[], some (.unreadable reason)⟩

end Source

end WhileLang.Yaml
