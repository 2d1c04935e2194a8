/-!
# Text from bytes

Bytes are read as UTF-8. A byte that belongs to no character is read as the replacement character, and
reading goes on with the next byte.
-/

namespace WhileLang.Text

/-- Stands for a byte that belongs to no character. -/
def replacement : Char := Char.ofNat 0xfffd

/-- Whether a byte continues a character. -/
def isContinuation (b : UInt8) : Bool := 0x80 ≤ b && b ≤ 0xbf

/-- The six bits that a continuation byte adds to a number. -/
def addBits (n : Nat) (b : UInt8) : Nat := 64 * n + (b.toNat - 0x80)

/-- Whether the second byte goes with the first one. Some second bytes would make a character longer than
it has to be, a surrogate, or a number beyond Unicode. -/
def secondFits (first second : UInt8) : Bool :=
  isContinuation second
    && (if first == 0xe0 then 0xa0 ≤ second
        else if first == 0xed then second ≤ 0x9f
        else if first == 0xf0 then 0x90 ≤ second
        else if first == 0xf4 then second ≤ 0x8f
        else true)

/-- The first character of some bytes and how many of them it takes up beyond the first. -/
def firstChar (a : UInt8) (rest : List UInt8) : Char × Nat :=
  if a < 0x80 then (Char.ofNat a.toNat, 0)
  else
    match rest with
    | [] => (replacement, 0)
    | b :: more =>
      if !secondFits a b then (replacement, 0)
      else if 0xc2 ≤ a && a ≤ 0xdf then (Char.ofNat (addBits (a.toNat - 0xc0) b), 1)
      else
        match more with
        | [] => (replacement, 0)
        | c :: more =>
          if !isContinuation c then (replacement, 0)
          else if 0xe0 ≤ a && a ≤ 0xef then
            (Char.ofNat (addBits (addBits (a.toNat - 0xe0) b) c), 2)
          else
            match more with
            | [] => (replacement, 0)
            | d :: _ =>
              if isContinuation d && 0xf0 ≤ a && a ≤ 0xf4 then
                (Char.ofNat (addBits (addBits (addBits (a.toNat - 0xf0) b) c) d), 3)
              else (replacement, 0)

/-- Decode bytes, of which the first `skip` belong to a character that has been read already. -/
def decodeFrom : (skip : Nat) → List UInt8 → List Char → List Char
  | _, [], acc => acc.reverse
  | skip + 1, _ :: rest, acc => decodeFrom skip rest acc
  | 0, a :: rest, acc =>
    let (c, extra) := firstChar a rest
    decodeFrom extra rest (c :: acc)

/-- The characters that bytes stand for. -/
def ofUtf8 (bytes : List UInt8) : List Char := decodeFrom 0 bytes []

end WhileLang.Text
