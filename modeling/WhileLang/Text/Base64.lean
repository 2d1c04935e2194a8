/-!
# Base 64

Four letters stand for three bytes; equals signs fill up the last group. Line breaks are passed over.
-/

namespace WhileLang.Text

/-- The six bits that a letter stands for. -/
def sixBits? (c : Char) : Option Nat :=
  if c.isUpper then some (c.toNat - 65)
  else if c.isLower then some (c.toNat - 71)
  else if c.isDigit then some (c.toNat + 4)
  else if c == '+' then some 62
  else if c == '/' then some 63
  else none

/-- The bytes that letters without line breaks stand for. -/
def groups64? : List Char → Option (List UInt8)
  | [] => some []
  | [a, b, '=', '='] => do
    let n := 64 * (← sixBits? a) + (← sixBits? b)
    return [UInt8.ofNat (n / 16)]
  | [a, b, c, '='] => do
    let n := 64 * (64 * (← sixBits? a) + (← sixBits? b)) + (← sixBits? c)
    return [UInt8.ofNat (n / 1024), UInt8.ofNat (n / 4)]
  | a :: b :: c :: d :: rest => do
    let n := 64 * (64 * (64 * (← sixBits? a) + (← sixBits? b)) + (← sixBits? c)) + (← sixBits? d)
    let more ← groups64? rest
    return UInt8.ofNat (n / 65536) :: UInt8.ofNat (n / 256) :: UInt8.ofNat n :: more
  | _ => none

/-- The bytes that a text stands for. -/
def base64? (cs : List Char) : Option (List UInt8) :=
  groups64? (cs.filter fun c => c != '\n' && c != '\r')

end WhileLang.Text
