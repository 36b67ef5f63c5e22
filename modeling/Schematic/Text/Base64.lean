import Schematic.Text

/-!
# Base 64

Bytes as letters, digits and two marks, six bits each, filled up to groups of four.
-/

namespace Schematic.Text

/-- The character for six bits. -/
def base64Digit (n : Nat) : UInt8 :=
  if n < 26 then (0x41 + n).toUInt8
  else if n < 52 then (0x61 + (n - 26)).toUInt8
  else if n < 62 then (0x30 + (n - 52)).toUInt8
  else if n = 62 then 0x2B
  else 0x2F

/-- The text of bytes in base 64. -/
def base64 : Text → Text
  | a :: b :: c :: t =>
    let n := a.toNat * 0x10000 + b.toNat * 0x100 + c.toNat
    [base64Digit (n / 0x40000), base64Digit (n / 0x1000 % 64), base64Digit (n / 64 % 64),
      base64Digit (n % 64)] ++ base64 t
  | [a, b] =>
    let n := a.toNat * 0x10000 + b.toNat * 0x100
    [base64Digit (n / 0x40000), base64Digit (n / 0x1000 % 64), base64Digit (n / 64 % 64), 0x3D]
  | [a] =>
    let n := a.toNat * 0x10000
    [base64Digit (n / 0x40000), base64Digit (n / 0x1000 % 64), 0x3D, 0x3D]
  | [] => []

/-- The six bits of a character. -/
def base64Value? (b : UInt8) : Option Nat :=
  if 0x41 ≤ b && b ≤ 0x5A then some (b.toNat - 0x41)
  else if 0x61 ≤ b && b ≤ 0x7A then some (b.toNat - 0x61 + 26)
  else if 0x30 ≤ b && b ≤ 0x39 then some (b.toNat - 0x30 + 52)
  else if b = 0x2B then some 62
  else if b = 0x2F then some 63
  else none

/-- The bytes of groups of four characters. -/
def ofBase64Groups : Text → Option Text
  | [] => some []
  | [a, b, 0x3D, 0x3D] => do
    let n := (← base64Value? a) * 64 + (← base64Value? b)
    return [(n / 16).toUInt8]
  | [a, b, c, 0x3D] => do
    let n := ((← base64Value? a) * 64 + (← base64Value? b)) * 64 + (← base64Value? c)
    return [(n / 1024).toUInt8, (n / 4 % 256).toUInt8]
  | a :: b :: c :: d :: t => do
    let n := (((← base64Value? a) * 64 + (← base64Value? b)) * 64 + (← base64Value? c)) * 64 +
      (← base64Value? d)
    let rest ← ofBase64Groups t
    return (n / 0x10000).toUInt8 :: (n / 0x100 % 256).toUInt8 :: (n % 256).toUInt8 :: rest
  | _ => none

/-- The bytes that a text in base 64 stands for; line ends in it do not count. -/
def ofBase64? (t : Text) : Option Text :=
  ofBase64Groups (t.filter fun b => b ≠ 0x0A && b ≠ 0x0D)

end Schematic.Text
