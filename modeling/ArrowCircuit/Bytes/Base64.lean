import ArrowCircuit.Bytes.Basic

/-!
# Base64

Three bytes are four characters of an alphabet of 64; at the end, one byte is two characters and two
are three, filled up with equals signs.
-/

namespace ArrowCircuit.Bytes

/-- The character of a number below 64. -/
def base64Char (n : Nat) : Char :=
  if n < 26 then Char.ofNat (0x41 + n)
  else if n < 52 then Char.ofNat (0x61 + (n - 26))
  else if n < 62 then Char.ofNat (0x30 + (n - 52))
  else if n = 62 then '+' else '/'

/-- The characters of a byte string. -/
def base64Chars : Bytes → List Char
  | [] => []
  | [a] =>
    let n := a.toNat * 16
    [base64Char (n / 64), base64Char (n % 64), '=', '=']
  | [a, b] =>
    let n := (a.toNat * 256 + b.toNat) * 4
    [base64Char (n / 4096), base64Char (n / 64 % 64), base64Char (n % 64), '=']
  | a :: b :: c :: rest =>
    let n := (a.toNat * 256 + b.toNat) * 256 + c.toNat
    [base64Char (n / 262144), base64Char (n / 4096 % 64), base64Char (n / 64 % 64),
      base64Char (n % 64)] ++ base64Chars rest

/-- The base64 text of a byte string. -/
def base64 (bs : Bytes) : String := String.ofList (base64Chars bs)

end ArrowCircuit.Bytes
