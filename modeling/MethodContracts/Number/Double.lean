import MethodContracts.Number.Shortest

/-!
# Double-precision numbers and their text

A double-precision number is kept as its 64-bit pattern: one sign bit, eleven bits of
biased exponent, fifty-two bits of fraction. The text is the shortest decimal that reads
back as the number, written positionally in the middle range and scientifically outside.
-/

namespace MethodContracts.Number

/-- What a 64-bit pattern stands for. -/
inductive Double where
  | nan
  | infinite (negative : Bool)
  | zero (negative : Bool)
  | finite (negative : Bool) (magnitude : Binary)
deriving DecidableEq, Repr

namespace Double

/-- The bit that stands in front of the fraction of a number that is not subnormal. -/
def leadingBit : Nat := 0x10000000000000

/-- Reads a 64-bit pattern. Biased exponent zero holds the zeros and the subnormal numbers,
the largest one the infinities and everything that is not a number. -/
def ofBits (bits : UInt64) : Double :=
  let n := bits.toNat
  let negative : Bool := n >>> 63 = 1
  let biased : Nat := (n >>> 52) % 0x800
  let fraction : Nat := n % leadingBit
  if biased = 2047 then
    if fraction = 0 then .infinite negative else .nan
  else if biased = 0 then
    if fraction = 0 then .zero negative else .finite negative ⟨fraction, -1074, false⟩
  else
    .finite negative ⟨leadingBit + fraction, (biased : Int) - 1075, fraction = 0 ∧ 1 < biased⟩

/-! ## Text -/

/-- The layout of a decimal: which places of the decimal point are written positionally. -/
structure Layout where
  /-- least place of the point that is written positionally -/
  least : Int
  /-- greatest place of the point that is written positionally -/
  greatest : Int

/-- Numbers from `0.0001` up to, but not including, `10 ^ 16` are written positionally. -/
def layout : Layout := ⟨-3, 16⟩

/-- Digits with the point after the first `point` of them, always with a fraction. -/
def positional (digits : List Char) (point : Int) : List Char :=
  if point ≤ 0 then
    ['0', '.'] ++ List.replicate (-point).toNat '0' ++ digits
  else if point.toNat < digits.length then
    digits.take point.toNat ++ ['.'] ++ digits.drop point.toNat
  else
    digits ++ List.replicate (point.toNat - digits.length) '0' ++ ['.', '0']

/-- One digit before the point, then the power of ten; a single digit has no point. -/
def scientific (digits : List Char) (point : Int) : List Char :=
  let power := 'e' :: (toString (point - 1)).toList
  match digits with
  | [] => power
  | [d] => d :: power
  | d :: more => d :: '.' :: more ++ power

/-- The text of a decimal without trailing zeros in its digits. -/
def decimalText (form : Layout) (d : Decimal) : List Char :=
  let all := Nat.toDigits 10 d.digits
  let point := (all.length : Int) + d.scale
  let digits := (all.reverse.dropWhile (· = '0')).reverse
  if form.least ≤ point ∧ point ≤ form.greatest then positional digits point
  else scientific digits point

/-- The sign that is written before a number. -/
def signText (negative : Bool) : List Char := if negative then ['-'] else []

/-- The text of a double-precision number. -/
def text : Double → String
  | nan => "NaN"
  | infinite negative => String.ofList (signText negative ++ ['i', 'n', 'f'])
  | zero negative => String.ofList (signText negative ++ ['0', '.', '0'])
  | finite negative v =>
    String.ofList (signText negative ++ decimalText layout v.shortest)

end Double

end MethodContracts.Number
