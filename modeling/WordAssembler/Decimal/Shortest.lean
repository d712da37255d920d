import WordAssembler.Decimal.Binary64

namespace WordAssembler.Binary64

/-- Of the two decimals with `places` digits next to a positive number, the
one that reads back as that number; of two the nearer, and at equal distance
the even one. The answer is the digits and the exponent of the last one. -/
def decimalOf? (mantissa : Nat) (exponent : Int) (order : Int) (places : Nat) :
    Option (Nat × Int) :=
  let scale := order - places + 1
  let (up, down) := powerFraction 2 exponent
  let (decimalUp, decimalDown) := powerFraction 10 scale
  let num := mantissa * up * decimalDown
  let den := down * decimalUp
  let low := num / den
  let near := roundQuotient num den
  let far := if near = low then low + 1 else low
  let readsBack := fun digits => ofDecimal false digits scale == .finite false mantissa exponent
  if readsBack near then some (near, scale)
  else if readsBack far then some (far, scale)
  else none

/-- The largest exponent of ten at or below a positive number. -/
def decimalOrder (mantissa : Nat) (exponent : Int) : Int :=
  let (up, down) := powerFraction 2 exponent
  let num := mantissa * up
  if down ≤ num then ((Nat.toDigits 10 (num / down)).length : Int) - 1
  else
    let missing := (Nat.toDigits 10 (down / num)).length
    if down ≤ num * Nat.pow 10 (missing - 1) then 1 - (missing : Int) else -(missing : Int)

/-- Digits without the zeros at their end, and the exponent of the last one. -/
def dropZeros (digits : List Char) (scale : Int) : List Char × Int :=
  let kept := (digits.reverse.dropWhile (· == '0')).reverse
  (kept, scale + (digits.length - kept.length : Nat))

/-- The fewest digits that read back as a positive number, with the exponent
of the last digit. Seventeen digits always do. -/
def shortest (mantissa : Nat) (exponent : Int) : List Char × Int :=
  let order := decimalOrder mantissa exponent
  match (List.range 17).findSome? fun n => decimalOf? mantissa exponent order (n + 1) with
  | some (digits, scale) => dropZeros (Nat.toDigits 10 digits) scale
  | none => (['0'], 0)

/-- How the digits of a number are set out: positionally while the point
stands at most sixteen places after the first digit and at most three before
it, otherwise with an exponent of at least two digits. A number always shows
that it is not an integer by a point or an exponent. -/
def layOut (digits : List Char) (scale : Int) : List Char :=
  let point := scale + digits.length
  if -4 < point ∧ point ≤ 16 then
    if point ≤ 0 then '0' :: '.' :: List.replicate (-point).toNat '0' ++ digits
    else if point < digits.length then
      digits.take point.toNat ++ '.' :: digits.drop point.toNat
    else digits ++ List.replicate (point.toNat - digits.length) '0' ++ ['.', '0']
  else
    let exponent := point - 1
    let size := Nat.toDigits 10 exponent.natAbs
    let fraction := if digits.length ≤ 1 then [] else '.' :: digits.drop 1
    digits.take 1 ++ fraction ++ 'e' :: (if exponent < 0 then '-' else '+') ::
      List.replicate (2 - size.length) '0' ++ size

def render : Binary64 → String
  | .finite negative mantissa exponent =>
    let sign := if negative then "-" else ""
    if mantissa = 0 then sign ++ "0.0"
    else
      let (digits, scale) := shortest mantissa exponent
      sign ++ String.ofList (layOut digits scale)
  | .infinite negative => if negative then "-inf" else "inf"
  | .undefined => "nan"

end WordAssembler.Binary64
