/-
Decimal numerals of binary fractions. A number of a settings file is kept as the numeral with the
fewest digits that still rounds to the same fraction, which is also how it is printed.
-/
import ProjectLint.Number.Binary64

namespace ProjectLint
namespace Number

structure Decimal where
  negative : Bool
  digits : Nat
  exponent : Int
  deriving DecidableEq, Repr

namespace Decimal

def ofNat (n : Nat) : Decimal :=
  ⟨false, n, 0⟩

def ratio (d : Decimal) : Nat × Nat :=
  if 0 ≤ d.exponent then (d.digits * Nat.pow 10 d.exponent.toNat, 1)
  else (d.digits, Nat.pow 10 (-d.exponent).toNat)

def ltNat (d : Decimal) (n : Nat) : Bool :=
  let (num, den) := d.ratio
  if d.negative then decide (0 < n) || decide (0 < num) else decide (num < n * den)

def gtNat (d : Decimal) (n : Nat) : Bool :=
  let (num, den) := d.ratio
  !d.negative && decide (n * den < num)

def neighbours (num den : Nat) (whole : Int) (count : Nat) : List Decimal :=
  let exponent := whole - count
  let (num, den) :=
    if 0 ≤ exponent then (num, den * Nat.pow 10 exponent.toNat)
    else (num * Nat.pow 10 (-exponent).toNat, den)
  let below := num / den
  let first := ⟨false, below, exponent⟩
  let second := ⟨false, below + 1, exponent⟩
  let twice := 2 * (num % den)
  if twice < den || (twice == den && below % 2 == 0) then [first, second] else [second, first]

def wholeDigits (num den : Nat) : Int :=
  let guess : Int := (floorLog2 num den) * 30103 / 100000
  let reaches (k : Int) :=
    if 0 ≤ k then decide (den * Nat.pow 10 k.toNat ≤ num)
    else decide (den ≤ num * Nat.pow 10 (-k).toNat)
  if reaches (guess + 1) then guess + 2 else if reaches guess then guess + 1 else guess

def stripZeros : Nat → Decimal → Decimal
  | 0, d => d
  | fuel + 1, d =>
      if d.digits ≠ 0 && d.digits % 10 == 0 then
        stripZeros fuel ⟨d.negative, d.digits / 10, d.exponent + 1⟩
      else d

def shortest (x : Binary64) : Decimal :=
  if x.mantissa = 0 then ⟨false, 0, 0⟩
  else
    let (num, den) := x.ratio
    let whole := wholeDigits num den
    let roundsBack (d : Decimal) : Bool :=
      let (n, m) := d.ratio
      Binary64.nearest n m == some x
    let found := (List.range 17).findSome? fun i =>
      (neighbours num den whole (i + 1)).find? roundsBack
    stripZeros 20 (found.getD ⟨false, num / den, 0⟩)

def place (d : Decimal) : Int :=
  d.exponent + (toString d.digits).length

def rounded (d : Decimal) : Option Decimal :=
  if d.digits = 0 || decide (d.place < -400) then some ⟨d.negative, 0, 0⟩
  else if 400 < d.place then none
  else
    let (num, den) := d.ratio
    (Binary64.nearest num den).map fun x => { shortest x with negative := d.negative }

def exponentText (e : Int) : String :=
  if e < 0 then "e-" ++ toString (-e).toNat else "e+" ++ toString e.toNat

def zeros (n : Nat) : String :=
  String.ofList (List.replicate n '0')

def magnitudeText (d : Decimal) : String :=
  if d.digits = 0 then "0"
  else
    let digits := toString d.digits
    let count := digits.length
    let point : Int := d.exponent + count
    if 0 ≤ d.exponent && decide (point ≤ 21) then digits ++ zeros d.exponent.toNat
    else if 0 < point && decide (point ≤ 21) then
      String.ofList (digits.toList.take point.toNat) ++ "." ++
        String.ofList (digits.toList.drop point.toNat)
    else if -6 < point && decide (point ≤ 0) then "0." ++ zeros (-point).toNat ++ digits
    else
      match digits.toList with
      | [] => ""
      | [c] => String.ofList [c] ++ exponentText (point - 1)
      | c :: rest => String.ofList (c :: '.' :: rest) ++ exponentText (point - 1)

def text (d : Decimal) : String :=
  if d.negative && d.digits ≠ 0 then "-" ++ d.magnitudeText else d.magnitudeText

end Decimal
end Number
end ProjectLint
