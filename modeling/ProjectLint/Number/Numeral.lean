/-
Reading numerals from text. A leading whole number ends at the first character that is no digit; a
complete numeral has a fraction and an exponent and nothing else.
-/
import ProjectLint.Text.Blank
import ProjectLint.Number.Decimal

namespace ProjectLint
namespace Number

def isDigit (c : Char) : Bool :=
  decide ('0' ≤ c) && decide (c ≤ '9')

def digitsValue (digits : List Char) : Nat :=
  digits.foldl (fun n c => 10 * n + (c.toNat - '0'.toNat)) 0

def cutSign : List Char → Bool × List Char
  | '-' :: rest => (true, rest)
  | '+' :: rest => (false, rest)
  | rest => (false, rest)

def leadingWhole (text : String) : Option Whole :=
  let (negative, rest) := cutSign (text.toList.dropWhile Text.isBlank)
  match rest.takeWhile isDigit with
  | [] => none
  | digits => some (Whole.ofDigits negative digits)

def assemble (negative : Bool) (whole fraction : List Char) (exponent : Int) : Decimal :=
  ⟨negative, digitsValue (whole ++ fraction), exponent - fraction.length⟩

def cutExponent : List Char → Option Int
  | [] => some 0
  | c :: rest =>
      if c = 'e' ∨ c = 'E' then
        let (negative, digits) := cutSign rest
        if digits.isEmpty || !digits.all isDigit then none
        else some (if negative then -(digitsValue digits : Int) else (digitsValue digits : Int))
      else none

structure Numeral where
  negative : Bool
  signed : Bool
  whole : List Char
  /-- The digits after the point, when there is a point. -/
  fraction : Option (List Char)
  exponent : Option Int

def Numeral.read (cs : List Char) : Option Numeral :=
  let (negative, rest) := cutSign cs
  let signed := rest.length != cs.length
  let whole := rest.takeWhile isDigit
  let (fraction, rest) :=
    match rest.dropWhile isDigit with
    | '.' :: rest => (some (rest.takeWhile isDigit), rest.dropWhile isDigit)
    | rest => (none, rest)
  match rest with
  | [] => some ⟨negative, signed, whole, fraction, none⟩
  | _ => (cutExponent rest).map fun e => ⟨negative, signed, whole, fraction, some e⟩

def Numeral.value (n : Numeral) : Decimal :=
  assemble n.negative n.whole (n.fraction.getD []) (n.exponent.getD 0)

end Number
end ProjectLint
