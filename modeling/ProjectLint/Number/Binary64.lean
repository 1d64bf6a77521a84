/-
Rounding to binary fractions of 53 bits. Counts and durations pass through this format, so a whole
number beyond 2^53 moves to a neighbour and a quotient is the nearest such fraction, not the exact
one. All of it is done in natural numbers.
-/

namespace ProjectLint
namespace Number

structure Binary64 where
  mantissa : Nat
  exponent : Int
  deriving DecidableEq, Repr

def roundDiv (num den : Nat) : Nat :=
  let quotient := num / den
  let twice := 2 * (num % den)
  if twice < den then quotient
  else if den < twice then quotient + 1
  else quotient + quotient % 2

def floorLog2 (num den : Nat) : Int :=
  let guess : Int := (num.log2 : Int) - (den.log2 : Int)
  let reached :=
    if 0 ≤ guess then decide (den * Nat.pow 2 guess.toNat ≤ num)
    else decide (den ≤ num * Nat.pow 2 (-guess).toNat)
  if reached then guess else guess - 1

namespace Binary64

def leastExponent : Int := -1074

def greatestExponent : Int := 971

def nearest (num den : Nat) : Option Binary64 :=
  if num = 0 then some ⟨0, 0⟩
  else
    let exponent := max leastExponent (floorLog2 num den - 52)
    let mantissa :=
      if 0 ≤ exponent then roundDiv num (den * Nat.pow 2 exponent.toNat)
      else roundDiv (num * Nat.pow 2 (-exponent).toNat) den
    let (mantissa, exponent) :=
      if mantissa = Nat.pow 2 53 then (Nat.pow 2 52, exponent + 1) else (mantissa, exponent)
    if greatestExponent < exponent then none else some ⟨mantissa, exponent⟩

def ratio (x : Binary64) : Nat × Nat :=
  if 0 ≤ x.exponent then (x.mantissa * Nat.pow 2 x.exponent.toNat, 1)
  else (x.mantissa, Nat.pow 2 (-x.exponent).toNat)

def floorOf (num den : Nat) : Nat :=
  match nearest num den with
  | none => num / den
  | some x =>
      let (num, den) := x.ratio
      num / den

def tenths (x : Binary64) : Nat :=
  let (num, den) := x.ratio
  (20 * num + den) / (2 * den)

end Binary64

inductive Whole
  | finite (value : Int)
  | infinite (negative : Bool)
  deriving DecidableEq, Repr

namespace Whole

def le : Whole → Whole → Bool
  | .finite a, .finite b => decide (a ≤ b)
  | .infinite negative, .finite _ => negative
  | .finite _, .infinite negative => !negative
  | .infinite a, .infinite b => a || !b

def ofDigits (negative : Bool) (digits : List Char) : Whole :=
  let magnitude := digits.foldl (fun n c => 10 * n + (c.toNat - '0'.toNat)) 0
  match Binary64.nearest magnitude 1 with
  | none => .infinite negative
  | some x =>
      let (num, den) := x.ratio
      .finite (if negative then -((num / den : Nat) : Int) else ((num / den : Nat) : Int))

end Whole
end Number
end ProjectLint
