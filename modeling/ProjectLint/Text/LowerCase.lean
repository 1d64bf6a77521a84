/-
Lower case by the full mapping of Unicode. Two characters need more than the table: a dotted capital
I becomes two characters, and a capital sigma at the end of a word takes its final form.
-/
import ProjectLint.Text.CaseTable

namespace ProjectLint
namespace Text

namespace Case

def simple (c : Char) : Char :=
  let n := c.toNat
  match shifts.find? fun shift => shift.first ≤ n && n < shift.first + shift.count with
  | some shift => Char.ofNat (Int.toNat (n + shift.distance))
  | none =>
    if pairs.any fun (first, count) => first ≤ n && n < first + 2 * count &&
      (n - first) % 2 == 0 then
      Char.ofNat (n + 1)
    else c

def inRuns (inside : Bool) : List Nat → Nat → Bool
  | [], _ => false
  | run :: rest, n => if n < run then inside else inRuns (!inside) rest (n - run)

def meetsCased (cs : List Char) : Bool :=
  match cs.dropWhile fun c => inRuns false ignorableRuns c.toNat with
  | [] => false
  | c :: _ => inRuns false casedRuns c.toNat

end Case

def lowerChar (before : List Char) (c : Char) (after : List Char) : List Char :=
  if c = 'İ' then ['i', Char.ofNat 0x307]
  else if c = 'Σ' && Case.meetsCased before && !Case.meetsCased after then ['ς']
  else [Case.simple c]

def lowerChars : List Char → List Char → List Char
  | _, [] => []
  | before, c :: rest => lowerChar before c rest ++ lowerChars (c :: before) rest

def lower (text : String) : String :=
  String.ofList (lowerChars [] text.toList)

end Text
end ProjectLint
