/-
UTF-16 code units. Names are ordered by their units, and the wildcards of a pattern count units, so
a character beyond the basic plane counts twice and sorts before U+E000.
-/
import ProjectLint.Sorting

namespace ProjectLint
namespace Text

def charUnits (c : Char) : List Nat :=
  if c.toNat < 0x10000 then [c.toNat]
  else
    [0xD800 + (c.toNat - 0x10000) / 0x400, 0xDC00 + (c.toNat - 0x10000) % 0x400]

def units (text : String) : List Nat :=
  text.toList.flatMap charUnits

def unitsLe (a b : String) : Bool :=
  !decide (units b < units a)

def sortedByUnits (names : List String) : List String :=
  sortBy unitsLe names

end Text
end ProjectLint
