/-
Patterns for files whose findings are ignored. A pattern that ends in a slash names a folder, one
with wildcards is compared unit by unit, and any other names a path or a folder above it.
-/
import ProjectLint.Text.Units

namespace ProjectLint
namespace Settings
namespace Pattern

def isLineEnd (unit : Nat) : Bool :=
  unit == 0xA || unit == 0xD || unit == 0x2028 || unit == 0x2029

def star : Nat := '*'.toNat

def mark : Nat := '?'.toNat

def slash : Nat := '/'.toNat

def afterRun (rest : List Nat → Bool) : List Nat → Bool
  | [] => rest []
  | u :: us => rest (u :: us) || (!isLineEnd u && afterRun rest us)

def wildMatches : List Nat → List Nat → Bool
  | [], us => us.isEmpty
  | p :: ps, us =>
      if p = star then afterRun (wildMatches ps) us
      else
        match us with
        | [] => false
        | u :: us => (if p = mark then !isLineEnd u else p == u) && wildMatches ps us

def normalized (pattern : List Nat) : List Nat :=
  pattern.map fun u => if u = '\\'.toNat then slash else u

def hasWildcard (pattern : List Nat) : Bool :=
  pattern.any fun u => u == star || u == mark

/-- Whether a pattern of ignored paths matches. -/
def accepts (pattern path : List Nat) : Bool :=
  let pattern := normalized pattern
  if [slash].isSuffixOf pattern then pattern.isPrefixOf path
  else if hasWildcard pattern then wildMatches pattern path
  else path == pattern || (pattern ++ [slash]).isPrefixOf path

def isMatch (path pattern : String) : Bool :=
  accepts (Text.units pattern) (Text.units path)

end Pattern
end Settings
end ProjectLint
