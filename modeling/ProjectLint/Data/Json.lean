/-
Reading a value from JSON text. The text is cut into tokens first; a value is then read from the
tokens by descent, as deep as there are tokens.
-/
import ProjectLint.Data.Value
import ProjectLint.Text.Units

namespace ProjectLint
namespace Data
namespace Json

inductive Token
  | mark (c : Char)
  | text (value : String)
  | word (letters : List Char)

inductive State
  | between
  | inWord (letters : List Char)
  | inText (units : List Nat)
  | afterBackslash (units : List Nat)
  | inUnicode (units : List Nat) (digits : List Nat)

def ofUnits : List Nat → List Char
  | [] => []
  | [u] => [if 0xD800 ≤ u ∧ u ≤ 0xDFFF then Char.ofNat 0xFFFD else Char.ofNat u]
  | u :: v :: rest =>
      if 0xD800 ≤ u ∧ u ≤ 0xDBFF ∧ 0xDC00 ≤ v ∧ v ≤ 0xDFFF then
        Char.ofNat (0x10000 + (u - 0xD800) * 0x400 + (v - 0xDC00)) :: ofUnits rest
      else
        (if 0xD800 ≤ u ∧ u ≤ 0xDFFF then Char.ofNat 0xFFFD else Char.ofNat u) :: ofUnits (v :: rest)

def isBlank (c : Char) : Bool :=
  c == ' ' || c == '\t' || c == '\n' || c == '\r'

def isMark (c : Char) : Bool :=
  c == '\x7b' || c == '\x7d' || c == '[' || c == ']' || c == ',' || c == ':'

def hexValue? (c : Char) : Option Nat :=
  if '0' ≤ c ∧ c ≤ '9' then some (c.toNat - 48)
  else if 'a' ≤ c ∧ c ≤ 'f' then some (c.toNat - 87)
  else if 'A' ≤ c ∧ c ≤ 'F' then some (c.toNat - 55)
  else none

def escape? (c : Char) : Option Nat :=
  if c = '"' ∨ c = '\\' ∨ c = '/' then some c.toNat
  else if c = 'b' then some 8
  else if c = 'f' then some 12
  else if c = 'n' then some 10
  else if c = 'r' then some 13
  else if c = 't' then some 9
  else none

def begin? (c : Char) : Option (List Token × State) :=
  if isBlank c then some ([], .between)
  else if isMark c then some ([.mark c], .between)
  else if c = '"' then some ([], .inText [])
  else some ([], .inWord [c])

def step? (state : State) (c : Char) : Option (List Token × State) :=
  match state with
  | .between => begin? c
  | .inWord letters =>
      if isBlank c || isMark c || c == '"' then
        (begin? c).map fun (tokens, next) => (.word letters.reverse :: tokens, next)
      else some ([], .inWord (c :: letters))
  | .inText units =>
      if c = '"' then some ([.text (String.ofList (ofUnits units.reverse))], .between)
      else if c = '\\' then some ([], .afterBackslash units)
      else if c.toNat < 32 then none
      else some ([], .inText ((Text.charUnits c).reverse ++ units))
  | .afterBackslash units =>
      if c = 'u' then some ([], .inUnicode units [])
      else (escape? c).map fun unit => ([], .inText (unit :: units))
  | .inUnicode units digits =>
      (hexValue? c).map fun digit =>
        match digits with
        | [z, y, x] => ([], .inText ((((x * 16 + y) * 16 + z) * 16 + digit) :: units))
        | _ => ([], .inUnicode units (digit :: digits))

def tokensFrom : State → List Char → Option (List Token)
  | .between, [] => some []
  | .inWord letters, [] => some [.word letters.reverse]
  | _, [] => none
  | state, c :: cs => do
      let (tokens, next) ← step? state c
      let rest ← tokensFrom next cs
      return tokens ++ rest

def ofWord? (letters : List Char) : Option Value :=
  if letters = "null".toList then some .null
  else if letters = "true".toList then some (.bool true)
  else if letters = "false".toList then some (.bool false)
  else
    match Number.Numeral.read letters with
    | none => none
    | some numeral =>
        let plus := numeral.signed && !numeral.negative
        let padded := match numeral.whole with
          | '0' :: _ :: _ => true
          | [] => true
          | _ => false
        if plus || padded || numeral.fraction == some [] then none
        else some (.number (.ofDecimal numeral.value))

mutual

def value? (fuel : Nat) (tokens : List Token) : Option (Value × List Token) :=
  match fuel with
  | 0 => none
  | fuel + 1 =>
      match tokens with
      | .text value :: rest => some (.text value, rest)
      | .word letters :: rest => (ofWord? letters).map fun value => (value, rest)
      | .mark '[' :: .mark ']' :: rest => some (.list [], rest)
      | .mark '[' :: rest => (items? fuel rest).map fun (items, rest) => (.list items, rest)
      | .mark '\x7b' :: .mark '\x7d' :: rest => some (.record [], rest)
      | .mark '\x7b' :: rest =>
          (fields? fuel rest).map fun (fields, rest) => (.ofFields fields, rest)
      | _ => none

def items? (fuel : Nat) (tokens : List Token) : Option (List Value × List Token) :=
  match fuel with
  | 0 => none
  | fuel + 1 => do
      let (item, rest) ← value? fuel tokens
      match rest with
      | .mark ',' :: rest =>
          let (items, rest) ← items? fuel rest
          return (item :: items, rest)
      | .mark ']' :: rest => return ([item], rest)
      | _ => none

def fields? (fuel : Nat) (tokens : List Token) : Option (List (String × Value) × List Token) :=
  match fuel with
  | 0 => none
  | fuel + 1 =>
      match tokens with
      | .text key :: .mark ':' :: rest => do
          let (value, rest) ← value? fuel rest
          match rest with
          | .mark ',' :: rest =>
              let (fields, rest) ← fields? fuel rest
              return ((key, value) :: fields, rest)
          | .mark '\x7d' :: rest => return ([(key, value)], rest)
          | _ => none
      | _ => none

end

def read? (text : String) : Option Value := do
  let tokens ← tokensFrom .between text.toList
  let (value, rest) ← value? (tokens.length + 1) tokens
  if rest.isEmpty then return value else none

end Json
end Data
end ProjectLint
