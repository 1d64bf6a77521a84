/-
Values of a data format: what a settings file spells, what a report carries along, and what a log
line shows beside its message. Fields keep the order in which they are listed.
-/
import ProjectLint.Number.Numeral
import ProjectLint.Sorting
import ProjectLint.Text.Basic

namespace ProjectLint
namespace Data

inductive Amount
  | finite (value : Number.Decimal)
  | infinite (negative : Bool)
  | nan
  deriving DecidableEq, Repr

namespace Amount

def ofDecimal (d : Number.Decimal) : Amount :=
  match d.rounded with
  | some value => .finite value
  | none => .infinite d.negative

def text : Amount → String
  | .finite value => value.text
  | .infinite true => "-Infinity"
  | .infinite false => "Infinity"
  | .nan => "NaN"

end Amount

inductive Value
  | null
  | bool (value : Bool)
  | number (value : Amount)
  | text (value : String)
  | list (items : List Value)
  | record (fields : List (String × Value))

namespace Value

def ofNat (n : Nat) : Value :=
  .number (.finite (Number.Decimal.ofNat n))

def kind : Value → String
  | .null => "null"
  | .bool _ => "boolean"
  | .number .nan => "nan"
  | .number _ => "number"
  | .text _ => "string"
  | .list _ => "array"
  | .record _ => "object"

def position? (key : String) : Option Nat :=
  let digits := key.toList
  let n := Number.digitsValue digits
  if !digits.isEmpty && digits.all Number.isDigit && toString n == key &&
      decide (n < Nat.pow 2 32 - 1) then some n
  else none

def setField (fields : List (String × Value)) (key : String) (value : Value) :
    List (String × Value) :=
  if fields.any (·.1 == key) then
    fields.map fun field => if field.1 == key then (key, value) else field
  else fields ++ [(key, value)]

def ofFields (fields : List (String × Value)) : Value :=
  let merged := fields.foldl (fun acc field => setField acc field.1 field.2) []
  let positions := merged.filter fun field => (position? field.1).isSome
  let others := merged.filter fun field => (position? field.1).isNone
  let before (a b : String × Value) : Bool :=
    decide ((position? a.1).getD 0 ≤ (position? b.1).getD 0)
  .record (sortBy before positions ++ others)

def field? (fields : List (String × Value)) (key : String) : Option Value :=
  (fields.find? (·.1 == key)).map Prod.snd

def get (value : Value) (key : String) : Value :=
  match value with
  | .record fields => (field? fields key).getD .null
  | _ => .null

def items : Value → List Value
  | .list items => items
  | _ => []

def fields : Value → List (String × Value)
  | .record fields => fields
  | _ => []

def text? : Value → Option String
  | .text value => some value
  | _ => none

mutual

def foldUnder (key : String) (make : Value → List α → α) : Value → α
  | .record fields => make (.record fields) (foldField key make fields)
  | value => make value []

def foldField (key : String) (make : Value → List α → α) : List (String × Value) → List α
  | [] => []
  | (name, value) :: rest =>
      if name == key then foldBranches key make value else foldField key make rest

def foldBranches (key : String) (make : Value → List α → α) : Value → List α
  | .list items => foldItems key make items
  | _ => []

def foldItems (key : String) (make : Value → List α → α) : List Value → List α
  | [] => []
  | item :: rest => item.foldUnder key make :: foldItems key make rest

end

/-! ## Text of a value on one line -/

def hexDigit (n : Nat) : Char :=
  if n < 10 then Char.ofNat (48 + n) else Char.ofNat (87 + n)

def escapedChar (c : Char) : List Char :=
  if c = '"' then ['\\', '"']
  else if c = '\\' then ['\\', '\\']
  else if c.toNat = 8 then ['\\', 'b']
  else if c.toNat = 12 then ['\\', 'f']
  else if c = '\n' then ['\\', 'n']
  else if c = '\r' then ['\\', 'r']
  else if c = '\t' then ['\\', 't']
  else if c.toNat < 32 then
    ['\\', 'u', '0', '0', hexDigit (c.toNat / 16), hexDigit (c.toNat % 16)]
  else [c]

def quoted (text : String) : String :=
  "\"" ++ String.ofList (text.toList.flatMap escapedChar) ++ "\""

mutual

def render : Value → String
  | .null => "null"
  | .bool true => "true"
  | .bool false => "false"
  | .number (.finite value) => value.text
  | .number _ => "null"
  | .text value => quoted value
  | .list items => "[" ++ Text.joined "," (renderItems items) ++ "]"
  | .record fields => "\x7b" ++ Text.joined "," (renderFields fields) ++ "\x7d"

def renderItems : List Value → List String
  | [] => []
  | item :: rest => item.render :: renderItems rest

def renderFields : List (String × Value) → List String
  | [] => []
  | (key, value) :: rest => (quoted key ++ ":" ++ value.render) :: renderFields rest

end

mutual

def plain : Value → String
  | .null => "null"
  | .bool true => "true"
  | .bool false => "false"
  | .number value => value.text
  | .text value => value
  | .list items => Text.joined "," (plainItems items)
  | .record _ => "[object Object]"

def plainItems : List Value → List String
  | [] => []
  | .null :: rest => "" :: plainItems rest
  | item :: rest => item.plain :: plainItems rest

end

end Value
end Data
end ProjectLint
