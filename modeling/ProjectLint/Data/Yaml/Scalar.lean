/-
The values of YAML scalars. A line end inside a scalar counts as a space and an empty line as a line
end; plain scalars take their type from the core schema, so `no` is a text.
-/
import ProjectLint.Data.Json
import ProjectLint.Data.Yaml.Token

namespace ProjectLint
namespace Data
namespace Yaml

/-! ## Lines -/

def trimLeft (cs : List Char) : List Char :=
  cs.dropWhile isBlank

def trimRight (cs : List Char) : List Char :=
  (cs.reverse.dropWhile isBlank).reverse

def withoutReturn (cs : List Char) : List Char :=
  match cs.reverse with
  | '\r' :: rest => rest.reverse
  | _ => cs

def joinLines (gap : Char) : List (List Char) → List Char
  | [] => []
  | [last] => gap :: trimLeft last
  | line :: rest =>
      match trimRight (trimLeft (withoutReturn line)) with
      | [] => if gap = '\n' then '\n' :: joinLines '\n' rest else joinLines '\n' rest
      | text => gap :: text ++ joinLines ' ' rest

def foldLines (cs : List Char) : List Char :=
  match Text.pieces (· == '\n') cs with
  | first :: second :: rest => trimRight (withoutReturn first) ++ joinLines ' ' (second :: rest)
  | _ => cs

/-! ## Quoted scalars -/

def singleQuotes : List Char → List Char
  | '\'' :: '\'' :: rest => '\'' :: singleQuotes rest
  | c :: rest => c :: singleQuotes rest
  | [] => []

def ofSingle? (source : List Char) : Option String :=
  if source.length < 2 || source.getLast? != some '\'' then none
  else some (String.ofList (singleQuotes (foldLines (source.drop 1).dropLast)))

def escape? : Char → Option Nat
  | '0' => some 0x0
  | 'a' => some 0x7
  | 'b' => some 0x8
  | 'e' => some 0x1B
  | 'f' => some 0xC
  | 'n' => some 0xA
  | 'r' => some 0xD
  | 't' => some 0x9
  | '\t' => some 0x9
  | 'v' => some 0xB
  | 'N' => some 0x85
  | '_' => some 0xA0
  | 'L' => some 0x2028
  | 'P' => some 0x2029
  | ' ' => some 0x20
  | '"' => some 0x22
  | '/' => some 0x2F
  | '\\' => some 0x5C
  | _ => none

def codeLength? : Char → Option Nat
  | 'x' => some 2
  | 'u' => some 4
  | 'U' => some 8
  | _ => none

def digitsValue? (base : Nat) (cs : List Char) : Option Nat :=
  if cs.isEmpty then none
  else
    cs.foldl (fun acc c => acc.bind fun n =>
      (Json.hexValue? c).bind fun digit =>
        if digit < base then some (n * base + digit) else none) (some 0)

def isLineEnd : List Char → Bool
  | '\n' :: _ => true
  | '\r' :: '\n' :: _ => true
  | _ => false

def foldGap : List Char → List Char → List Char × List Char
  | gap, ' ' :: rest => foldGap gap rest
  | gap, '\t' :: rest => foldGap gap rest
  | gap, '\r' :: '\n' :: rest => foldGap ('\n' :: gap) rest
  | gap, '\n' :: rest => foldGap ('\n' :: gap) rest
  | gap, rest => (if gap.isEmpty then [' '] else gap, rest)

def doubleText? (fuel : Nat) (cs : List Char) : Option (List Char) :=
  match fuel with
  | 0 => none
  | fuel + 1 =>
      match cs with
      | [] => some []
      | '\r' :: '\n' :: rest => doubleText? fuel ('\n' :: rest)
      | '\n' :: rest =>
          let (gap, rest) := foldGap [] rest
          (doubleText? fuel rest).map (gap ++ ·)
      | '\\' :: '\n' :: rest => doubleText? fuel (trimLeft rest)
      | '\\' :: '\r' :: '\n' :: rest => doubleText? fuel (trimLeft rest)
      | '\\' :: c :: rest =>
          match escape? c, codeLength? c with
          | some code, _ => (doubleText? fuel rest).map (Char.ofNat code :: ·)
          | none, some count =>
              if rest.length < count then none
              else
                (digitsValue? 16 (rest.take count)).bind fun code =>
                  if code.isValidChar then
                    (doubleText? fuel (rest.drop count)).map (Char.ofNat code :: ·)
                  else none
          | none, none => none
      | c :: rest =>
          if isBlank c then
            let blanks := c :: rest.takeWhile isBlank
            let rest := rest.dropWhile isBlank
            let kept := if isLineEnd rest then [] else blanks
            (doubleText? fuel rest).map (kept ++ ·)
          else (doubleText? fuel rest).map (c :: ·)

def ofDouble? (source : List Char) : Option String :=
  if source.length < 2 || source.getLast? != some '"' then none
  else (doubleText? (source.length + 1) (source.drop 1).dropLast).map String.ofList

/-! ## Plain scalars -/

def isAnyOf (words : List String) (cs : List Char) : Bool :=
  words.contains (String.ofList cs)

def numeral? (cs : List Char) : Option Value :=
  match cs with
  | '0' :: 'o' :: digits => (digitsValue? 8 digits).map fun n =>
      .number (.ofDecimal (Number.Decimal.ofNat n))
  | '0' :: 'x' :: digits => (digitsValue? 16 digits).map fun n =>
      .number (.ofDecimal (Number.Decimal.ofNat n))
  | _ =>
      (Number.Numeral.read cs).bind fun numeral =>
        if numeral.whole.isEmpty && (numeral.fraction.getD []).isEmpty then none
        else some (.number (.ofDecimal numeral.value))

def ofText (cs : List Char) : Value :=
  if isAnyOf ["", "~", "null", "Null", "NULL"] cs then .null
  else if isAnyOf ["true", "True", "TRUE"] cs then .bool true
  else if isAnyOf ["false", "False", "FALSE"] cs then .bool false
  else if isAnyOf [".nan", ".NaN", ".NAN"] cs then .number .nan
  else if isAnyOf [".inf", ".Inf", ".INF", "+.inf", "+.Inf", "+.INF"] cs then
    .number (.infinite false)
  else if isAnyOf ["-.inf", "-.Inf", "-.INF"] cs then .number (.infinite true)
  else (numeral? cs).getD (.text (String.ofList cs))

def isReserved (c : Char) : Bool :=
  c == '\t' || c == ',' || c == '%' || c == '|' || c == '>' || c == '@' || c.toNat == 0x60

def ofPlain? (source : List Char) : Option Value :=
  if source.head?.any isReserved then none else some (ofText (foldLines source))

end Yaml
end Data
end ProjectLint
