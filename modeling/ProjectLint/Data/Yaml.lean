/-
Reading a value from YAML text: block and flow collections, plain and quoted scalars, comments and
document marks. A text is well formed if every node is separated from its neighbours as its place
asks; a comment needs a blank before it, a key its colon, and an entry in brackets its comma.
-/
import ProjectLint.Data.Yaml.Scalar
import ProjectLint.Data.Yaml.Tree

namespace ProjectLint
namespace Data
namespace Yaml

/-! ## What separates nodes -/

def isTail (strict : Bool) : Bool → List Token → Bool
  | _, [] => true
  | gap, token :: rest =>
      match token.kind with
      | .space | .newline => isTail strict true rest
      | .comment => (gap || !strict) && isTail strict gap rest
      | _ => false

structure Place where
  /-- The mark that belongs to the separators. -/
  mark : Option Kind
  inFlow : Bool := false
  /-- Whether a line begins with the first of them. -/
  atNewline : Bool
  parentIndent : Nat := 0
  /-- The node behind them. -/
  next : Option Node

structure Separation where
  mark : Option Token := none
  comma : Bool := false
  newline : Bool := false
  atNewline : Bool
  gap : Bool
  /-- Blanks with a tab among them, until it is clear whether they are an indentation. -/
  tab : Option Token := none

def Separation.add (place : Place) (s : Separation) (token : Token) : Option Separation :=
  if s.tab.isSome && s.atNewline && token.kind != .comment && token.kind != .newline then none
  else
    let s := { s with tab := none }
    if some token.kind = place.mark then
      if s.mark.isSome then none
      else some { s with mark := some token, atNewline := token.kind == .dash, gap := false }
    else
      match token.kind with
      | .space =>
          let ignored := place.inFlow ||
            (place.mark == some .documentStart && place.next.any Node.isFlow)
          let tab := if token.source.contains '\t' && !ignored then some token else none
          some { s with tab, gap := true }
      | .comment => if s.gap then some { s with atNewline := false } else none
      | .newline => some { s with atNewline := true, newline := true, gap := true }
      | .comma =>
          if place.inFlow && !s.comma then
            some { s with comma := true, atNewline := false, gap := false }
          else none
      | _ => none

def separation? (place : Place) (tokens : List Token) : Option Separation := do
  let s ← tokens.foldlM (Separation.add place)
    { atNewline := place.atNewline, gap := place.atNewline }
  match s.tab with
  | none => return s
  | some tab =>
      if (s.atNewline && decide (tab.indent ≤ place.parentIndent)) ||
        place.next.any Node.isBlock then none
      else return s

/-! ## Keys -/

mutual

def keyText : Value → String
  | .null => ""
  | .bool true => "true"
  | .bool false => "false"
  | .number value => value.text
  | .text value => value
  | .list [] => "[]"
  | .list items => "[ " ++ Text.joined ", " (itemTexts items) ++ " ]"
  | .record [] => "\x7b\x7d"
  | .record fields => "\x7b " ++ Text.joined ", " (fieldTexts fields) ++ " \x7d"

def itemTexts : List Value → List String
  | [] => []
  | item :: rest => keyText item :: itemTexts rest

def fieldTexts : List (String × Value) → List String
  | [] => []
  | (name, value) :: rest => (name ++ ": " ++ keyText value) :: fieldTexts rest

end

def sameKey (a b : Value) : Bool :=
  match a, b with
  | .number .nan, _ => false
  | .list _, _ => false
  | .record _, _ => false
  | a, b => a.kind == b.kind && keyText a == keyText b

def mapping? (pairs : List (Value × Value)) : Option Value :=
  let clash := pairs.zipIdx.any fun (pair, i) =>
    (pairs.take i).any fun other => sameKey other.1 pair.1
  if clash then none
  else some (.ofFields (pairs.map fun (key, value) => (keyText key, value)))

def keyLimit : Nat := 1024

def isFar (key : Option Node) (colon : Token) : Bool :=
  match key.bind Node.offset? with
  | some offset => decide (offset + keyLimit < colon.offset)
  | none => false

mutual

def isMultiline : Node → Bool
  | .scalar token tail => token.source.contains '\n' || hasKind .newline tail
  | .flow _ items _ => anyMultiline items
  | _ => true

def anyMultiline : List (Item Node) → Bool
  | [] => false
  | item :: items => itemMultiline item || anyMultiline items

def itemMultiline : Item Node → Bool
  | ⟨start, key, sep, value⟩ =>
      hasKind .newline start || hasKind .newline (sep.getD []) || nodeMultiline key ||
        nodeMultiline value

def nodeMultiline : Option Node → Bool
  | none => false
  | some node => isMultiline node

end

/-! ## Values -/

def scalar? (token : Token) : Option Value :=
  match token.kind with
  | .single => (ofSingle? token.source).map .text
  | .double => (ofDouble? token.source).map .text
  | _ => ofPlain? token.source

def orNull (read : Node → Option Value) : Option Node → Option Value
  | none => some .null
  | some node => read node

def mapPair? (read : Node → Option Value) (indent : Nat) (item : Item Node) :
    Option (Option (Value × Value)) := do
  let _ ← separation? { mark := none, atNewline := true, parentIndent := indent, next := item.key }
    item.start
  if item.key.any fun key => key.isList || key.indent != indent then none
  else
    match item.sep with
    | none => return none
    | some sep =>
        if nodeMultiline item.key then none
        else
          let key ← orNull read item.key
          let gap ← separation?
            { mark := some .colon, atNewline := item.key.isNone, parentIndent := indent
              next := item.value } sep
          let colon ← gap.mark
          if (item.value.any Node.isMap && !gap.newline) || isFar item.key colon then none
          else return some (key, ← orNull read item.value)

def mapPairs? (read : Node → Option Value) (indent : Nat) (items : List (Item Node)) :
    Option (List (Value × Value)) := do
  let pairs ← items.mapM (mapPair? read indent)
  let content := (pairs.reverse.dropWhile Option.isNone).reverse
  if content.any Option.isNone then none else return content.filterMap id

def listValue? (read : Node → Option Value) (indent : Nat) (item : Item Node) :
    Option (Option Value) := do
  let gap ← separation?
    { mark := some .dash, atNewline := true, parentIndent := indent, next := item.value } item.start
  if gap.mark.isSome then some <$> orNull read item.value
  else if item.value.isSome then none
  else return none

def flowPair? (read : Node → Option Value) (inList : Bool) (item : Item Node) :
    Option (Value × Value) := do
  let key ← orNull read item.key
  let sep := item.sep.getD []
  let gap ← separation?
    { mark := some .colon, inFlow := true, atNewline := false, next := item.value }
    sep
  match gap.mark with
  | none => if item.value.isSome then none else return (key, .null)
  | some colon =>
      let before := sep.takeWhile (·.kind != .colon)
      if inList && (hasKind .newline before || isFar item.key colon) then none
      else return (key, ← orNull read item.value)

def flowValue? (read : Node → Option Value) (item : Item Node) : Option Value :=
  match item.sep with
  | none => orNull read item.value
  | some _ => do
      if nodeMultiline item.key then none
      else mapping? [← flowPair? read true item]

def flowEntries? (read : Item Node → Option α) (isFirst : Bool) :
    List (Item Node) → Option (List α)
  | [] => some []
  | item :: rest => do
      let gap ← separation? { mark := none, inFlow := true, atNewline := false, next := item.key }
        item.start
      if item.sep.isNone && item.value.isNone then
        if (isFirst && gap.comma) || !rest.isEmpty then none else return []
      else if gap.comma == isFirst then none
      else return (← read item) :: (← flowEntries? read false rest)

def value? : Nat → Node → Option Value
  | 0, _ => none
  | fuel + 1, node =>
      match node with
      | .scalar token tail => if isTail true false tail then scalar? token else none
      | .map indent items => do mapping? (← mapPairs? (value? fuel) indent items.reverse)
      | .list indent items => do
          let values ← items.reverse.mapM (listValue? (value? fuel) indent)
          return .list (values.filterMap id)
      | .flow _ _ [] => none
      | .flow opening items (closing :: tail) =>
          if !isTail true false tail then none
          else if opening.kind = .openMap then
            if closing.kind = .closeMap then do
              mapping? (← flowEntries? (flowPair? (value? fuel) false) true items.reverse)
            else none
          else if closing.kind = .closeList then
            (flowEntries? (flowValue? (value? fuel)) true items.reverse).map .list
          else none

def documentValue? (fuel : Nat) (document : Document) : Option Value := do
  let gap ← separation?
    { mark := some .documentStart, atNewline := true, next := document.value } document.start
  if gap.mark.isSome && document.value.any Node.isBlock && !gap.newline then none
  else
    let value ← orNull (value? fuel) document.value
    if isTail false false document.tail then return value else none

/-- The value that a text stands for. A part of the language is covered: one document of block and
flow collections with plain and quoted scalars. Escapes, node properties, aliases, block scalars,
explicit keys and directives are not, and for a text that has them the answer means nothing. -/
def read? (text : String) : Option Value := do
  let lexemes ← scan text.toList
  match ← documents lexemes with
  | [] => return .null
  | [document] => documentValue? (lexemes.length + 1) document
  | _ => none

end Yaml
end Data
end ProjectLint
