/-
The tokens of YAML text. Every character belongs to exactly one token, blanks and line ends
included, so that the tree built from them can tell where a node stands and what separates it from
the next.

Two columns steer the scanner. A scalar goes on over a line end only where the next line reaches the
column `least`, and a bracket that is open needs the same of every line but the one that closes it.
Node properties, aliases, block scalars, explicit keys and directives are not read.
-/

namespace ProjectLint
namespace Data
namespace Yaml

inductive Kind
  | byteOrderMark
  /-- A document begins without a mark of its own. It has no text. -/
  | documentMode
  | documentStart
  | documentEnd
  | newline
  | space
  | comment
  | dash
  | colon
  | comma
  | openMap
  | closeMap
  | openList
  | closeList
  | plain
  | single
  | double
  deriving DecidableEq, Repr

structure Lexeme where
  kind : Kind
  source : List Char
  deriving DecidableEq, Repr

/-! ## Characters -/

def isBlank (c : Char) : Bool :=
  c == ' ' || c == '\t'

def isGap : Option Char → Bool
  | none => true
  | some c => isBlank c || c == '\n' || c == '\r'

def isFlowMark (c : Char) : Bool :=
  c == '[' || c == ']' || c == '\x7b' || c == '\x7d' || c == ','

def lineHead? : List Char → Option Char
  | [] => none
  | '\n' :: _ => none
  | '\r' :: '\n' :: _ => none
  | c :: _ => some c

def lineText : List Char → List Char
  | [] => []
  | '\n' :: _ => []
  | '\r' :: '\n' :: _ => []
  | c :: rest => c :: lineText rest

def isLineOver (cs : List Char) : Bool :=
  match lineHead? (cs.dropWhile isBlank) with
  | none => true
  | some c => c == '#'

def startsMark (mark : String) (cs : List Char) : Bool :=
  mark.toList.isPrefixOf cs && isGap (cs.drop 3).head?

def continues (least : Nat) (cs : List Char) : Bool :=
  if least = 0 then !(startsMark "---" cs || startsMark "..." cs)
  else
    match cs.dropWhile (· == ' ') with
    | '\n' :: _ => true
    | '\r' :: '\n' :: _ => true
    | _ => decide (least ≤ (cs.takeWhile (· == ' ')).length)

/-! ## Scalars -/

def plainLength (inFlow : Bool) (least : Nat) : List Char → Nat → Nat → Nat
  | [], _, kept => kept
  | '\r' :: '\n' :: rest, read, kept =>
      if endsBefore rest || !continues least rest then kept
      else plainLength inFlow least rest (read + 2) kept
  | c :: rest, read, kept =>
      if c = ':' then
        if isGap rest.head? || (inFlow && rest.head?.any isFlowMark) then kept
        else plainLength inFlow least rest (read + 1) (read + 1)
      else if c = '\n' then
        if endsBefore rest || !continues least rest then kept
        else plainLength inFlow least rest (read + 1) kept
      else if isGap (some c) then
        let kept := if c = '\r' then read + 1 else kept
        if endsBefore rest then kept else plainLength inFlow least rest (read + 1) kept
      else if inFlow && isFlowMark c then kept
      else plainLength inFlow least rest (read + 1) (read + 1)
where
  endsBefore (rest : List Char) : Bool :=
    rest.head?.any fun c => c == '#' || (inFlow && isFlowMark c)

def singleLength? : List Char → Nat → Option Nat
  | [], _ => none
  | '\'' :: '\'' :: rest, read => singleLength? rest (read + 2)
  | '\'' :: _, read => some (read + 1)
  | _ :: rest, read => singleLength? rest (read + 1)

def doubleLength? : List Char → Nat → Option Nat
  | [], _ => none
  | '\\' :: _ :: rest, read => doubleLength? rest (read + 2)
  | '"' :: _, read => some (read + 1)
  | _ :: rest, read => doubleLength? rest (read + 1)

def reachable (least : Nat) : Nat → List Char → Nat → Nat
  | 0, _, read => read
  | _, [], read => read
  | count + 1, '\r' :: '\n' :: rest, read =>
      if continues least rest then reachable least count ('\n' :: rest) (read + 1) else read
  | count + 1, c :: rest, read =>
      if c = '\n' && !continues least rest then read else reachable least count rest (read + 1)

def quotedText (least : Nat) (quote : Char) (cs : List Char) : List Char :=
  let body := cs.drop 1
  match if quote = '\'' then singleLength? body 1 else doubleLength? body 1 with
  | none => cs
  | some count => cs.take (reachable least count cs 0)

/-! ## The scanner -/

inductive Mode
  | stream
  | lineStart
  | blockStart
  | document
  | flow
  deriving DecidableEq, Repr

structure Scanner where
  mode : Mode := .stream
  rest : List Char
  /-- The column from which a line continues the node before it. -/
  least : Nat := 0
  /-- The column in which the node of this line starts. -/
  column : Nat := 0
  /-- The number of open brackets. -/
  depth : Nat := 0
  /-- Whether a colon may follow without a blank behind it. -/
  afterKey : Bool := false
  /-- The tokens so far, latest first. -/
  found : List Lexeme := []

namespace Scanner

def emit (s : Scanner) (kind : Kind) (source : List Char) : Scanner :=
  if source.isEmpty then s
  else { s with rest := s.rest.drop source.length, found := ⟨kind, source⟩ :: s.found }

def emitMark (s : Scanner) (kind : Kind) : Scanner :=
  s.emit kind (s.rest.take 1)

def spaces (s : Scanner) : Scanner :=
  s.emit .space (s.rest.takeWhile (· == ' '))

def blanks (s : Scanner) : Scanner :=
  s.emit .space (s.rest.takeWhile isBlank)

def comment (s : Scanner) : Scanner :=
  s.emit .comment (lineText s.rest)

def lineEnd (s : Scanner) : Scanner :=
  match s.rest with
  | '\n' :: _ => s.emit .newline ['\n']
  | '\r' :: '\n' :: _ => s.emit .newline ['\r', '\n']
  | _ => s

def expectColon (s : Scanner) (afterKey : Bool) : Scanner :=
  { s with afterKey }

def goTo (s : Scanner) (mode : Mode) : Scanner :=
  { s with mode }

def indicators (fuel : Nat) (s : Scanner) : Option Scanner :=
  match fuel, s.rest with
  | 0, _ => none
  | _, [] => some s
  | fuel + 1, c :: rest =>
      let inFlow := decide (0 < s.depth)
      let alone := isGap rest.head? || (inFlow && rest.head?.any isFlowMark)
      if c = '!' ∨ c = '&' ∨ (c = '?' ∧ alone) then none
      else if (c = '-' ∨ c = ':') ∧ alone then
        let s := if inFlow then s.expectColon false else { s with least := s.column + 1 }
        (s.emitMark (if c = '-' then .dash else .colon)).blanks.indicators fuel
      else some s

def afterScalar (s : Scanner) : Scanner :=
  s.goTo (if s.depth = 0 then .document else .flow)

def plain (s : Scanner) : Scanner :=
  let count := plainLength (decide (0 < s.depth)) s.least s.rest 0 0
  { s with
    rest := s.rest.drop count
    found := ⟨.plain, s.rest.take count⟩ :: s.found }.afterScalar

def quoted (s : Scanner) (quote : Char) : Scanner :=
  (s.emit (if quote = '\'' then .single else .double) (quotedText s.least quote s.rest)).afterScalar

def lineStart (s : Scanner) : Scanner :=
  if startsMark "---" s.rest then
    ({ s with column := 0, least := 0 }.emit .documentStart (s.rest.take 3)).goTo .document
  else if startsMark "..." s.rest then
    ({ s with column := 0, least := 0 }.emit .documentEnd (s.rest.take 3)).goTo .stream
  else
    let column := (s.rest.takeWhile (· == ' ')).length
    let s := s.spaces
    let least :=
      if column < s.least && !isGap (s.rest.drop 1).head? then column else s.least
    { s with column, least, mode := .blockStart }

def stream (s : Scanner) : Option Scanner :=
  let s := if s.rest.head?.any (·.toNat == 0xFEFF) then s.emitMark .byteOrderMark else s
  if s.rest.head? = some '%' then none
  else if isLineOver s.rest then some s.blanks.comment.lineEnd
  else some { s with found := ⟨.documentMode, []⟩ :: s.found, mode := .lineStart }

def blockStart (s : Scanner) : Option Scanner :=
  match s.rest with
  | c :: rest =>
      if (c = '-' ∨ c = ':' ∨ c = '?') ∧ isGap rest.head? then
        if c = '?' then none
        else
          let width := 1 + (rest.takeWhile isBlank).length
          let s := (s.emitMark (if c = '-' then .dash else .colon)).blanks
          some { s with least := s.column + 1, column := s.column + width }
      else some (s.goTo .document)
  | [] => some (s.goTo .document)

def document (s : Scanner) : Option Scanner := do
  let s ← s.blanks.indicators (s.rest.length + 1)
  match lineHead? s.rest with
  | none => return s.lineEnd.goTo .lineStart
  | some c =>
      if c = '#' then return s.comment.lineEnd.goTo .lineStart
      else if c = '\x7b' then
        return { s.emitMark .openMap with afterKey := false, depth := 1, mode := .flow }
      else if c = '[' then
        return { s.emitMark .openList with afterKey := false, depth := 1, mode := .flow }
      else if c = '\x7d' then return s.emitMark .closeMap
      else if c = ']' then return s.emitMark .closeList
      else if c = '*' ∨ c = '|' ∨ c = '>' then none
      else if c = '"' ∨ c = '\'' then return s.quoted c
      else return s.plain

def flowGap (fuel : Nat) (s : Scanner) (begun : Option Nat) : Scanner × Option Nat :=
  match fuel with
  | 0 => (s, begun)
  | fuel + 1 =>
      let after := s.lineEnd
      if after.rest.length < s.rest.length then
        let column := (after.rest.takeWhile (· == ' ')).length
        { after.spaces.blanks with column }.flowGap fuel (some column)
      else
        let after := s.blanks
        if after.rest.length < s.rest.length then after.flowGap fuel begun else (s, begun)

def isCut (s : Scanner) (begun : Option Nat) : Bool :=
  match begun with
  | none => false
  | some column =>
      let left := decide (column < s.least) && lineHead? s.rest != some '#'
      let mark := column == 0 && (startsMark "---" s.rest || startsMark "..." s.rest)
      let closes := column + 1 == s.least && s.depth == 1 &&
        (lineHead? s.rest).any fun c => c == ']' || c == '\x7d'
      (left || mark) && !closes

def commas (fuel : Nat) (s : Scanner) : Scanner :=
  match fuel with
  | 0 => s
  | fuel + 1 =>
      if s.rest.head? = some ',' then
        ((s.emitMark .comma).blanks.expectColon false).commas fuel
      else s

def close (s : Scanner) (kind : Kind) : Scanner :=
  let s := { s.emitMark kind with afterKey := true, depth := s.depth - 1 }
  s.goTo (if s.depth = 0 then .document else .flow)

def flow (s : Scanner) : Option Scanner := do
  let (s, begun) := s.flowGap (s.rest.length + 1) none
  if s.isCut begun then none
  else
    let s ← (s.commas s.rest.length).indicators (s.rest.length + 1)
    match lineHead? s.rest with
    | none => return s
    | some c =>
        if c = '#' then return s.comment
        else if c = '\x7b' then
          return { s.emitMark .openMap with afterKey := false, depth := s.depth + 1 }
        else if c = '[' then
          return { s.emitMark .openList with afterKey := false, depth := s.depth + 1 }
        else if c = '\x7d' then return s.close .closeMap
        else if c = ']' then return s.close .closeList
        else if c = '*' then none
        else if c = '"' ∨ c = '\'' then return (s.expectColon true).quoted c
        else if c = ':' ∧ s.afterKey then return (s.emitMark .colon).blanks.expectColon false
        else return (s.expectColon false).plain

def next (s : Scanner) : Option Scanner :=
  match s.mode with
  | .stream => s.stream
  | .lineStart => some s.lineStart
  | .blockStart => s.blockStart
  | .document => s.document
  | .flow => s.flow

def finish (fuel : Nat) (s : Scanner) : Option (List Lexeme) :=
  if s.rest.isEmpty then some s.found.reverse
  else
    match fuel with
    | 0 => none
    | fuel + 1 => s.next.bind (finish fuel)

end Scanner

def scan (text : List Char) : Option (List Lexeme) :=
  Scanner.finish (4 * text.length + 4) { rest := text }

end Yaml
end Data
end ProjectLint
