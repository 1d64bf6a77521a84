/-
The tree of a YAML document: which token belongs to which node. Nodes are built on a stack. A token
goes to the open node on top, which takes it in, opens a node above itself, or is closed and leaves
the token to the node below. What separates the parts of a node is kept with it, since the order of
blanks, comments and line ends decides whether the node is well formed.
-/
import ProjectLint.Data.Yaml.Token
import ProjectLint.Text.Units

namespace ProjectLint
namespace Data
namespace Yaml

structure Token where
  kind : Kind
  source : List Char
  offset : Nat
  indent : Nat
  deriving DecidableEq, Repr

structure Item (ν : Type) where
  start : List Token := []
  key : Option ν := none
  /-- None until a key or its colon was seen. -/
  sep : Option (List Token) := none
  value : Option ν := none

inductive Node
  | scalar (token : Token) (tail : List Token)
  | map (indent : Nat) (items : List (Item Node))
  | list (indent : Nat) (items : List (Item Node))
  /-- A collection in brackets; what follows the closing bracket is kept with it. -/
  | flow (opening : Token) (items : List (Item Node)) (closing : List Token)

namespace Node

def indent : Node → Nat
  | .scalar token _ => token.indent
  | .map indent _ => indent
  | .list indent _ => indent
  | .flow opening _ _ => opening.indent

def offset? : Node → Option Nat
  | .scalar token _ => some token.offset
  | .flow opening _ _ => some opening.offset
  | _ => none

def isMap : Node → Bool
  | .map .. => true
  | _ => false

def isList : Node → Bool
  | .list .. => true
  | _ => false

def isBlock (node : Node) : Bool :=
  node.isMap || node.isList

def isFlow : Node → Bool
  | .flow .. => true
  | _ => false

def tail : Node → List Token
  | .scalar _ tail => tail
  | .flow _ _ closing => closing
  | _ => []

def addTail (tokens : List Token) : Node → Node
  | .scalar token tail => .scalar token (tail ++ tokens)
  | .flow opening items closing => .flow opening items (closing ++ tokens)
  | node => node

end Node

inductive Frame
  | document (start : List Token) (value : Option Node) (tail : List Token)
  /-- Behind the mark that ends a document. -/
  | documentEnd
  | node (node : Node)

structure Document where
  start : List Token
  value : Option Node
  tail : List Token

structure Builder where
  /-- The open parts, innermost first. -/
  stack : List Frame := []
  documents : List Document := []
  atNewline : Bool := true
  onKeyLine : Bool := false
  indent : Nat := 0
  offset : Nat := 0

def isTrivia (kind : Kind) : Bool :=
  kind == .space || kind == .comment || kind == .newline

def hasKind (kind : Kind) (tokens : List Token) : Bool :=
  tokens.any (·.kind == kind)

def settleItem (item : Item Node) : Item Node :=
  match item.sep, item.value with
  | some sep, none =>
      if hasKind .colon sep then item
      else
        match item.key with
        | some key => { start := item.start, value := some (key.addTail sep) }
        | none => { start := item.start ++ sep }
  | _, _ => item

def settle : Node → Node
  | .flow opening items closing =>
      if opening.kind = .openList then .flow opening (items.map settleItem) closing
      else .flow opening items closing
  | node => node

def splitTrailing (node : Node) : Node × List Token :=
  match node with
  | .map indent (item :: items) =>
      if trails indent item then (.map indent items, item.start) else (node, [])
  | .list indent (item :: items) =>
      if trails indent item then (.list indent items, item.start) else (node, [])
  | _ => (node, [])
where
  trails (indent : Nat) (item : Item Node) : Bool :=
    item.sep.isNone && item.value.isNone && item.start.all (isTrivia ·.kind) &&
      (indent == 0 || item.start.all fun token => token.kind != .comment ||
        decide (token.indent < indent))

namespace Builder

def push (b : Builder) (frame : Frame) : Builder :=
  { b with stack := frame :: b.stack }

def change (b : Builder) (frame : Frame) : Builder :=
  { b with stack := frame :: b.stack.drop 1 }

def withTrailing (trailing : List Token) (items : List (Item Node)) : List (Item Node) :=
  if trailing.isEmpty then items else { start := trailing } :: items

def pop (b : Builder) : Option Builder :=
  match b.stack with
  | [.document start value tail] =>
      some { b with stack := [], documents := b.documents ++ [⟨start, value, tail⟩] }
  | [.documentEnd] => some { b with stack := [] }
  | .node node :: .document start _ tail :: rest =>
      let (node, trailing) := splitTrailing (settle node)
      some { b with stack := .document start (some node) (tail ++ trailing) :: rest }
  | .node node :: .node (.map indent (item :: items)) :: rest =>
      let node := settle node
      match item.value, item.sep with
      | some _, _ =>
          some { b with
            stack := .node (.map indent (⟨[], some node, some [], none⟩ :: item :: items)) :: rest
            onKeyLine := true }
      | none, some _ =>
          let (node, trailing) := splitTrailing node
          let items := withTrailing trailing ({ item with value := some node } :: items)
          some { b with stack := .node (.map indent items) :: rest }
      | none, none =>
          let item := { item with key := some node, sep := some [] }
          some { b with stack := .node (.map indent (item :: items)) :: rest, onKeyLine := true }
  | .node node :: .node (.list indent (item :: items)) :: rest =>
      let (node, trailing) := splitTrailing (settle node)
      let items :=
        match item.value with
        | some _ => { value := some node } :: item :: items
        | none => { item with value := some node } :: items
      some { b with stack := .node (.list indent (withTrailing trailing items)) :: rest }
  | .node node :: .node (.flow opening items closing) :: rest =>
      if node.isBlock then none
      else
        let node := settle node
        let items :=
          match items with
          | [] => [⟨[], some node, some [], none⟩]
          | item :: items =>
              match item.value, item.sep with
              | some _, _ => ⟨[], some node, some [], none⟩ :: item :: items
              | none, some _ => { item with value := some node } :: items
              | none, none => { item with key := some node, sep := some [] } :: items
        some { b with stack := .node (.flow opening items closing) :: rest }
  | _ => none

def opened? (token : Token) : Option Node :=
  match token.kind with
  | .plain | .single | .double => some (.scalar token [])
  | .openMap | .openList => some (.flow token [] [])
  | .dash => some (.list token.indent [{ start := [token] }])
  | .colon => some (.map token.indent [{ sep := some [token] }])
  | _ => none

def openNode (b : Builder) (token : Token) : Option Builder :=
  (opened? token).map fun node =>
    { b.push (.node node) with onKeyLine := b.onKeyLine || token.kind == .colon }

inductive Answer
  | taken (builder : Builder)
  /-- The part ends before the token. -/
  | closed

def isScalarKind (kind : Kind) : Bool :=
  kind == .plain || kind == .single || kind == .double

def endsNode (kind : Kind) : Bool :=
  kind == .comma || kind == .documentStart || kind == .documentEnd || kind == .closeList ||
    kind == .closeMap || kind == .colon

def behindNode (b : Builder) (token : Token) (withTail : List Token → Frame) : Option Answer :=
  if endsNode token.kind then some .closed
  else if isTrivia token.kind then
    let b := b.change (withTail [token])
    if token.kind = .newline then ({ b with onKeyLine := false }).pop.map .taken
    else some (.taken b)
  else none

def inDocument (b : Builder) (token : Token) (start : List Token) (value : Option Node)
    (tail : List Token) : Option Answer :=
  match value with
  | some _ => b.behindNode token fun more => .document start value (tail ++ more)
  | none =>
      if token.kind = .documentStart then
        if start.all (isTrivia ·.kind) then
          some (.taken (b.change (.document (start ++ [token]) none tail)))
        else some .closed
      else if isTrivia token.kind then
        some (.taken (b.change (.document (start ++ [token]) none tail)))
      else (b.openNode token).map .taken

def inScalar (b : Builder) (token scalar : Token) (tail : List Token) : Option Answer :=
  if token.kind = .colon then
    let item : Item Node := ⟨[], some (.scalar scalar []), some (tail ++ [token]), none⟩
    some (.taken { b.change (.node (.map scalar.indent [item])) with onKeyLine := true })
  else b.behindNode token fun more => .node (.scalar scalar (tail ++ more))

def joinComment (indent : Nat) (b : Builder) (token : Token) (item : Item Node)
    (items : List (Item Node)) : Option (List (Item Node)) :=
  match items with
  | [] => none
  | before :: items =>
      match before.value with
      | none => none
      | some value =>
          if token.kind == .comment && decide (indent < b.indent) &&
              item.start.all (fun other => other.kind == .newline || other.kind == .space) &&
              !value.tail.isEmpty then
            some ({ before with value := some (value.addTail (item.start ++ [token])) } :: items)
          else none

def addTrivia (indent : Nat) (b : Builder) (token : Token) (item : Item Node)
    (items : List (Item Node)) : List (Item Node) :=
  match item.value with
  | some value =>
      if token.kind == .newline && value.tail.getLast?.any (·.kind == .comment) then
        { item with value := some (value.addTail [token]) } :: items
      else { start := [token] } :: item :: items
  | none =>
      match item.sep with
      | some sep => { item with sep := some (sep ++ [token]) } :: items
      | none =>
          match joinComment indent b token item items with
          | some items => items
          | none => { item with start := item.start ++ [token] } :: items

def secondLine? (indent : Nat) (sep : List Token) : Option Nat :=
  let ends := sep.zipIdx.foldl (fun ends (token, i) =>
    match token.kind with
    | .newline => ends ++ [i]
    | .space => ends
    | .comment => if indent < token.indent then [] else ends
    | _ => []) []
  ends[1]?

def splitAtNext (indent : Nat) (item : Item Node) : Item Node × List Token :=
  match item.sep, item.value with
  | some sep, none =>
      match secondLine? indent sep with
      | some i => ({ item with sep := some (sep.take i) }, sep.drop i)
      | none => (item, [])
  | _, _ => (item, [])

def inMap (b : Builder) (token : Token) (indent : Nat) (item : Item Node)
    (items : List (Item Node)) : Option Answer :=
  let put (b : Builder) (items : List (Item Node)) : Builder := b.change (.node (.map indent items))
  if isTrivia token.kind then
    let b := if token.kind = .newline then { b with onKeyLine := false } else b
    some (.taken (put b (addTrivia indent b token item items)))
  else if b.indent < indent then some .closed
  else
    let atIndent := !b.onKeyLine && b.indent == indent
    let atNext := atIndent && item.sep.isSome && token.kind != .dash
    let (item, start) := if atNext then splitAtNext indent item else (item, [])
    let onKey (b : Builder) : Builder := { b with onKeyLine := true }
    if token.kind = .colon then
      match item.sep with
      | none => some (.taken (onKey (put b ({ item with sep := some [token] } :: items))))
      | some sep =>
          if item.value.isSome || atNext then
            some (.taken (onKey (put b (⟨start, none, some [token], none⟩ :: item :: items))))
          else if hasKind .colon sep then (b.openNode token).map .taken
          else
            some (.taken (onKey (put b ({ item with sep := some (sep ++ [token]) } :: items))))
    else if isScalarKind token.kind then
      let key := Node.scalar token []
      if atNext || item.value.isSome then
        some (.taken (onKey (put b (⟨start, some key, some [], none⟩ :: item :: items))))
      else if item.sep.isSome then some (.taken (b.push (.node key)))
      else
        some (.taken (onKey (put b ({ item with key := some key, sep := some [] } :: items))))
    else
      match opened? token with
      | none => some .closed
      | some (.list column entries) =>
          if item.sep.any fun sep => !hasKind .newline sep then none
          else some (.taken (b.push (.node (.list column entries))))
      | some node =>
          let b := if atIndent then put b ({ start } :: item :: items) else b
          some (.taken (b.push (.node node)))

def inList (b : Builder) (token : Token) (indent : Nat) (item : Item Node)
    (items : List (Item Node)) : Option Answer :=
  let put (items : List (Item Node)) : Builder := b.change (.node (.list indent items))
  if isTrivia token.kind then some (.taken (put (addTrivia indent b token item items)))
  else if token.kind = .dash && b.indent == indent then
    if item.value.isSome || hasKind .dash item.start then
      some (.taken (put ({ start := [token] } :: item :: items)))
    else some (.taken (put ({ item with start := item.start ++ [token] } :: items)))
  else if indent < b.indent then
    match b.openNode token with
    | some b => some (.taken b)
    | none => some .closed
  else some .closed

def inFlow (b : Builder) (token opening : Token) (items : List (Item Node)) : Option Answer :=
  let put (items : List (Item Node)) : Option Answer :=
    some (.taken (b.change (.node (.flow opening items []))))
  let latest : Item Node := items.head?.getD {}
  let others := items.drop 1
  let isOver := items.isEmpty || latest.value.isSome
  match token.kind with
  | .comma =>
      if items.isEmpty || latest.sep.isSome then put ({ start := [token] } :: items)
      else put ({ latest with start := latest.start ++ [token] } :: others)
  | .colon =>
      if isOver then put (⟨[], none, some [token], none⟩ :: items)
      else put ({ latest with sep := some (latest.sep.getD [] ++ [token]) } :: others)
  | .space | .comment | .newline =>
      if isOver then put ({ start := [token] } :: items)
      else
        match latest.sep with
        | some sep => put ({ latest with sep := some (sep ++ [token]) } :: others)
        | none => put ({ latest with start := latest.start ++ [token] } :: others)
  | .plain | .single | .double =>
      let key := Node.scalar token []
      if isOver then put (⟨[], some key, some [], none⟩ :: items)
      else if latest.sep.isSome then some (.taken (b.push (.node key)))
      else put ({ latest with key := some key, sep := some [] } :: others)
  | .closeMap | .closeList =>
      some (.taken (b.change (.node (.flow opening items [token]))))
  | .openMap | .openList => some (.taken (b.push (.node (.flow token [] []))))
  | _ => none

def behindFlow (b : Builder) (token opening : Token) (items : List (Item Node))
    (closing : List Token) : Option Answer :=
  let onward := b.behindNode token fun more => .node (.flow opening items (closing ++ more))
  let asKey : Option Answer :=
    let key := settle (.flow opening items (closing.take 1))
    let item : Item Node := ⟨[], some key, some (closing.drop 1 ++ [token]), none⟩
    some (.taken { b.change (.node (.map opening.indent [item])) with onKeyLine := true })
  match b.stack.drop 1 with
  | .node (.map indent (item :: _)) :: _ =>
      if (token.kind = .colon && indent == opening.indent) ||
          (token.kind = .newline && item.sep.isNone) then some .closed
      else if token.kind = .colon then asKey
      else onward
  | .node (.flow ..) :: _ => onward
  | _ => if token.kind = .colon then asKey else onward

def inStream (b : Builder) (token : Token) : Option Answer :=
  match token.kind with
  | .byteOrderMark | .space | .comment | .newline => some (.taken b)
  | .documentMode => some (.taken (b.push (.document [] none [])))
  | .documentStart => some (.taken (b.push (.document [token] none [])))
  | _ => none

def answer (b : Builder) (token : Token) : Option Answer :=
  match b.stack with
  | [] => b.inStream token
  | .document start value tail :: _ => b.inDocument token start value tail
  | .documentEnd :: _ =>
      if token.kind = .documentMode then some (.taken b)
      else if token.kind = .newline then b.pop.map .taken
      else if isTrivia token.kind then some (.taken b)
      else none
  | .node (.scalar scalar tail) :: _ => b.inScalar token scalar tail
  | .node (.map indent (item :: items)) :: _ => b.inMap token indent item items
  | .node (.list indent (item :: items)) :: _ => b.inList token indent item items
  | .node (.flow opening items []) :: _ => b.inFlow token opening items
  | .node (.flow opening items closing) :: _ => b.behindFlow token opening items closing
  | _ => none

def step (fuel : Nat) (b : Builder) (token : Token) : Option Builder :=
  match fuel with
  | 0 => none
  | fuel + 1 => do
      match ← b.answer token with
      | .taken b => return b
      | .closed => (← b.pop).step fuel token

def popAll (fuel : Nat) (b : Builder) : Option Builder :=
  match fuel, b.stack with
  | _, [] => some b
  | 0, _ => none
  | fuel + 1, _ => do (← b.pop).popAll fuel

def endDocument (b : Builder) : Option Builder := do
  return (← b.popAll b.stack.length).push .documentEnd

def pass (b : Builder) (token : Token) : Builder :=
  let b := { b with offset := b.offset + (token.source.flatMap Text.charUnits).length }
  match token.kind with
  | .newline => { b with atNewline := true, indent := 0 }
  | .space =>
      if b.atNewline && token.source.head? == some ' ' then
        { b with indent := b.indent + token.source.length }
      else b
  | .colon | .dash => if b.atNewline then { b with indent := b.indent + 1 } else b
  | .documentMode => b
  | _ => { b with atNewline := false }

def add (b : Builder) (lexeme : Lexeme) : Option Builder := do
  let token : Token := ⟨lexeme.kind, lexeme.source, b.offset, b.indent⟩
  let isEnded := match b.stack with
    | .documentEnd :: _ => true
    | _ => false
  let b ←
    if token.kind = .documentEnd && !isEnded then b.endDocument
    else b.step (b.stack.length + 2) token
  return b.pass token

def addAll (b : Builder) : List Lexeme → Option Builder
  | [] => some b
  | lexeme :: rest => (b.add lexeme).bind fun b => b.addAll rest

end Builder

def documents (lexemes : List Lexeme) : Option (List Document) := do
  let b ← Builder.addAll {} lexemes
  return (← b.popAll b.stack.length).documents

end Yaml
end Data
end ProjectLint
