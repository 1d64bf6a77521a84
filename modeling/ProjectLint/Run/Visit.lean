/-
Visiting a file with several detectors at once. All detectors hear of the file and of its root
first; then the tree is walked from the top, each node before its children, and at the end all
detectors hear that the file is done.
-/
import ProjectLint.Run.Engine

namespace ProjectLint
namespace Engine

open Run

def ask (e : Engine σ) (detector : Detector) (hook : Hook) : Run σ Unit :=
  e.invoke (.detector detector hook)

def tell (e : Engine σ) (detectors : List Detector) (hook : Hook) : Run σ Unit :=
  each detectors fun detector => e.ask detector hook

def appliesToFolder (e : Engine σ) (detector : Detector) (folder : FolderType) : Run σ Bool := do
  let answer := e.host.appliesToFolder detector folder (← get).host
  e.ask detector (.appliesToFolder folder answer)
  return answer

def appliesToFile (e : Engine σ) (detector : Detector) (context : Context) : Run σ Bool := do
  let answer := e.host.appliesToFile detector context context.file (← get).host
  e.ask detector (.appliesToFile context context.file answer)
  return answer

/-! ## Markup -/

def elementNames (e : Engine σ) (detector : Detector) : Run σ NameFilter := do
  let answer := e.host.elementNames detector (← get).host
  e.ask detector .elementNames
  return answer

def attributeNames (e : Engine σ) (detector : Detector) : Run σ NameFilter := do
  let answer := e.host.attributeNames detector (← get).host
  e.ask detector .attributeNames
  return answer

def fillMarkupVisitor (e : Engine σ) (visitor : MarkupVisitor) :
    List Detector → Run σ MarkupVisitor
  | [] => return visitor
  | detector :: rest => do
      let elements ← e.elementNames detector
      let visitor := visitor.addElements detector elements
      let attributes ← e.attributeNames detector
      e.fillMarkupVisitor (visitor.addAttributes detector attributes) rest

def markupVisitor (e : Engine σ) (detectors : List Detector) : Run σ MarkupVisitor :=
  e.fillMarkupVisitor { detectors } detectors

/-- Calls the client and takes its answer. -/
def consult (e : Engine σ) (call : Call) (answer : Workspace → σ → Except Fault α) : Run σ α := do
  e.invoke call
  let s ← get
  match answer s.files s.host with
  | .ok a => return a
  | .error fault => throw fault

def parseMarkup (e : Engine σ) (context : Context) : Run σ (Option Markup.Document) :=
  e.consult (.parseMarkup context) (e.host.parseMarkup context)

mutual

def visitElement (e : Engine σ) (visitor : MarkupVisitor) (context : Context) :
    Markup.Element → Run σ Unit
  | .node tag attributes children => do
      let element := Markup.Element.node tag attributes children
      e.tell (visitor.forElement tag) (.element context element)
      each attributes fun item =>
        e.tell (visitor.forAttribute (Markup.localName item.name))
          (.elementAttribute context element item)
      e.visitElements visitor context children

def visitElements (e : Engine σ) (visitor : MarkupVisitor) (context : Context) :
    List Markup.Element → Run σ Unit
  | [] => pure ()
  | element :: rest => do
      e.visitElement visitor context element
      e.visitElements visitor context rest

end

def visitRoot (e : Engine σ) (visitor : MarkupVisitor) (context : Context) :
    Option Markup.Element → Run σ Unit
  | none => pure ()
  | some root => if visitor.isIdle then pure () else e.visitElement visitor context root

def visitDocument (e : Engine σ) (visitor : MarkupVisitor) (context : Context)
    (document : Markup.Document) : Run σ Unit := do
  e.tell visitor.detectors (.beforeFile context)
  e.tell visitor.detectors (.document context document)
  e.visitRoot visitor context document.root
  e.tell visitor.detectors (.afterFile context)

def visitMarkup (e : Engine σ) (visitor : MarkupVisitor) (context : Context)
    (parsed : Option Markup.Document := none) : Run σ (Option Markup.Document) := do
  let document ←
    match parsed with
    | some document => pure (some document)
    | none => e.parseMarkup context
  match document with
  | none => return none
  | some document =>
      e.visitDocument visitor context document
      return some document

/-! ## Source -/

def nodeTypes (e : Engine σ) (detector : Detector) : Run σ (List String) := do
  let answer := e.host.nodeTypes detector (← get).host
  e.ask detector .nodeTypes
  return answer

def fillSourceVisitor (e : Engine σ) (visitor : SourceVisitor) :
    List Detector → Run σ SourceVisitor
  | [] => return visitor
  | detector :: rest => do
      let types ← e.nodeTypes detector
      let byType := visitor.byType ++ types.map fun type => (type, detector)
      e.fillSourceVisitor { visitor with byType } rest

def sourceVisitor (e : Engine σ) (detectors : List Detector) : Run σ SourceVisitor :=
  e.fillSourceVisitor { detectors } detectors

def parseSource (e : Engine σ) (context : Context) : Run σ (Option Source.CompilationUnit) :=
  e.consult (.parseSource context) (e.host.parseSource context)

mutual

def visitNode (e : Engine σ) (visitor : SourceVisitor) (context : Context)
    (above : List Source.Label) : Source.Node → Run σ Unit
  | .node label children => do
      e.tell (visitor.byType.lookup label.type) (.node context label above)
      e.visitNodes visitor context (label :: above) children

def visitNodes (e : Engine σ) (visitor : SourceVisitor) (context : Context)
    (above : List Source.Label) : List Source.Node → Run σ Unit
  | [] => pure ()
  | node :: rest => do
      e.visitNode visitor context above node
      e.visitNodes visitor context above rest

end

def visitUnit (e : Engine σ) (visitor : SourceVisitor) (context : Context)
    (unit : Source.CompilationUnit) : Run σ Unit := do
  e.tell visitor.detectors (.beforeFile context)
  e.tell visitor.detectors (.compilationUnit context unit)
  if visitor.byType.isEmpty then pure () else e.visitNode visitor context [] unit.root
  e.tell visitor.detectors (.afterFile context)

def visitSource (e : Engine σ) (visitor : SourceVisitor) (context : Context) :
    Run σ (Option Source.CompilationUnit) := do
  match ← e.parseSource context with
  | none => return none
  | some unit =>
      e.visitUnit visitor context unit
      return some unit

end Engine
end ProjectLint
