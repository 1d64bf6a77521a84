/-
An embedding said by data: which detectors there are and what they ask for, what the client
supplies, and the rules by which all of them act.
-/
import ProjectLint.Scripted.Rule
import ProjectLint.Settings.Load
import ProjectLint.Tree.OfValue

namespace ProjectLint
namespace Scripted

structure DetectorScript where
  /-- The kinds of file that the detector has functions for. -/
  scanners : List Scanner := []
  /-- The kinds of file that it says it can scan. -/
  declared : List Scanner := []
  elements : NameFilter := .nothing
  attributes : NameFilter := .nothing
  nodeTypes : List String := []
  /-- The names of the folder types that it applies to; none for all. -/
  folders : Option (List String) := none
  /-- The ends of the files that it applies to; none for all. -/
  files : Option (List String) := none
  /-- The message with which no instance can be made. -/
  failure : Option String := none
  rules : List Rule := []

inductive ConfigurationSource
  | defaults
  | named (name : String)
  | policy (policy : Policy)
  | loaded (dir : String) (parent : ConfigurationSource)
  | layer (layer : Layer) (parent : ConfigurationSource)
  deriving Inhabited

namespace ConfigurationSource

def make (ws : Workspace) (memory : Memory) :
    ConfigurationSource → Configuration × List Log.Entry
  | .defaults => (.defaults, [])
  | .named name => ((memory.configurations.lookup name).getD .defaults, [])
  | .policy rules => (.policy rules, [])
  | .loaded dir source =>
      let (parent, before) := source.make ws memory
      let (config, after) := Configuration.load ws dir parent
      (config, before ++ after)
  | .layer own source =>
      let (parent, entries) := source.make ws memory
      (.layer own parent, entries)

end ConfigurationSource

structure ClientScript where
  /-- The kinds of file that the client can parse. -/
  supplied : List Scanner := [.markup, .source, .bytecode]
  logsPlainly : Bool := false
  keepsProjects : Bool := true
  overrides : List (String × FolderOverrides) := []
  configurations : List (String × ConfigurationSource) := []
  rules : List Rule := []

structure Embedding where
  detectors : List (DetectorClass × DetectorScript) := []
  listeners : List (Listener × List Rule) := []
  client : ClientScript := {}

namespace Embedding

def script (embedding : Embedding) (name : DetectorClass) : DetectorScript :=
  (embedding.detectors.lookup name).getD {}

def withoutEngine (embedding : Embedding) (fault : Fault) : Embedding :=
  let block := List.map (Rule.withoutEngine fault)
  { detectors := embedding.detectors.map fun (name, script) =>
      (name, { script with rules := block script.rules })
    listeners := embedding.listeners.map fun (name, rules) => (name, block rules)
    client := { embedding.client with rules := block embedding.client.rules } }

def rulesOf (embedding : Embedding) : Subject → List Rule
  | .detector called => (embedding.script called.className).rules
  | .listener called => (embedding.listeners.lookup called).getD []
  | .client => embedding.client.rules

end Embedding

/-! ## Parsing

A file that a scripted client parses is either a tree written as data or just a name. -/

def valueOf (text : String) : Data.Value :=
  (Data.Json.read? text).getD .null

def isData (text : String) : Bool :=
  Text.startsWith text "\x7b"

def broken : String := "broken"

def documentOf? (text : String) : Option Markup.Document :=
  if text = broken then none
  else if isData text then some (.ofValue (valueOf text))
  else some ⟨some (.node text [] [])⟩

def unitOf? (text : String) : Option Source.CompilationUnit :=
  if text = broken then none
  else if isData text then some (.ofValue (valueOf text))
  else some ⟨none, .node { type := "CompilationUnit" } []⟩

def classOf (text : String) : Except Fault Bytecode.ClassFile :=
  if Text.startsWith text "invalid" then .error (.failure ("Not a class file: " ++ text))
  else if isData text then .ok (.ofValue (valueOf text))
  else .ok { name := text }

def trimmedText (ws : Workspace) (path : String) : Except Fault String :=
  match ws.readText path with
  | .ok text => .ok (Text.trim text)
  | .error fault => .error (.failure (fault.message path))

namespace Embedding

def host (embedding : Embedding) : Host Memory where
  react := fun call moment _ => reaction (embedding.rulesOf (Subject.ofCall call)) call moment
  scans := fun name scanner =>
    let script := embedding.script name
    script.scanners.contains scanner && script.declared.contains scanner
  construct := fun name _ =>
    match (embedding.script name).failure with
    | some message => .error (.failure message)
    | none => .ok ()
  appliesToFolder := fun detector folder _ =>
    (embedding.script detector.className).folders.all (·.contains folder.name)
  appliesToFile := fun detector _ file _ =>
    (embedding.script detector.className).files.all (·.any (Text.endsWith file))
  elementNames := fun detector _ => (embedding.script detector.className).elements
  attributeNames := fun detector _ => (embedding.script detector.className).attributes
  nodeTypes := fun detector _ => (embedding.script detector.className).nodeTypes
  supplies := fun scanner _ => embedding.client.supplied.contains scanner
  parseMarkup := fun context ws _ => (trimmedText ws context.file).map documentOf?
  parseSource := fun context ws _ => (trimmedText ws context.file).map unitOf?
  readClass := fun bytes _ => classOf (classText bytes)
  keepsProjects := embedding.client.keepsProjects
  overrides := fun dir => (embedding.client.overrides.lookup dir).getD {}
  configuration := fun dir ws memory =>
    (embedding.client.configurations.lookup dir).map (·.make ws memory)
  logsPlainly := embedding.client.logsPlainly

end Embedding
end Scripted

namespace Host

def withTrees (host : Host σ) (document : Option Markup.Document)
    (unit : Option Source.CompilationUnit) : Host σ :=
  { host with
    react := fun call moment memory =>
      match call with
      | .parseMarkup _ | .parseSource _ => .done
      | other => host.react other moment memory
    parseMarkup := fun _ _ _ => .ok document
    parseSource := fun _ _ _ => .ok unit }

end Host
end ProjectLint
