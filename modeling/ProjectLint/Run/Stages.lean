/-
The stages in which the files of a project are checked: manifest, resources, source code, compiled
classes, shrinker rules. Each stage runs if its category is in scope and some detector serves it.
-/
import ProjectLint.Files.Reading
import ProjectLint.Run.Notifier
import ProjectLint.Run.Visit

namespace ProjectLint
namespace Engine

open Run

/-- A pass over a project or library, for a main project. -/
structure Pass where
  project : ProjectRef
  main : ProjectRef

def Pass.context (pass : Pass) (file : String) (kind : Context.Kind := .plain) : Context :=
  ⟨pass.project, some pass.main, file, kind⟩

def inScope (scopes : List Scope) : Run σ Bool := do
  return scopes.any (← get).scope.contains

def scanners (e : Engine σ) (detectors : List Detector) (scanner : Scanner) : List Detector :=
  detectors.filter fun detector => e.host.scans detector.className scanner

/-- Runs a check with the detectors that serve it, if one of its categories is in scope and the
client can read the files. -/
def stage (e : Engine σ) (scopes : List Scope) (choice : Selection → List Detector)
    (scanner : Scanner) (missing : String) (check : List Detector → Run σ Unit) : Run σ Unit := do
  if ← inScope scopes then
    match e.scanners (choice (← get).selection) scanner with
    | [] => pure ()
    | checks =>
        if e.host.supplies scanner (← get).host then check checks else e.log none missing
  else pure ()

/-! ## Manifest -/

def scanManifest (e : Engine σ) (context : Context) (document : Markup.Document) : Run σ Unit := do
  if ← inScope [.manifest] then
    match e.scanners ((← get).selection.bucket .manifest) .markup with
    | [] => pure ()
    | detectors =>
        let visitor ← e.markupVisitor detectors
        e.fire .scanningFile (some context)
        let _ ← e.visitMarkup visitor context (some document)
        pure ()
  else pure ()

def checkManifest (e : Engine σ) (pass : Pass) : Run σ Unit := do
  let project ← getProject pass.project
  match project.manifest with
  | none => pure ()
  | some file =>
      if project.isLibrary then pure ()
      else if e.host.supplies .markup (← get).host then
        let context := pass.context file (.markup none)
        match ← e.parseMarkup context with
        | none => pure ()
        | some document =>
            changeProject pass.project (·.readManifest document)
            e.scanManifest context document
      else e.log none "No XML parser provided to lint: not reading the manifest"

/-! ## Resources -/

def applicable (e : Engine σ) (folder : FolderType) : List Detector → Run σ (List Detector)
  | [] => return []
  | detector :: rest => do
      let applies ← e.appliesToFolder detector folder
      let others ← e.applicable folder rest
      return if applies then detector :: others else others

def newVisitor (e : Engine σ) (folder : FolderType) (detectors : List Detector) :
    Run σ (Option MarkupVisitor) := do
  let visitor ←
    match detectors with
    | [] => pure none
    | detectors => some <$> e.markupVisitor detectors
  modify fun s => { s with memo := some ⟨some folder, detectors, visitor⟩ }
  return visitor

def folderVisitor (e : Engine σ) (checks : List Detector) (folder : FolderType) :
    Run σ (Option MarkupVisitor) := do
  match (← get).memo with
  | some memo =>
      if memo.folder = some folder then return memo.visitor
      else
        let detectors ← e.applicable folder checks
        if memo.detectors = detectors then
          modify fun s => { s with memo := some { memo with folder := some folder } }
          return memo.visitor
        else e.newVisitor folder detectors
  | none =>
      let detectors ← e.applicable folder checks
      e.newVisitor folder detectors

def scanResource (e : Engine σ) (pass : Pass) (visitor : MarkupVisitor) (folder : FolderType)
    (file : String) : Run σ Unit := do
  let context := pass.context file (.markup (some folder))
  e.fire .scanningFile (some context)
  let _ ← e.visitMarkup visitor context
  pure ()

/-- Where the visitor for a type of folder comes from. -/
abbrev VisitorSource (σ : Type) := FolderType → Run σ (Option MarkupVisitor)

def checkTypeFolder (e : Engine σ) (pass : Pass) (source : VisitorSource σ) (dir : String)
    (folder : FolderType) : Run σ Unit := do
  let ws := (← get).files
  match (ws.list dir).filter fun file => Layout.isMarkup file && ws.isFile file with
  | [] => pure ()
  | files =>
      match ← source folder with
      | none => pure ()
      | some visitor => eachUntilCanceled files (e.scanResource pass visitor folder)

def checkResourceFolder (e : Engine σ) (pass : Pass) (source : VisitorSource σ)
    (resources : String) : Run σ Unit := do
  eachUntilCanceled ((← get).files.list resources) fun dir => do
    if (← get).files.isFolder dir then
      match FolderType.ofFolder? (Path.baseName dir) with
      | some folder => e.checkTypeFolder pass source dir folder
      | none => pure ()
    else pure ()

def checkGivenResource (e : Engine σ) (pass : Pass) (source : VisitorSource σ) (path : String) :
    Run σ Unit := do
  let ws := (← get).files
  if ws.isFolder path then
    match FolderType.ofFolder? (Path.baseName path),
        Path.baseName (Path.parent path) == Layout.resources with
    | some folder, true => e.checkTypeFolder pass source path folder
    | _, _ =>
        if Path.baseName path = Layout.resources then e.checkResourceFolder pass source path
        else
          e.log none ("Unexpected folder " ++ path ++
            "; should be project, \"res\" folder or resource folder")
  else if ws.isFile path && Layout.isMarkup path then
    match FolderType.ofFolder? (Path.baseName (Path.parent path)) with
    | none => pure ()
    | some folder =>
        match ← source folder with
        | none => pure ()
        | some visitor => e.scanResource pass visitor folder path
  else pure ()

def checkResourcesBy (e : Engine σ) (pass : Pass) (source : VisitorSource σ) : Run σ Unit := do
  let project ← getProject pass.project
  match project.subset with
  | some files => eachUntilCanceled files (e.checkGivenResource pass source)
  | none => eachUntilCanceled project.resources (e.checkResourceFolder pass source)

def startPass : Run σ Unit :=
  modify fun s => { s with memo := s.memo.map fun memo => { memo with folder := none } }

def checkResources (e : Engine σ) (pass : Pass) : Run σ Unit :=
  e.stage [.resourceFile, .allResourceFiles] (·.merged .resourceFile .allResourceFiles) .markup
    "No XML parser provided to lint: not running resource checks" fun checks => do
      startPass
      e.checkResourcesBy pass (e.folderVisitor checks)

/-! ## Source code -/

def scanSource (e : Engine σ) (pass : Pass) (visitor : SourceVisitor) (file : String) :
    Run σ Unit := do
  let context := pass.context file .source
  e.fire .scanningFile (some context)
  let _ ← e.visitSource visitor context
  pure ()

def checkSources (e : Engine σ) (pass : Pass) : Run σ Unit :=
  e.stage [.javaFile, .allJavaFiles] (·.merged .javaFile .allJavaFiles) .source
    "No java parser provided to lint: not running Java checks" fun checks => do
      let s ← get
      let folders := (s.project pass.project).sources
      match folders.flatMap fun folder => s.files.gather folder Layout.sourceTail with
      | [] => pure ()
      | files =>
          let visitor ← e.sourceVisitor checks
          eachUntilCanceled files (e.scanSource pass visitor)

/-! ## Compiled classes -/

def checkWith (e : Engine σ) (context : Context) (hook : Hook) (detector : Detector) :
    Run σ Unit := do
  if ← e.appliesToFile detector context then
    e.ask detector (.beforeFile context)
    e.ask detector hook
    e.ask detector (.afterFile context)
  else pure ()

def readClass (e : Engine σ) (bytes : Bytes) : Run σ Bytecode.ClassFile :=
  e.consult (.readClass bytes) fun _ => e.host.readClass bytes

structure ClassOrigin where
  archive : Option String
  root : String
  deriving DecidableEq

def checkClass (e : Engine σ) (pass : Pass) (checks : List Detector) (origin : ClassOrigin)
    (file : String) (bytes : Bytes) : Run σ Unit := do
  match ← attempt (e.readClass bytes) with
  | .error fault => e.log (some fault.message) ("Could not read class " ++ file)
  | .ok parsed =>
      if Suppression.inBytecode none parsed.annotations then pure ()
      else
        let context := pass.context file (.bytecode origin.archive origin.root bytes parsed)
        e.fire .scanningFile (some context)
        eachUntilCanceled checks (e.checkWith context (.classFile context parsed))

def checkEntry (e : Engine σ) (pass : Pass) (checks : List Detector) (archive : String)
    (entry : Files.ArchiveEntry) : Run σ Unit :=
  if Text.endsWith entry.name Layout.classTail then
    match entry.bytes archive with
    | .ok bytes => e.checkClass pass checks ⟨some archive, archive⟩ entry.name bytes
    | .error failure => e.log none failure.message
  else pure ()

def checkArchive (e : Engine σ) (pass : Pass) (checks : List Detector) (path : String) :
    Run σ Unit := do
  match (← get).files.archive path with
  | .error failure => e.log none failure.message
  | .ok archive =>
      match archive.list with
      | .error fault => throw (.archive fault)
      | .ok entries => eachUntilCanceled entries (e.checkEntry pass checks path)

def checkFolderClass (e : Engine σ) (pass : Pass) (checks : List Detector) (root file : String) :
    Run σ Unit := do
  match (← get).files.bytes file with
  | .ok bytes => e.checkClass pass checks ⟨none, root⟩ file bytes
  | .error failure => e.log none failure.message

def checkClassFolder (e : Engine σ) (pass : Pass) (checks : List Detector) (root : String) :
    Run σ Unit := do
  let ws := (← get).files
  if ws.exists? root then
    eachUntilCanceled (ws.gather root Layout.classTail) (e.checkFolderClass pass checks root)
  else e.log none ("Class folder " ++ root ++ " does not exist")

def checkClasses (e : Engine σ) (pass : Pass) : Run σ Unit :=
  e.stage [.classFile] (·.bucket .classFile) .bytecode
    "No class reader provided to lint: not running class checks" fun checks => do
      let project ← getProject pass.project
      eachUntilCanceled project.classes fun path =>
        if Text.endsWith path Layout.archiveTail then e.checkArchive pass checks path
        else e.checkClassFolder pass checks path

/-! ## Shrinker rules -/

def checkShrinkerRules (e : Engine σ) (pass : Pass) : Run σ Unit := do
  if pass.project = pass.main then
    if ← inScope [.proguardFile] then
      let s ← get
      let file := Path.join pass.project.dir Layout.shrinkerRules
      match s.selection.bucket .proguardFile with
      | [] => pure ()
      | detectors =>
          if s.files.isFile file then
            let context := pass.context file
            e.fire .scanningFile (some context)
            each detectors (e.checkWith context (.run context))
          else pure ()
    else pure ()
  else pure ()

/-- The stages of a pass. -/
def checkFiles (e : Engine σ) (pass : Pass) : Run σ Unit := do
  e.checkManifest pass
  unlessCanceled do
    e.checkResources pass
    unlessCanceled do
      e.checkSources pass
      unlessCanceled do
        e.checkClasses pass
        unlessCanceled (e.checkShrinkerRules pass)

end Engine
end ProjectLint
