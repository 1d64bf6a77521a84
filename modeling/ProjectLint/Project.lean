/-
Projects: what their directory holds, what their properties and their manifest say, and the files of
theirs that a run was pointed at.
-/
import ProjectLint.Configuration
import ProjectLint.Files.Workspace
import ProjectLint.Layout
import ProjectLint.Properties
import ProjectLint.Tree.Markup

namespace ProjectLint

/-- What is known of a project. -/
structure Project where
  dir : String
  /-- The directory that the project was reached from. -/
  reference : String
  manifest : Option String := none
  resources : List String := []
  sources : List String := []
  /-- Folders of compiled classes, and archives of them. -/
  classes : List String := []
  isLibrary : Bool := false
  libraryDirs : List String := []
  package : Option String := none
  minSdk : Option Number.Whole := none
  targetSdk : Option Number.Whole := none
  /-- The files that a run was pointed at; none for the whole project. -/
  subset : Option (List String) := none
  /-- The projects that the library directories led to, once they were looked up. -/
  libraries : Option (List ProjectRef) := none
  configuration : Option Configuration := none

namespace Project

def isProjectDir (ws : Workspace) (dir : String) : Bool :=
  ws.isFile (Path.join dir Layout.manifest)

def ofFolder (ws : Workspace) (dir reference : String) : Project :=
  let dir := ws.canonical dir
  let manifest := Path.join dir Layout.manifest
  let archives := (ws.list (Path.join dir Layout.libraries)).filter fun path =>
    Text.endsWith path Layout.archiveTail && ws.isFile path
  { dir
    reference
    manifest := if ws.isFile manifest then some manifest else none
    resources := [Path.join dir Layout.resources].filter ws.isFolder
    sources := [Path.join dir Layout.sources, Path.join dir Layout.generated].filter ws.isFolder
    classes :=
      [Path.join (Path.join dir Layout.binaries) Layout.classes].filter ws.isFolder ++ archives }

def referenceKey : String := "android.library.reference."

def reference? (entry : String × String) : Option (Number.Whole × String) :=
  if Text.startsWith entry.1 referenceKey then
    match Number.leadingWhole (String.ofList (entry.1.toList.drop referenceKey.length)) with
    | some number => if entry.2 = "" then none else some (number, entry.2)
    | none => none
  else none

def libraryDirsOf (dir : String) (properties : Properties) : List String :=
  (sortBy (fun a b => a.1.le b.1) (properties.filterMap reference?)).map fun entry =>
    Path.join dir entry.2

def withProperties (project : Project) (properties : Properties) : Project :=
  { project with
    isLibrary := properties.get? "android.library" == some "true"
    libraryDirs := libraryDirsOf project.dir properties }

def addFile (project : Project) (file : String) : Project :=
  let files := project.subset.getD []
  { project with subset := some (if files.contains file then files else files ++ [file]) }

def resetSubset (project : Project) : Project :=
  { project with subset := none }

def apiLevel? (value : Option String) : Option Number.Whole :=
  value.bind Number.leadingWhole

def readManifest (project : Project) (document : Markup.Document) : Project :=
  match document.root with
  | none => project
  | some root =>
      let project := { project with package := root.attribute? "package" }
      match root.children.find? (·.tag == "uses-sdk") with
      | none => project
      | some versions =>
          { project with
            minSdk := apiLevel? (versions.attribute? "android:minSdkVersion")
            targetSdk := apiLevel? (versions.attribute? "android:targetSdkVersion") }

def text (project : Project) : String :=
  "Project [dir=" ++ project.dir ++ "]"

end Project

structure FolderOverrides where
  resources : Option (List String) := none
  sources : Option (List String) := none
  classes : Option (List String) := none

def FolderOverrides.apply (overrides : FolderOverrides) (project : Project) : Project :=
  { project with
    resources := overrides.resources.getD project.resources
    sources := overrides.sources.getD project.sources
    classes := overrides.classes.getD project.classes }

end ProjectLint
