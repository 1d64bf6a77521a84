/-
Changes to a file tree: writing an entry with the folders above it, and removing one.
-/
import ProjectLint.Files.Workspace

namespace ProjectLint
namespace Files
namespace Entry

def withChild (entry child : Entry) : Entry :=
  match entry with
  | .folder name listable entries =>
      if entries.any (·.name == child.name) then
        .folder name listable (entries.map fun e => if e.name == child.name then child else e)
      else .folder name listable (entries ++ [child])
  | other => other

def withoutChild (entry : Entry) (child : String) : Entry :=
  match entry with
  | .folder name listable entries => .folder name listable (entries.filter (·.name != child))
  | other => other

/-- Changes the entry below the given one that a list of names leads to. -/
def change (f : Entry → Entry) (entry : Entry) : List String → Entry
  | [] => f entry
  | name :: rest =>
      match entry.child? name with
      | some child => entry.withChild (child.change f rest)
      | none => entry

end Entry

/-- What can be written at a path. -/
inductive Writing
  | content (content : Content)
  | link (target : String)
  | folder (listable : Bool)

/-- A folder that is written again keeps its entries. -/
def Writing.entry (writing : Writing) (name : String) (existing : Option Entry) : Entry :=
  match writing, existing with
  | .content written, _ => .file name written
  | .link target, _ => .link name target
  | .folder listable, some (.folder _ _ entries) => .folder name listable entries
  | .folder listable, _ => .folder name listable []

end Files

namespace Workspace

open Files

/-- Makes the missing folders of a path, and gives where the path leads. -/
def withFolders (ws : Workspace) (here : List String) :
    List String → Option (Workspace × List String)
  | [] => some (ws, here)
  | part :: rest =>
      match ws.root.descend? (here ++ [part]) with
      | none =>
          let folder := Entry.folder part true []
          let grown := { ws with root := ws.root.change (·.withChild folder) here }
          grown.withFolders (here ++ [part]) rest
      | some (.folder ..) => ws.withFolders (here ++ [part]) rest
      | some (.link ..) =>
          (ws.locate? (Path.ofParts (here ++ [part]))).bind fun there =>
            if (ws.root.descend? there).any Entry.isFolder then ws.withFolders there rest
            else none
      | some (.file ..) => none

def write (ws : Workspace) (path : String) (writing : Writing) : Workspace :=
  let parts := Path.absoluteParts ws.cwd path
  match parts.getLast? with
  | none => ws
  | some name =>
      match ws.withFolders [] parts.dropLast with
      | none => ws
      | some (grown, folder) =>
          let existing := grown.root.descend? (folder ++ [name])
          { grown with
            root := grown.root.change (·.withChild (writing.entry name existing)) folder }

def remove (ws : Workspace) (path : String) : Workspace :=
  let parts := Path.absoluteParts ws.cwd path
  match parts.getLast? with
  | none => ws
  | some name =>
      match ws.locate? (Path.ofParts parts.dropLast) with
      | none => ws
      | some folder => { ws with root := ws.root.change (·.withoutChild name) folder }

def initial (cwd : String) : Workspace :=
  (Workspace.mk (.folder "" true []) cwd).write cwd (.folder true)

end Workspace
end ProjectLint
