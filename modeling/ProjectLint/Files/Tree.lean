/-
The file tree: files, symbolic links, and folders that hold further entries. A folder may refuse to
be listed and a file may refuse to be read; both still exist.
-/
import ProjectLint.Files.Archive

namespace ProjectLint
namespace Files

inductive Content
  | bytes (bytes : Bytes)
  | archive (archive : Archive)
  | unreadable

/-- A file, a link or a folder under its name. -/
inductive Entry
  | file (name : String) (content : Content)
  | link (name : String) (target : String)
  | folder (name : String) (listable : Bool) (entries : List Entry)

namespace Entry

def name : Entry → String
  | .file name _ => name
  | .link name _ => name
  | .folder name _ _ => name

def isFolder : Entry → Bool
  | .folder .. => true
  | _ => false

def isFile : Entry → Bool
  | .file .. => true
  | _ => false

def child? (entry : Entry) (name : String) : Option Entry :=
  match entry with
  | .folder _ _ entries => entries.find? (·.name == name)
  | _ => none

def descend? (entry : Entry) : List String → Option Entry
  | [] => some entry
  | name :: rest => (entry.child? name).bind (·.descend? rest)

mutual

def depth : Entry → Nat
  | .folder _ _ entries => depths entries + 1
  | _ => 0

def depths : List Entry → Nat
  | [] => 0
  | entry :: rest => max entry.depth (depths rest)

end

mutual

def entryCount : Entry → Nat
  | .folder _ _ entries => entryCounts entries
  | _ => 0

def entryCounts : List Entry → Nat
  | [] => 0
  | entry :: rest => entry.entryCount + 1 + entryCounts rest

end

mutual

/-- The links below an entry, each with the way down to it and its target. -/
def links : Entry → List (List String × String)
  | .file _ _ => []
  | .link _ target => [([], target)]
  | .folder _ _ entries => linksBelow entries

def linksBelow : List Entry → List (List String × String)
  | [] => []
  | entry :: rest =>
      entry.links.map (fun link => (entry.name :: link.1, link.2)) ++ linksBelow rest

end

end Entry
end Files
end ProjectLint
