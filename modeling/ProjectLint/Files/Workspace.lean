/-
Queries on a file tree seen from a current directory. Queries about what a path leads to follow
links and take `..` as the folder above the one reached; a canonical path first drops `..` from the
text and only then follows links.
-/
import ProjectLint.Files.Tree
import ProjectLint.Path
import ProjectLint.Text.Units

namespace ProjectLint

/-- All files, and the directory that paths start from. -/
structure Workspace where
  root : Files.Entry
  cwd : String

namespace Workspace

open Files

/-- How many links the file system follows for one path. -/
def linkLimit : Nat := 40

def walk (ws : Workspace) (onLink : List String → List String → Option (List String))
    (here : List String) : List String → Option (List String)
  | [] => some here
  | part :: rest =>
      match ws.root.descend? here with
      | some (.folder name listable entries) =>
          if part = "" ∨ part = "." then ws.walk onLink here rest
          else if part = ".." then ws.walk onLink here.dropLast rest
          else
            match (Entry.folder name listable entries).child? part with
            | none => none
            | some (.link _ target) =>
                onLink (if Path.isAbsolute target then [] else here) (Path.parts target ++ rest)
            | some _ => ws.walk onLink (here ++ [part]) rest
      | _ => none

def follow (ws : Workspace) : Nat → List String → List String → Option (List String)
  | 0 => ws.walk fun _ _ => none
  | links + 1 => ws.walk (ws.follow links)

def locate? (ws : Workspace) (path : String) : Option (List String) :=
  if path = "" then none
  else
    ws.follow linkLimit (if Path.isAbsolute path then [] else Path.absoluteParts "/" ws.cwd)
      (Path.parts path)

def entry? (ws : Workspace) (path : String) : Option Entry :=
  (ws.locate? path).bind ws.root.descend?

def exists? (ws : Workspace) (path : String) : Bool :=
  (ws.entry? path).isSome

def isFolder (ws : Workspace) (path : String) : Bool :=
  (ws.entry? path).any Entry.isFolder

def isFile (ws : Workspace) (path : String) : Bool :=
  (ws.entry? path).any Entry.isFile

/-- Where a path comes to when every link on its way is replaced by what it stands for. -/
inductive Landing
  | reached (parts : List String)
  /-- Something on the way is missing. -/
  | broken
  /-- A link stands for a path through itself, and the way never ends. -/
  | endless
  deriving DecidableEq

def Landing.andThen (landing : Landing) (next : List String → Landing) : Landing :=
  match landing with
  | .reached there => next there
  | .broken => .broken
  | .endless => .endless

/-- The path that a link stands for. Its target is read as text where the link is, so that `..`
takes away the part before it, also where that part is a link. -/
def aim (folder : List String) (target : String) : List String :=
  Path.absoluteParts (Path.ofParts folder) target

def landFrom (ws : Workspace) (onLink : List String → Landing) (here : List String) :
    List String → Landing
  | [] => .reached here
  | part :: rest =>
      match ws.root.descend? (here ++ [part]) with
      | none => .broken
      | some (.link _ target) =>
          if ws.exists? (Path.ofParts (here ++ [part])) then
            (onLink (aim here target)).andThen fun there => ws.landFrom onLink there rest
          else .broken
      | some _ => ws.landFrom onLink (here ++ [part]) rest

/-- Follows links that stand for paths through further links, down to a depth. -/
def land (ws : Workspace) : Nat → List String → Landing
  | 0 => ws.landFrom (fun _ => .endless) []
  | depth + 1 => ws.landFrom (ws.land depth) []

/-- Ways that go deeper come through one link twice, and so they never end. -/
def linkDepth (ws : Workspace) : Nat :=
  1 + ws.root.links.length

def landing (ws : Workspace) (path : String) : Landing :=
  ws.land ws.linkDepth (Path.absoluteParts ws.cwd path)

/-- Replacing the links of a path comes to an end. -/
def linksEnd (ws : Workspace) (path : String) : Bool :=
  ws.landing path != .endless

/-- The path without links and `..`, or only without `..` if something on the way is missing. A path
whose links never end has none, and the text given for it is never used. -/
def canonical (ws : Workspace) (path : String) : String :=
  match ws.landing path with
  | .reached parts => Path.ofParts parts
  | _ => Path.resolve ws.cwd path

def folderRoom (ws : Workspace) : Nat :=
  Nat.pow (ws.root.entryCount + 1) ((linkLimit + 1) * (ws.root.depth + 1))

def entries? (ws : Workspace) (dir : String) : Option (List Entry) :=
  match ws.entry? dir with
  | some (.folder _ true entries) =>
      some (sortBy (fun a b => Text.unitsLe a.name b.name) entries)
  | _ => none

def list (ws : Workspace) (dir : String) : List String :=
  ((ws.entries? dir).getD []).map fun entry => Path.join dir entry.name

def folders (ws : Workspace) (dir : String) : List String :=
  (((ws.entries? dir).getD []).filter Entry.isFolder).map fun entry => Path.join dir entry.name

end Workspace

namespace Files.Entry

def inNameOrder (shares : List (String × List String)) : List String :=
  (sortBy (fun a b => Text.unitsLe a.1 b.1) shares).flatMap Prod.snd

mutual

def gather (tail dir : String) : Entry → List String
  | .file name _ => if Text.endsWith name tail then [Path.join dir name] else []
  | .link _ _ => []
  | .folder name listable entries =>
      if listable then
        inNameOrder (gatherAll tail (Path.join dir name) entries)
      else []

def gatherAll (tail dir : String) : List Entry → List (String × List String)
  | [] => []
  | entry :: rest => (entry.name, entry.gather tail dir) :: gatherAll tail dir rest

end

end Files.Entry

namespace Workspace

open Files

def gather (ws : Workspace) (dir tail : String) : List String :=
  ((ws.entries? dir).getD []).flatMap fun entry =>
    match entry with
    | .folder name _ _ =>
        match ws.entry? (Path.join dir name) with
        | some (.folder _ true entries) =>
            Entry.inNameOrder (Entry.gatherAll tail (Path.join dir name) entries)
        | _ => []
    | other => other.gather tail dir

/-- What is found at a directory, after what was found before. -/
def gatherInto (ws : Workspace) (dir tail : String) (found : List String) : List String :=
  found ++ ws.gather dir tail

def read (ws : Workspace) (path : String) : Except ReadFault Bytes :=
  match ws.entry? path with
  | none => .error .missing
  | some (.folder ..) => .error .directory
  | some (.file _ (.bytes bytes)) => .ok bytes
  | some (.file _ (.archive _)) => .ok []
  | some (.file _ .unreadable) => .error .denied
  | some (.link ..) => .error .missing

def readText (ws : Workspace) (path : String) : Except ReadFault String :=
  (ws.read path).map Text.Utf8.decode

def openArchive (ws : Workspace) (path : String) : Except ArchiveFault Archive :=
  if path = "" then .ok { entries := [] }
  else
    match ws.entry? path with
    | none => .error .noFile
    | some (.folder ..) => .error (.unread .directory path)
    | some (.file _ (.archive archive)) => .ok archive
    | some (.file _ (.bytes _)) => .error .noArchive
    | some (.file _ .unreadable) => .error (.unread .denied path)
    | some (.link ..) => .error .noFile

end Workspace
end ProjectLint
