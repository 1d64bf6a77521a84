/-
Reading files as values: a file that cannot be read gives a failure that says which one and why.
-/
import ProjectLint.Files.Workspace

namespace ProjectLint
namespace Files

inductive FailureKind
  | notFound
  | notFile
  | readFailed
  | archiveUnreadable
  deriving DecidableEq, Repr

def FailureKind.name : FailureKind → String
  | .notFound => "NOT_FOUND"
  | .notFile => "NOT_FILE"
  | .readFailed => "READ_FAILED"
  | .archiveUnreadable => "ARCHIVE_UNREADABLE"

/-- Why a file cannot be read, in words. -/
structure Failure where
  kind : FailureKind
  message : String
  path : String
  deriving DecidableEq, Repr

def ArchiveEntry.bytes (entry : ArchiveEntry) (archive : String) : Except Failure Bytes :=
  match entry.read with
  | .ok bytes => .ok bytes
  | .error fault =>
      .error ⟨.readFailed,
        "Could not read " ++ entry.name ++ " from " ++ archive ++ ": " ++ fault.message,
        archive ++ "!/" ++ entry.name⟩

end Files

namespace Workspace

open Files

def bytes (ws : Workspace) (path : String) : Except Failure Bytes :=
  if !ws.exists? path then .error ⟨.notFound, "File not found: " ++ path, path⟩
  else if !ws.isFile path then .error ⟨.notFile, "Path is not a file: " ++ path, path⟩
  else
    match ws.read path with
    | .ok bytes => .ok bytes
    | .error fault =>
        .error ⟨.readFailed, "Cannot read " ++ path ++ ": " ++ fault.message path, path⟩

def archive (ws : Workspace) (path : String) : Except Failure Archive :=
  match ws.openArchive path with
  | .ok archive => .ok archive
  | .error fault =>
      .error ⟨.archiveUnreadable, "Could not read archive " ++ path ++ ": " ++ fault.message, path⟩

end Workspace
end ProjectLint
