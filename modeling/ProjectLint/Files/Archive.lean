/-
Archives of compiled classes. Opening an archive, listing it and reading one of its entries can each
fail, and each cause has its own wording.
-/
import ProjectLint.Text.Basic
import ProjectLint.Text.Utf8

namespace ProjectLint
namespace Files

inductive ReadFault
  | missing
  | directory
  | denied
  deriving DecidableEq, Repr

def ReadFault.message (path : String) : ReadFault → String
  | .missing => "ENOENT: no such file or directory, open '" ++ path ++ "'"
  | .directory => "EISDIR: illegal operation on a directory, read"
  | .denied => "EACCES: permission denied, open '" ++ path ++ "'"

inductive ArchiveFault
  | noFile
  | noArchive
  | unread (fault : ReadFault) (path : String)
  | badDirectory
  | badCount
  | badChecksum
  | badMethod
  | badHeader
  | badPassword
  deriving DecidableEq, Repr

def ArchiveFault.message : ArchiveFault → String
  | .noFile => "ADM-ZIP: Invalid filename"
  | .noArchive => "ADM-ZIP: Invalid or unsupported zip format. No END header found"
  | .unread fault path => fault.message path
  | .badDirectory => "ADM-ZIP: Invalid CEN header (bad signature)"
  | .badCount => "ADM-ZIP: Number of disk entries is too large"
  | .badChecksum => "ADM-ZIP: CRC32 checksum failed \x7b0\x7d"
  | .badMethod => "ADM-ZIP: Invalid/unsupported compression method"
  | .badHeader => "ADM-ZIP: Invalid LOC header (bad signature)"
  | .badPassword => "ADM-ZIP: Incompatible password parameter"

/-- A file of an archive, perhaps a damaged one. -/
structure ArchiveEntry where
  name : String
  content : Bytes
  damage : Option ArchiveFault := none

/-- An archive of class files, perhaps a damaged one. -/
structure Archive where
  entries : List ArchiveEntry
  damage : Option ArchiveFault := none

namespace ArchiveEntry

def isDirectory (entry : ArchiveEntry) : Bool :=
  Text.endsWith entry.name "/" || Text.endsWith entry.name "\\"

def read (entry : ArchiveEntry) : Except ArchiveFault Bytes :=
  match entry.damage with
  | some .badHeader => .error .badHeader
  | some fault => if entry.content.isEmpty then .ok [] else .error fault
  | none => .ok entry.content

end ArchiveEntry

def Archive.list (archive : Archive) : Except ArchiveFault (List ArchiveEntry) :=
  match archive.damage with
  | some .badDirectory =>
      if archive.entries.isEmpty then .ok [] else .error .badDirectory
  | some fault => .error fault
  | none => .ok (archive.entries.filter (!·.isDirectory))

end Files
end ProjectLint
