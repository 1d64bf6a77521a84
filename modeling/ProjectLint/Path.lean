/-
Paths as text, and the arithmetic on them that needs no files: parts between slashes, removal of
`.` and `..`, joins, names, parents, and the way from one path to another.
-/
import ProjectLint.Text.Basic

namespace ProjectLint
namespace Path

def isSlash (c : Char) : Bool :=
  c == '/'

def parts (path : String) : List String :=
  (Text.pieces isSlash path.toList).map String.ofList

def isAbsolute (path : String) : Bool :=
  Text.startsWith path "/"

def push (absolute : Bool) (stack : List String) (part : String) : List String :=
  if part = "" ∨ part = "." then stack
  else if part = ".." then
    match stack with
    | [] => if absolute then [] else [".."]
    | top :: below => if top = ".." then ".." :: stack else below
  else part :: stack

def simplified (absolute : Bool) (parts : List String) : List String :=
  (parts.foldl (push absolute) []).reverse

def ofParts (parts : List String) : String :=
  "/" ++ Text.joined "/" parts

/-- The names of a path from the root, without `.` and `..`. -/
def absoluteParts (cwd path : String) : List String :=
  if isAbsolute path then simplified true (parts path)
  else simplified true (parts cwd ++ parts path)

/-- The absolute path. -/
def resolve (cwd path : String) : String :=
  ofParts (absoluteParts cwd path)

def normal (path : String) : String :=
  let absolute := isAbsolute path
  let body := Text.joined "/" (simplified absolute (parts path))
  let tail := if Text.endsWith path "/" then "/" else ""
  if absolute then if body = "" then "/" else "/" ++ body ++ tail
  else if body = "" then "." ++ tail
  else body ++ tail

def join (dir name : String) : String :=
  if dir = "" then normal name
  else if name = "" then normal dir
  else normal (dir ++ "/" ++ name)

def baseName (path : String) : String :=
  String.ofList ((path.toList.reverse.dropWhile isSlash).takeWhile (!isSlash ·)).reverse

def parent (path : String) : String :=
  let upTo := (path.toList.reverse.dropWhile isSlash).dropWhile (!isSlash ·)
  match upTo with
  | [] => if isAbsolute path then "/" else "."
  | [_] => "/"
  | [_, '/'] => "//"
  | _ :: above => String.ofList above.reverse

def parent? (path : String) : Option String :=
  if parent path = path then none else some (parent path)

def splitCommon : List String → List String → List String × List String × List String
  | a :: as, b :: bs =>
      if a = b then
        let (common, restA, restB) := splitCommon as bs
        (a :: common, restA, restB)
      else ([], a :: as, b :: bs)
  | as, bs => ([], as, bs)

def relative (cwd source target : String) : String :=
  let (_, up, down) := splitCommon (absoluteParts cwd source) (absoluteParts cwd target)
  Text.joined "/" (up.map (fun _ => "..") ++ down)

def commonStart (a b : List String) : List String :=
  (splitCommon a b).1

/-- The nearest directory above all paths. -/
def commonAncestor (cwd : String) : List String → Option String
  | [] => none
  | first :: rest =>
      some (ofParts ((rest.map (absoluteParts cwd)).foldl commonStart (absoluteParts cwd first)))

end Path
end ProjectLint
