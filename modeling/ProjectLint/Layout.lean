/-
The layout of a project on disk: the names of its files and folders, and what the name of a given
file says about the checks that it calls for.
-/
import ProjectLint.Path
import ProjectLint.Scope
import ProjectLint.Text.LowerCase

namespace ProjectLint
namespace Layout

def manifest : String := "AndroidManifest.xml"
def shrinkerRules : String := "proguard.cfg"
def properties : String := "project.properties"
def resources : String := "res"
def sources : String := "src"
def generated : String := "gen"
def binaries : String := "bin"
def classes : String := "classes"
def libraries : String := "libs"

def sourceTail : String := ".java"
def classTail : String := ".class"
def archiveTail : String := ".jar"

def isMarkup (path : String) : Bool :=
  Text.endsWith (Text.lower path) ".xml"

/-- The categories of a file that is given by itself. -/
def scopesOf (path : String) : List Scope :=
  let name := Path.baseName path
  if name = manifest then [.manifest]
  else if Text.endsWith name ".xml" then [.resourceFile]
  else if name = shrinkerRules then [.proguardFile]
  else if name = resources ∨ Path.baseName (Path.parent path) = resources then
    [.allResourceFiles, .resourceFile]
  else if Text.endsWith name sourceTail then [.javaFile]
  else if Text.endsWith name classTail then [.classFile]
  else []

def inferScope (subsets : List (Option (List String))) : ScopeSet :=
  if subsets.any Option.isNone then .all
  else .ofList (subsets.flatMap fun files => (files.getD []).flatMap scopesOf)

end Layout
end ProjectLint
