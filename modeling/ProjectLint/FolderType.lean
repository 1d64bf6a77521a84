/-
Types of resource folders. The name of a folder starts with its type; qualifiers follow a dash.
-/
import ProjectLint.Text.Basic

namespace ProjectLint

/-- The types of resource folders. -/
inductive FolderType
  | anim
  | animator
  | color
  | drawable
  | interpolator
  | layout
  | menu
  | mipmap
  | raw
  | values
  | xml
  deriving DecidableEq, Repr

namespace FolderType

def all : List FolderType :=
  [.anim, .animator, .color, .drawable, .interpolator, .layout, .menu, .mipmap, .raw, .values, .xml]

def name : FolderType → String
  | .anim => "anim"
  | .animator => "animator"
  | .color => "color"
  | .drawable => "drawable"
  | .interpolator => "interpolator"
  | .layout => "layout"
  | .menu => "menu"
  | .mipmap => "mipmap"
  | .raw => "raw"
  | .values => "values"
  | .xml => "xml"

def ofFolder? (folder : String) : Option FolderType :=
  all.find? fun type => type.name.toList == folder.toList.takeWhile (· != '-')

end FolderType
end ProjectLint
