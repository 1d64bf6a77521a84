/-
Parsed markup: elements with attributes and children.
-/

namespace ProjectLint
namespace Markup

structure Attribute where
  name : String
  value : String
  deriving DecidableEq, Repr

inductive Element
  | node (tag : String) (attributes : List Attribute) (children : List Element)

namespace Element

def tag : Element → String
  | .node tag _ _ => tag

def attributes : Element → List Attribute
  | .node _ attributes _ => attributes

def children : Element → List Element
  | .node _ _ children => children

def attribute? (element : Element) (name : String) : Option String :=
  (element.attributes.find? (·.name == name)).map Attribute.value

end Element

def localName (name : String) : String :=
  match name.toList.dropWhile (· != ':') with
  | [] => name
  | _ :: rest => String.ofList rest

structure Document where
  root : Option Element

end Markup
end ProjectLint
