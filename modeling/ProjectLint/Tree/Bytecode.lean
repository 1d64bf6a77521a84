/-
Compiled classes, as far as their names and annotations go.
-/

namespace ProjectLint
namespace Bytecode

inductive Argument
  | text (value : String)
  | other
  | list (elements : List Argument)

structure Annotation where
  descriptor : String
  values : List (String × Argument)

structure Member where
  name : String
  descriptor : String
  annotations : List Annotation

structure ClassFile where
  name : String
  annotations : List Annotation := []
  methods : List Member := []
  fields : List Member := []

end Bytecode
end ProjectLint
