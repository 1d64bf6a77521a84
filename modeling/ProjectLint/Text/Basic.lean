/-
Comparisons and joins of texts, stated on their characters.
-/

namespace ProjectLint
namespace Text

def startsWith (text start : String) : Bool :=
  start.toList.isPrefixOf text.toList

def endsWith (text tail : String) : Bool :=
  tail.toList.isSuffixOf text.toList

def joined (separator : String) : List String → String
  | [] => ""
  | [text] => text
  | text :: rest => text ++ separator ++ joined separator rest

def pieces (isSeparator : Char → Bool) : List Char → List (List Char)
  | [] => [[]]
  | c :: cs =>
      if isSeparator c then [] :: pieces isSeparator cs
      else
        match pieces isSeparator cs with
        | [] => [[c]]
        | piece :: rest => (c :: piece) :: rest

def cutAt (isSeparator : Char → Bool) : List Char → Option (List Char × List Char)
  | [] => none
  | c :: cs =>
      if isSeparator c then some ([], cs)
      else (cutAt isSeparator cs).map fun (before, after) => (c :: before, after)

end Text
end ProjectLint
