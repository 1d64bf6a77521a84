/-
Properties files: a key and a value on each line, divided by the first equals sign or colon. Blank
lines and lines that start with a hash or an exclamation mark say nothing.
-/
import ProjectLint.Text.Basic
import ProjectLint.Text.Blank

namespace ProjectLint

/-- Keys with their values. -/
abbrev Properties := List (String × String)

namespace Properties

def set (properties : Properties) (key value : String) : Properties :=
  if properties.any (·.1 == key) then
    properties.map fun entry => if entry.1 == key then (key, value) else entry
  else properties ++ [(key, value)]

def get? (properties : Properties) (key : String) : Option String :=
  (properties.find? (·.1 == key)).map Prod.snd

def isDivider (c : Char) : Bool :=
  c == '=' || c == ':'

def ofLine? (line : List Char) : Option (String × String) :=
  let line := Text.trimChars line
  match line with
  | [] => none
  | c :: _ =>
      if c = '#' ∨ c = '!' then none
      else
        match Text.cutAt isDivider line with
        | none => some (String.ofList line, "")
        | some (key, value) =>
            some (String.ofList (Text.trimChars key), String.ofList (Text.trimChars value))

/-- Reads a properties file; a later line overrides an earlier one. -/
def parse (text : String) : Properties :=
  ((Text.pieces (· == '\n') text.toList).filterMap ofLine?).foldl
    (fun properties entry => properties.set entry.1 entry.2) []

end Properties
end ProjectLint
