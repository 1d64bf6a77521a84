/-
Log lines. A line names its level and its moment; details stand beside the message, and are part of
the line only when lines are written as JSON.
-/
import ProjectLint.Data.Value
import ProjectLint.Text.LowerCase

namespace ProjectLint

structure Environment where
  logLevel : Option String := none
  logFormat : Option String := none
  assertions : Option String := none
  mode : Option String := none

namespace Log

inductive Level
  | debug
  | info
  | warn
  | error
  deriving DecidableEq, Repr

namespace Level

def all : List Level :=
  [.debug, .info, .warn, .error]

def name : Level → String
  | .debug => "debug"
  | .info => "info"
  | .warn => "warn"
  | .error => "error"

def heading : Level → String
  | .debug => "DEBUG"
  | .info => "INFO"
  | .warn => "WARN"
  | .error => "ERROR"

def rank : Level → Nat
  | .debug => 0
  | .info => 1
  | .warn => 2
  | .error => 3

def ofName? (text : String) : Option Level :=
  all.find? (·.name == text)

end Level

def passWords : List String :=
  ["constructor", "__proto__"]

def threshold (environment : Environment) : Level :=
  match environment.logLevel with
  | none => .info
  | some word =>
      let word := Text.lower word
      if passWords.contains word then .debug else (Level.ofName? word).getD .info

structure Entry where
  level : Level
  message : String
  details : List (String × Data.Value) := []

structure Line where
  text : String
  details : List (String × Data.Value) := []

def moment : String := "1970-01-01T00:00:00.000Z"

def Entry.asJson (entry : Entry) : Data.Value :=
  let fields : List (String × Data.Value) :=
    [("level", .text entry.level.name), ("message", .text entry.message),
      ("timestamp", .text moment)]
  .record (if entry.details.isEmpty then fields else fields ++ [("context", .record entry.details)])

def Entry.asText (entry : Entry) : String :=
  "[" ++ moment ++ "] [" ++ entry.level.heading ++ "] " ++ entry.message

def Entry.line? (environment : Environment) (entry : Entry) : Option Line :=
  if entry.level.rank < (threshold environment).rank then none
  else if environment.logFormat = some "json" then some ⟨entry.asJson.render, []⟩
  else some ⟨entry.asText, entry.details⟩

def wholeText (n : Int) : String :=
  (Data.Amount.ofDecimal ⟨decide (n < 0), n.natAbs, 0⟩).text

def duration (ms : Int) : String :=
  if ms < 1000 then wholeText ms ++ "ms"
  else if ms < 60000 then
    let tenths := ((Number.Binary64.nearest ms.toNat 1000).map (·.tenths)).getD 0
    toString (tenths / 10) ++ "." ++ toString (tenths % 10) ++ "s"
  else
    let rounded := Number.Binary64.floorOf ms.toNat 1
    let minutes := Number.Binary64.floorOf rounded 60000
    wholeText minutes ++ "m " ++ toString (rounded % 60000 / 1000) ++ "s"

end Log
end ProjectLint
