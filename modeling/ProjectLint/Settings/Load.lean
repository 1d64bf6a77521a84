/-
Loading the settings of a directory. The first of three file names that exists is read; a file that
cannot be read or says anything wrong counts as empty, and one line of the log says so.
-/
import ProjectLint.Configuration
import ProjectLint.Data.Yaml
import ProjectLint.Files.Workspace
import ProjectLint.Log

namespace ProjectLint
namespace Settings

def fileNames : List String :=
  ["lint.json", "lint.yml", "lint.yaml"]

def file? (ws : Workspace) (dir : String) : Option String :=
  (fileNames.map (Path.join dir)).find? ws.exists?

inductive LoadFault
  /-- It cannot be read, or its text is not well formed. -/
  | unreadable
  | invalid (problems : List Problem)

def parseText? (path text : String) : Option Data.Value :=
  if Text.endsWith path ".json" then Data.Json.read? text else Data.Yaml.read? text

def ofFile (ws : Workspace) (path : String) : Except LoadFault Settings :=
  match ws.readText path with
  | .error _ => .error .unreadable
  | .ok text =>
      match parseText? path text with
      | none => .error .unreadable
      | some document =>
          match check document with
          | .ok settings => .ok settings
          | .error problems => .error (.invalid problems)

def unreadableReason : String := "not readable or not well formed"

def LoadFault.entry (path : String) : LoadFault → Log.Entry
  | .unreadable =>
      ⟨.error, "[FileConfiguration] Failed to load " ++ path ++ ": " ++ unreadableReason, []⟩
  | .invalid problems =>
      ⟨.error, "[FileConfiguration] Invalid config " ++ path ++ ": " ++ problemsText problems, []⟩

def loadedEntry (path : String) (settings : Settings) : Log.Entry :=
  ⟨.debug, "[FileConfiguration] Loaded " ++ path, [("issues", .ofNat settings.issues.length)]⟩

def load (ws : Workspace) (dir : String) : Settings × List Log.Entry :=
  match file? ws dir with
  | none => ({}, [])
  | some path =>
      match ofFile ws path with
      | .ok settings => (settings, [loadedEntry path settings])
      | .error fault => ({}, [fault.entry path])

end Settings

/-- The configuration of a directory, over that of its parent. -/
def Configuration.load (ws : Workspace) (dir : String) (parent : Configuration) :
    Configuration × List Log.Entry :=
  let (settings, entries) := Settings.load ws dir
  (.layer ⟨dir, settings⟩ parent, entries)

end ProjectLint
