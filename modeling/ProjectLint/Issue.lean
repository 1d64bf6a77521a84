/-
Issues: the kinds of problem that a check can find, with their default settings.
-/
import ProjectLint.Number.Decimal
import ProjectLint.Scope

namespace ProjectLint

inductive Severity
  | fatal
  | error
  | warning
  | informational
  | ignore
  deriving DecidableEq, Repr

namespace Severity

def all : List Severity :=
  [.fatal, .error, .warning, .informational, .ignore]

def name : Severity → String
  | .fatal => "fatal"
  | .error => "error"
  | .warning => "warning"
  | .informational => "informational"
  | .ignore => "ignore"

def ofName? (text : String) : Option Severity :=
  all.find? (·.name == text)

end Severity

inductive Category
  | lint
  | correctness
  | security
  | performance
  | usability
  | accessibility
  | internationalization
  deriving DecidableEq, Repr

namespace Category

def all : List Category :=
  [.lint, .correctness, .security, .performance, .usability, .accessibility, .internationalization]

def name : Category → String
  | .lint => "Lint"
  | .correctness => "Correctness"
  | .security => "Security"
  | .performance => "Performance"
  | .usability => "Usability"
  | .accessibility => "Accessibility"
  | .internationalization => "Internationalization"

def ofName? (text : String) : Option Category :=
  all.find? (·.name == text)

end Category

abbrev DetectorClass := String

inductive Role
  | declared
  | unparsable
  | canceled
  deriving DecidableEq, Repr

/-- A problem that detectors look for. -/
structure Issue where
  id : String
  brief : String
  explanation : String
  category : Category
  priority : Number.Decimal
  severity : Severity
  scope : ScopeSet
  detector : Option DetectorClass
  enabled : Bool
  moreInfo : List String
  role : Role := .declared
  deriving DecidableEq

structure IssueDeclaration where
  id : String
  brief : String
  explanation : Option String := none
  category : Category
  priority : Number.Decimal
  severity : Severity
  scope : ScopeSet
  detector : Option DetectorClass
  enabled : Option Bool := none
  moreInfo : List String := []

namespace Issue

inductive Fault
  | priority (id : String)
  deriving DecidableEq, Repr

def Fault.message : Fault → String
  | .priority id => "Issue " ++ id ++ ": priority must be between 1 and 10"

def declare (declaration : IssueDeclaration) : Except Fault Issue :=
  if declaration.priority.ltNat 1 || declaration.priority.gtNat 10 then
    .error (.priority declaration.id)
  else
    .ok {
      id := declaration.id
      brief := declaration.brief
      explanation := declaration.explanation.getD declaration.brief
      category := declaration.category
      priority := declaration.priority
      severity := declaration.severity
      scope := declaration.scope
      detector := declaration.detector
      enabled := declaration.enabled.getD true
      moreInfo := declaration.moreInfo }

def unparsable : Issue where
  id := "ParserError"
  brief := "Parser Errors"
  explanation :=
    "Lint will ignore any files that contain fatal parsing errors. These may contain " ++
    "other errors, or contain code which affects issues in other files."
  category := .correctness
  priority := .ofNat 10
  severity := .error
  scope := .empty
  detector := none
  enabled := true
  moreInfo := []
  role := .unparsable

def canceled : Issue where
  id := "Lint"
  brief := "Lint canceled"
  explanation := "Lint canceled"
  category := .lint
  priority := .ofNat 1
  severity := .informational
  scope := .empty
  detector := none
  enabled := true
  moreInfo := []
  role := .canceled

def canceledMessage : String := "Lint canceled by user"

end Issue
end ProjectLint
