import DesignView.Report.Journal

/-!
Issues and ordered collections of them. An issue says its text, and, unless it says otherwise, is a
warning without a help text.
-/

namespace DesignView

inductive Severity where
  | info | warning | error
  deriving DecidableEq

namespace Severity

def all : List Severity := [info, warning, error]

def name : Severity → String
  | info => "info"
  | warning => "warning"
  | error => "error"

def rank : Severity → Nat
  | info => 0
  | warning => 1
  | error => 2

instance : Ord Severity := ⟨fun a b => compare a.rank b.rank⟩

end Severity

class Diagnostic (α : Type) where
  text : α → String
  severity : α → Severity := fun _ => .warning
  help : α → Option String := fun _ => none

/-- Writes an issue to the journal at the level of its severity; information is not kept. -/
def Journal.report {α : Type} [Diagnostic α] (j : Journal) (issue : α) : Journal :=
  match Diagnostic.severity issue with
  | .info => j
  | .warning => j.warn (Diagnostic.text issue)
  | .error => j.error (Diagnostic.text issue)

structure PlainIssue where
  text : String

instance : Diagnostic PlainIssue where
  text := PlainIssue.text

structure RatedIssue where
  text : String
  severity : Severity

instance : Diagnostic RatedIssue where
  text := RatedIssue.text
  severity := RatedIssue.severity

structure IssueSet (α : Type) where
  issues : List α := []

namespace IssueSet

variable {α : Type}

def size (s : IssueSet α) : Nat := s.issues.length

def isEmpty (s : IssueSet α) : Bool := s.issues.isEmpty

def add (s : IssueSet α) (issue : α) : IssueSet α := ⟨s.issues ++ [issue]⟩

def addAll (s : IssueSet α) (issues : List α) : IssueSet α := ⟨s.issues ++ issues⟩

def clear (_ : IssueSet α) : IssueSet α := {}

variable [Diagnostic α]

def withSeverity (s : IssueSet α) (severity : Severity) : List α :=
  s.issues.filter fun issue => Diagnostic.severity issue = severity

def errorCount (s : IssueSet α) : Nat := (s.withSeverity .error).length

def warningCount (s : IssueSet α) : Nat := (s.withSeverity .warning).length

def hasError (s : IssueSet α) : Bool := 0 < s.errorCount

def hasWarning (s : IssueSet α) : Bool := 0 < s.warningCount

def text (s : IssueSet α) : String :=
  String.join (s.issues.map fun issue => Diagnostic.text issue ++ "\n")

end IssueSet
end DesignView
