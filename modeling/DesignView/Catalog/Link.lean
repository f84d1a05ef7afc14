import DesignView.Catalog.Assemble
import DesignView.Report.IssueSet
import DesignView.Timing

/-!
Linking of cells and ports to a timing library by name, and the issues found when the two sides
differ.
-/

namespace DesignView

inductive Mismatch where
  | missingTimingPort (library cell port : String)
  | missingPhysicalPort (library cell port : String)
  | duplicateBusBit (cell port : String)
  deriving DecidableEq

namespace Mismatch

def text : Mismatch → String
  | missingTimingPort library cell port =>
    s!"missing timing port: physical macro `{cell}` pin `{port}` missing from timing cell in " ++
      s!"`{library}`"
  | missingPhysicalPort library cell port =>
    s!"missing physical port: timing cell `{cell}` pin `{port}` from `{library}` missing from " ++
      "physical macro"
  | duplicateBusBit cell port =>
    s!"duplicate bus bit: cell `{cell}` pin `{port}` repeats an index of its bus"

def help : Mismatch → String
  | missingTimingPort .. => "check that the timing library matches the physical library"
  | missingPhysicalPort .. => "check that the physical library matches the timing library"
  | duplicateBusBit .. => "rename one of the bits so each index appears once"

end Mismatch

structure LibraryIssue where
  cause : Mismatch
  severity : Severity
  deriving DecidableEq

instance : Diagnostic LibraryIssue where
  text issue := issue.cause.text
  severity := LibraryIssue.severity
  help issue := some issue.cause.help

namespace Catalog

def linkPort (c : Catalog) (library : TimingId) (timing : TimingCell) (id : PortId) : Catalog :=
  match c.port? id with
  | none => c
  | some p =>
    if (timing.port? p.name).isSome then c.setPortTiming id ⟨library, timing.name, p.name⟩ else c

def unmatchedPort? (c : Catalog) (library : String) (timing : TimingCell) (id : PortId) :
    Option Mismatch :=
  match c.port? id with
  | none => none
  | some p =>
    if (timing.port? p.name).isSome || p.direction.isSupply || (timing.supplyPin? p.name).isSome
    then none
    else some (.missingTimingPort library timing.name p.name)

/-- Links a cell and its ports to a timing cell of the same name. Of the groups only the top-level
ones are linked. The second component lists the mismatches: first the ports that the timing cell
lacks, then the ports that only the timing cell has. -/
def link (c : Catalog) (cell : CellId) (id : TimingId) (library : String) (timing : TimingCell) :
    Catalog × List Mismatch :=
  let groups := (c.topPorts cell).filter fun p =>
    (c.port? p).any fun q => q.shape.members ≠ []
  let bits := c.bitsOf cell
  let linked := (groups ++ bits).foldl (fun c p => c.linkPort id timing p)
    (c.setCellTiming cell ⟨id, timing.name⟩)
  let unmatched := bits.filterMap (c.unmatchedPort? library timing)
  let extra := timing.ports.entries.filter fun e =>
    !e.2.isSupply && (c.portNamed? cell e.1).isNone
  (linked, unmatched ++ extra.map fun e => .missingPhysicalPort library timing.name e.1)

end Catalog
end DesignView
