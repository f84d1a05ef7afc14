import DesignView.Catalog.Group
import DesignView.Catalog.Link
import DesignView.Handle
import DesignView.Physical.Database
import DesignView.Settings

/-!
The network: a database seen as instances, pins, nets and terms, the catalog built over it, the
timing libraries it is compared with, and what is remembered between requests.
-/

namespace DesignView

inductive LogicValue where
  | zero | one
  deriving DecidableEq

inductive LoadEvent where
  | library (id : LibraryId) (name : String)
  | timingLibrary (id : TimingId) (name : String)
  | design (name : String) (generation : Nat)
  | teardown

structure Observers where
  next : Nat := 0
  registered : List Nat := []
  delivered : List (Nat × LoadEvent) := []

structure Network where
  settings : Settings
  db : Database := {}
  timing : List TimingLibrary := []
  catalog : Catalog := {}
  issues : IssueSet LibraryIssue := {}
  /-- The flat nets that carried power or ground when the design was loaded. -/
  constants : OrderedMap NetId LogicValue := {}
  generation : Nat := 0
  designLoaded : Bool := false
  /-- The driving pins of the nets that were asked for, kept current by the edits. -/
  drivers : OrderedMap Net (List Pin) := {}
  observers : Observers := {}
  journal : Journal := []

namespace Network

def new (settings : Settings) : Network := { settings }

def hierarchy (n : Network) : Bool := n.settings.hierarchy

def design? (n : Network) : Option Design := n.db.design?

def design (n : Network) : Except Fault Design :=
  match n.db.design? with
  | some d => .ok d
  | none => .error .noDesign

def withDesign (n : Network) (d : Design) : Network :=
  { n with db := { n.db with design? := some d } }

def timingLibrary? (n : Network) (id : TimingId) : Option TimingLibrary := n.timing[id.index]?

def timingLibraries (n : Network) : List (TimingId × TimingLibrary) :=
  n.timing.zipIdx.map fun (l, i) => (⟨i⟩, l)

def warn (n : Network) (text : String) : Network := { n with journal := n.journal.warn text }

def logError (n : Network) (text : String) : Network := { n with journal := n.journal.error text }

def logFault (n : Network) (f : Fault) : Network := { n with journal := n.journal.fault f }

def takeJournal (n : Network) : Journal × Network := (n.journal, { n with journal := [] })

def report (n : Network) (cause : Mismatch) : Network :=
  let issue : LibraryIssue := ⟨cause, .warning⟩
  { n with issues := n.issues.add issue, journal := n.journal.report issue }

def reportAll (n : Network) (causes : List Mismatch) : Network := causes.foldl report n

def addObserver (n : Network) : Nat × Network :=
  let o := n.observers
  (o.next, { n with
    observers := { o with next := o.next + 1, registered := o.registered ++ [o.next] } })

def removeObserver (n : Network) (observer : Nat) : Bool × Network :=
  let o := n.observers
  (observer ∈ o.registered,
    { n with observers := { o with registered := o.registered.filter (· ≠ observer) } })

def notify (n : Network) (event : LoadEvent) : Network :=
  let o := n.observers
  { n with
    observers := { o with delivered := o.delivered ++ o.registered.map fun i => (i, event) } }

def takeEvents (n : Network) : List (Nat × LoadEvent) × Network :=
  (n.observers.delivered, { n with observers := { n.observers with delivered := [] } })

def timingCellNamed? (n : Network) (name : String) : Option TimingCellRef :=
  (n.timingLibraries.find? fun e => (e.2.cell? name).isSome).map fun e => ⟨e.1, name⟩

def timingCell? (n : Network) (ref : TimingCellRef) : Option TimingCell :=
  (n.timingLibrary? ref.library).bind fun l => l.cell? ref.cell

def timingPort? (n : Network) (ref : TimingPortRef) : Option PortDirection :=
  (n.timingCell? ⟨ref.library, ref.cell⟩).bind fun c => c.port? ref.port

def timingPortNamed? (n : Network) (ref : TimingCellRef) (name : String) : Option TimingPortRef :=
  (n.timingPort? ⟨ref.library, ref.cell, name⟩).map fun _ => ⟨ref.library, ref.cell, name⟩

/-- Whether a bus of a cell lists its highest index first, which it does unless a property of the
design says otherwise. -/
def msbFirst (n : Network) (bus cell : String) : Bool :=
  (n.design?.bind fun d => d.flag? s!"bus_msb_first {bus} {cell}").getD true

end Network
end DesignView
