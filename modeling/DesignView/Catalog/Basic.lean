import DesignView.Container.OrderedMap
import DesignView.Fault

/-!
The catalog: the libraries, cells and ports that a network shows for its physical masters, its
modules and its design. A cell names its library and a port its cell; what a library or a cell
owns, and which cell or port stands for a native object, are views of the tables.
-/

namespace DesignView

inductive LibrarySource where
  | physical (lib : LibId)
  | modules
  | design
  deriving DecidableEq

inductive CellSource where
  | physical (master : MasterId)
  | module (module : ModuleId)
  | design
  deriving DecidableEq

inductive PortSource where
  | physical (mterm : MTermId)
  | moduleBoundary (modBTerm : ModBTermId)
  | design
  | group
  deriving DecidableEq

/-- The shape of a port. A bus lists its bits in order, `first` and `last` being the indices of the
outer ones; a bundle groups ports without an order of their own. -/
inductive PortShape where
  | scalar
  | bus (first last : Nat) (members : List PortId)
  | busBit (bus : PortId) (index : Nat)
  | bundle (members : List PortId)
  deriving DecidableEq

def PortShape.members : PortShape → List PortId
  | bus _ _ members | bundle members => members
  | scalar | busBit _ _ => []

def PortShape.isBus : PortShape → Bool
  | bus .. => true
  | _ => false

structure TimingCellRef where
  library : TimingId
  cell : String

structure TimingPortRef where
  library : TimingId
  cell : String
  port : String

structure Library where
  name : String
  source : LibrarySource

structure Cell where
  name : String
  library : LibraryId
  source : CellSource
  ports : List PortId := []
  timing : Option TimingCellRef := none

structure Port where
  name : String
  cell : CellId
  source : PortSource
  direction : PortDirection
  shape : PortShape := .scalar
  timing : Option TimingPortRef := none

def Cell.isLeaf (c : Cell) : Bool :=
  match c.source with
  | .physical _ => true
  | _ => false

structure Catalog where
  count : Nat := 0
  libraries : OrderedMap LibraryId Library := {}
  cells : OrderedMap CellId Cell := {}
  ports : OrderedMap PortId Port := {}
  boundaryPorts : OrderedMap ModBTermId PortId := {}
  /-- The boundary terminals of the modules by name, as found when the design was loaded. -/
  boundaries : OrderedMap (ModuleId × String) ModBTermId := {}
  timingMasters : OrderedMap (TimingId × String) MasterId := {}

namespace Catalog

def library (c : Catalog) (id : LibraryId) : Except Fault Library :=
  match c.libraries.find? id with
  | some l => .ok l
  | none => .error (.noLibrary id)

def cell (c : Catalog) (id : CellId) : Except Fault Cell :=
  match c.cells.find? id with
  | some x => .ok x
  | none => .error (.noCell id)

def port (c : Catalog) (id : PortId) : Except Fault Port :=
  match c.ports.find? id with
  | some p => .ok p
  | none => .error (.noPort id)

def port? (c : Catalog) (id : PortId) : Option Port := c.ports.find? id

def cellsOf (c : Catalog) (id : LibraryId) : List (CellId × Cell) :=
  c.cells.entries.filter fun e => e.2.library = id

def portsOf (c : Catalog) (id : CellId) : List (PortId × Port) :=
  c.ports.entries.filter fun e => e.2.cell = id

def topPorts (c : Catalog) (id : CellId) : List PortId :=
  match c.cells.find? id with
  | some x => x.ports
  | none => []

def allCells (c : Catalog) : List (CellId × Cell) := c.libraries.keys.flatMap c.cellsOf

def libraryNamed? (c : Catalog) (name : String) : Option LibraryId :=
  c.libraries.firstKey? fun l => l.name = name

def cellIn? (c : Catalog) (library : LibraryId) (name : String) : Option CellId :=
  c.cells.firstKey? fun x => x.library = library && x.name = name

def cellNamed? (c : Catalog) (name : String) : Option CellId :=
  c.libraries.keys.findSome? fun library => c.cellIn? library name

/-- The port of a cell by name, be it a group or a member of one. -/
def portNamed? (c : Catalog) (cell : CellId) (name : String) : Option PortId :=
  c.ports.firstKey? fun p => p.cell = cell && p.name = name

def libraryOf? (c : Catalog) (lib : LibId) : Option LibraryId :=
  c.libraries.firstKey? fun l => l.source = .physical lib

def moduleLibrary? (c : Catalog) : Option LibraryId :=
  c.libraries.firstKey? fun l => l.source = .modules

def topLibrary? (c : Catalog) : Option LibraryId :=
  c.libraries.firstKey? fun l => l.source = .design

def topCell? (c : Catalog) : Option CellId := c.cells.firstKey? fun x => x.source = .design

def cellOfMaster? (c : Catalog) (master : MasterId) : Option CellId :=
  c.cells.firstKey? fun x => x.source = .physical master

def cellOfModule? (c : Catalog) (module : ModuleId) : Option CellId :=
  c.cells.firstKey? fun x => x.source = .module module

def portOfMTerm? (c : Catalog) (mterm : MTermId) : Option PortId :=
  c.ports.firstKey? fun p => p.source = .physical mterm

def portOfModBTerm? (c : Catalog) (id : ModBTermId) : Option PortId := c.boundaryPorts.find? id

def boundary? (c : Catalog) (module : ModuleId) (name : String) : Option ModBTermId :=
  c.boundaries.find? (module, name)

def timingMaster? (c : Catalog) (library : TimingId) (cell : String) : Option MasterId :=
  c.timingMasters.find? (library, cell)

def expand (c : Catalog) : Nat → PortId → List PortId
  | 0, id => [id]
  | depth + 1, id =>
    match c.ports.find? id with
    | none => []
    | some p => if p.shape.members = [] then [id] else p.shape.members.flatMap (c.expand depth)

/-- The scalar and bit ports of a cell, every group replaced by its members. Groups cannot nest
deeper than there are ports. -/
def bitsOf (c : Catalog) (cell : CellId) : List PortId :=
  (c.topPorts cell).flatMap (c.expand (c.ports.size + 1))

def portBits (c : Catalog) (cell : CellId) : Except Fault (List PortId) := do
  let _ ← c.cell cell
  return c.bitsOf cell

end Catalog
end DesignView
