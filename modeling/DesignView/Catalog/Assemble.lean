import DesignView.Catalog.Basic

/-!
Building and taking apart the catalog. Numbers are never handed out twice; a library is removed with
its cells, their ports, and all that refers to them.
-/

namespace DesignView.Catalog

def addLibrary (c : Catalog) (name : String) (source : LibrarySource) : LibraryId × Catalog :=
  let id := ⟨c.count + 1⟩
  (id, { c with count := c.count + 1, libraries := c.libraries.insert id ⟨name, source⟩ })

def addCell (c : Catalog) (library : LibraryId) (name : String) (source : CellSource) :
    CellId × Catalog :=
  let id := ⟨c.count + 1⟩
  (id, { c with count := c.count + 1, cells := c.cells.insert id { name, library, source } })

def addPort (c : Catalog) (cell : CellId) (name : String) (source : PortSource)
    (direction : PortDirection) : PortId × Catalog :=
  let id := ⟨c.count + 1⟩
  (id, { c with
    count := c.count + 1
    ports := c.ports.insert id { name, cell, source, direction }
    cells := c.cells.modify cell fun x => { x with ports := x.ports ++ [id] }
    boundaryPorts :=
      match source with
      | .moduleBoundary b => c.boundaryPorts.insert b id
      | _ => c.boundaryPorts })

/-- Puts `group` where the first of `members` stands, and takes `members` out. -/
def regroup (ports members : List PortId) (group : PortId) : List PortId :=
  ports.takeWhile (· ∉ members) ++ group :: (ports.dropWhile (· ∉ members)).filter (· ∉ members)

def commonDirection (c : Catalog) (members : List PortId) : PortDirection :=
  .common (members.filterMap fun id => (c.port? id).map (·.direction))

def addGroup (c : Catalog) (cell : CellId) (name : String) (shape : PortShape) : PortId × Catalog :=
  let id := ⟨c.count + 1⟩
  let direction := c.commonDirection shape.members
  (id, { c with
    count := c.count + 1
    ports := c.ports.insert id { name, cell, source := .group, direction, shape }
    cells := c.cells.modify cell fun x => { x with ports := regroup x.ports shape.members id } })

def setShape (c : Catalog) (port : PortId) (shape : PortShape) : Catalog :=
  { c with ports := c.ports.modify port fun p => { p with shape } }

def setDirection (c : Catalog) (port : PortId) (direction : PortDirection) : Catalog :=
  { c with ports := c.ports.modify port fun p => { p with direction } }

def setCellTiming (c : Catalog) (cell : CellId) (timing : TimingCellRef) : Catalog :=
  { c with cells := c.cells.modify cell fun x => { x with timing := some timing } }

def setPortTiming (c : Catalog) (port : PortId) (timing : TimingPortRef) : Catalog :=
  { c with ports := c.ports.modify port fun p => { p with timing := some timing } }

def recordTimingMaster (c : Catalog) (library : TimingId) (cell : String) (master : MasterId) :
    Catalog :=
  { c with timingMasters := c.timingMasters.insert (library, cell) master }

def recordBoundary (c : Catalog) (module : ModuleId) (name : String) (id : ModBTermId) : Catalog :=
  { c with boundaries := c.boundaries.insert (module, name) id }

def clearBoundaries (c : Catalog) : Catalog := { c with boundaries := {} }

/-- Forgets a module boundary terminal that is being deleted; its port stays. -/
def forgetBoundary (c : Catalog) (id : ModBTermId) : Catalog :=
  { c with
    boundaries := c.boundaries.filter fun _ b => b ≠ id
    boundaryPorts := c.boundaryPorts.erase id }

def removeLibrary (c : Catalog) (id : LibraryId) : Catalog :=
  let gone (x : CellId) : Bool := (c.cells.find? x).any fun y => y.library = id
  let goneMaster (m : MasterId) : Bool :=
    (c.cellsOf id).any fun e => e.2.source = .physical m
  let gonePort (p : PortId) : Bool := (c.ports.find? p).any fun q => gone q.cell
  { c with
    libraries := c.libraries.erase id
    cells := c.cells.filter fun _ x => x.library ≠ id
    ports := c.ports.filter fun _ p => !gone p.cell
    boundaryPorts := c.boundaryPorts.filter fun _ p => !gonePort p
    timingMasters := c.timingMasters.filter fun _ m => !goneMaster m }

end DesignView.Catalog
