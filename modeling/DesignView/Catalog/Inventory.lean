import DesignView.Catalog.Assemble

/-!
The catalog as it is stored. Besides its name, a library keeps the cells in it by name and a cell
its ports by name, and for every native object a table of its own tells which library, cell or port
stands for it. All of these are written by hand with each change; nothing is read off anything else.
Only proofs use the inventory: they show that it always holds what the catalog reads off its tables.
-/

namespace DesignView

structure Inventory.StoredLibrary where
  name : String
  source : LibrarySource
  cells : OrderedMap String CellId := {}

structure Inventory.StoredCell where
  name : String
  library : LibraryId
  source : CellSource
  ports : List PortId := []
  portNames : OrderedMap String PortId := {}
  timing : Option TimingCellRef := none

structure Inventory where
  count : Nat := 0
  libraries : OrderedMap LibraryId Inventory.StoredLibrary := {}
  cells : OrderedMap CellId Inventory.StoredCell := {}
  ports : OrderedMap PortId Port := {}
  physicalLibraries : OrderedMap LibId LibraryId := {}
  masterCells : OrderedMap MasterId CellId := {}
  moduleCells : OrderedMap ModuleId CellId := {}
  mtermPorts : OrderedMap MTermId PortId := {}
  boundaryPorts : OrderedMap ModBTermId PortId := {}
  boundaries : OrderedMap ModuleId (OrderedMap String ModBTermId) := {}
  timingMasters : OrderedMap (TimingId × String) MasterId := {}
  moduleLibrary? : Option LibraryId := none
  topLibrary? : Option LibraryId := none
  topCell? : Option CellId := none

namespace Inventory

def cellIn? (s : Inventory) (library : LibraryId) (name : String) : Option CellId :=
  (s.libraries.find? library).bind fun l => l.cells.find? name

def portNamed? (s : Inventory) (cell : CellId) (name : String) : Option PortId :=
  (s.cells.find? cell).bind fun x => x.portNames.find? name

def boundary? (s : Inventory) (module : ModuleId) (name : String) : Option ModBTermId :=
  (s.boundaries.find? module).bind fun names => names.find? name

def libraryFor? (s : Inventory) : LibrarySource → Option LibraryId
  | .physical lib => s.physicalLibraries.find? lib
  | .modules => s.moduleLibrary?
  | .design => s.topLibrary?

def cellFor? (s : Inventory) : CellSource → Option CellId
  | .physical master => s.masterCells.find? master
  | .module module => s.moduleCells.find? module
  | .design => s.topCell?

def addLibrary (s : Inventory) (name : String) (source : LibrarySource) : Inventory :=
  let id := ⟨s.count + 1⟩
  let s := { s with
    count := s.count + 1
    libraries := s.libraries.insert id { name, source } }
  match source with
  | .physical lib => { s with physicalLibraries := s.physicalLibraries.insert lib id }
  | .modules => { s with moduleLibrary? := some id }
  | .design => { s with topLibrary? := some id }

def addCell (s : Inventory) (library : LibraryId) (name : String) (source : CellSource) :
    Inventory :=
  let id := ⟨s.count + 1⟩
  let s := { s with
    count := s.count + 1
    cells := s.cells.insert id { name, library, source }
    libraries := s.libraries.modify library fun l => { l with cells := l.cells.insert name id } }
  match source with
  | .physical master => { s with masterCells := s.masterCells.insert master id }
  | .module module => { s with moduleCells := s.moduleCells.insert module id }
  | .design => { s with topCell? := some id }

def addPort (s : Inventory) (cell : CellId) (name : String) (source : PortSource)
    (direction : PortDirection) : Inventory :=
  let id := ⟨s.count + 1⟩
  let s := { s with
    count := s.count + 1
    ports := s.ports.insert id { name, cell, source, direction }
    cells := s.cells.modify cell fun x =>
      { x with ports := x.ports ++ [id], portNames := x.portNames.insert name id } }
  match source with
  | .physical mterm => { s with mtermPorts := s.mtermPorts.insert mterm id }
  | .moduleBoundary b => { s with boundaryPorts := s.boundaryPorts.insert b id }
  | .design | .group => s

def place (ports members : List PortId) : Nat := ports.findIdx (· ∈ members)

def addGroup (s : Inventory) (cell : CellId) (name : String) (shape : PortShape) : Inventory :=
  let id := ⟨s.count + 1⟩
  let members := shape.members
  let direction := .common (members.filterMap fun p => (s.ports.find? p).map (·.direction))
  { s with
    count := s.count + 1
    ports := s.ports.insert id { name, cell, source := .group, direction, shape }
    cells := s.cells.modify cell fun x => { x with
      ports := (x.ports.filter (· ∉ members)).insertIdx (place x.ports members) id
      portNames := x.portNames.insert name id } }

def setShape (s : Inventory) (port : PortId) (shape : PortShape) : Inventory :=
  { s with ports := s.ports.modify port fun p => { p with shape } }

def setDirection (s : Inventory) (port : PortId) (direction : PortDirection) : Inventory :=
  { s with ports := s.ports.modify port fun p => { p with direction } }

def setCellTiming (s : Inventory) (cell : CellId) (timing : TimingCellRef) : Inventory :=
  { s with cells := s.cells.modify cell fun x => { x with timing := some timing } }

def setPortTiming (s : Inventory) (port : PortId) (timing : TimingPortRef) : Inventory :=
  { s with ports := s.ports.modify port fun p => { p with timing := some timing } }

def recordTimingMaster (s : Inventory) (library : TimingId) (cell : String) (master : MasterId) :
    Inventory :=
  { s with timingMasters := s.timingMasters.insert (library, cell) master }

def recordBoundary (s : Inventory) (module : ModuleId) (name : String) (id : ModBTermId) :
    Inventory :=
  let names := (s.boundaries.find? module).getD {}
  { s with boundaries := s.boundaries.insert module (names.insert name id) }

def clearBoundaries (s : Inventory) : Inventory := { s with boundaries := {} }

def forgetBoundary (s : Inventory) (id : ModBTermId) : Inventory :=
  { s with
    boundaries := ⟨s.boundaries.entries.map fun e => (e.1, e.2.filter fun _ b => b ≠ id)⟩
    boundaryPorts := s.boundaryPorts.erase id }

def removePort (s : Inventory) (id : PortId) : Inventory :=
  match s.ports.find? id with
  | none => s
  | some p =>
    let s := { s with ports := s.ports.erase id }
    match p.source with
    | .physical mterm => { s with mtermPorts := s.mtermPorts.erase mterm }
    | .moduleBoundary b => { s with boundaryPorts := s.boundaryPorts.erase b }
    | .design | .group => s

def forgetCell (s : Inventory) (id : CellId) (source : CellSource) : Inventory :=
  match source with
  | .physical master => { s with
      masterCells := s.masterCells.erase master
      timingMasters := s.timingMasters.filter fun _ m => m ≠ master }
  | .module module => { s with moduleCells := s.moduleCells.erase module }
  | .design => if s.topCell? = some id then { s with topCell? := none } else s

def removeCell (s : Inventory) (id : CellId) : Inventory :=
  match s.cells.find? id with
  | none => s
  | some x =>
    (x.portNames.values.foldl removePort { s with cells := s.cells.erase id }).forgetCell id
      x.source

def forgetLibrary (s : Inventory) (id : LibraryId) (source : LibrarySource) : Inventory :=
  match source with
  | .physical lib => { s with physicalLibraries := s.physicalLibraries.erase lib }
  | .modules => if s.moduleLibrary? = some id then { s with moduleLibrary? := none } else s
  | .design => if s.topLibrary? = some id then { s with topLibrary? := none } else s

def removeLibrary (s : Inventory) (id : LibraryId) : Inventory :=
  match s.libraries.find? id with
  | none => s
  | some l =>
    (l.cells.values.foldl removeCell { s with libraries := s.libraries.erase id }).forgetLibrary id
      l.source

end Inventory

/-- A call that changes the store, with its arguments. -/
inductive Inventory.Call where
  | addLibrary (name : String) (source : LibrarySource)
  | addCell (library : LibraryId) (name : String) (source : CellSource)
  | addPort (cell : CellId) (name : String) (source : PortSource) (direction : PortDirection)
  | addGroup (cell : CellId) (name : String) (shape : PortShape)
  | setShape (port : PortId) (shape : PortShape)
  | setDirection (port : PortId) (direction : PortDirection)
  | setCellTiming (cell : CellId) (timing : TimingCellRef)
  | setPortTiming (port : PortId) (timing : TimingPortRef)
  | recordTimingMaster (library : TimingId) (cell : String) (master : MasterId)
  | recordBoundary (module : ModuleId) (name : String) (id : ModBTermId)
  | clearBoundaries
  | forgetBoundary (id : ModBTermId)
  | removeLibrary (id : LibraryId)

def Inventory.call (s : Inventory) : Inventory.Call → Inventory
  | .addLibrary name source => s.addLibrary name source
  | .addCell library name source => s.addCell library name source
  | .addPort cell name source direction => s.addPort cell name source direction
  | .addGroup cell name shape => s.addGroup cell name shape
  | .setShape port shape => s.setShape port shape
  | .setDirection port direction => s.setDirection port direction
  | .setCellTiming cell timing => s.setCellTiming cell timing
  | .setPortTiming port timing => s.setPortTiming port timing
  | .recordTimingMaster library cell master => s.recordTimingMaster library cell master
  | .recordBoundary module name id => s.recordBoundary module name id
  | .clearBoundaries => s.clearBoundaries
  | .forgetBoundary id => s.forgetBoundary id
  | .removeLibrary id => s.removeLibrary id

def Catalog.call (c : Catalog) : Inventory.Call → Catalog
  | .addLibrary name source => (c.addLibrary name source).2
  | .addCell library name source => (c.addCell library name source).2
  | .addPort cell name source direction => (c.addPort cell name source direction).2
  | .addGroup cell name shape => (c.addGroup cell name shape).2
  | .setShape port shape => c.setShape port shape
  | .setDirection port direction => c.setDirection port direction
  | .setCellTiming cell timing => c.setCellTiming cell timing
  | .setPortTiming port timing => c.setPortTiming port timing
  | .recordTimingMaster library cell master => c.recordTimingMaster library cell master
  | .recordBoundary module name id => c.recordBoundary module name id
  | .clearBoundaries => c.clearBoundaries
  | .forgetBoundary id => c.forgetBoundary id
  | .removeLibrary id => c.removeLibrary id

def Inventory.after (calls : List Inventory.Call) : Inventory := calls.foldl Inventory.call {}

def Catalog.after (calls : List Inventory.Call) : Catalog := calls.foldl Catalog.call {}

end DesignView
