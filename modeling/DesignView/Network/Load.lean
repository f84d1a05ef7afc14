import DesignView.Network.Drive

/-!
Loading. Physical libraries, timing libraries and the design are turned into the catalog, one
after the other or all at once; observers are told of each. A cell is linked to the first loaded
timing library that has a cell of its name.
-/

namespace DesignView.Network

def groupCell (n : Network) (cell : CellId) (name : String) : Network :=
  let (catalog, repeated) := n.catalog.groupBuses cell fun bus => n.msbFirst bus name
  let n := { n with catalog }
  n.reportAll (repeated.filterMap fun id => (catalog.port? id).map fun p =>
    .duplicateBusBit name p.name)

def linkCell? (n : Network) (cell : CellId) (id : TimingId) : Option Network := do
  let library ← n.timingLibrary? id
  let x ← n.catalog.cells.find? cell
  let timing ← library.cell? x.name
  let (catalog, mismatches) := n.catalog.link cell id library.name timing
  return { n with catalog }.reportAll mismatches

def linkFirst (n : Network) (cell : CellId) : List TimingId → Network
  | [] => n
  | id :: rest => (n.linkCell? cell id).getD (n.linkFirst cell rest)

def recordMaster (n : Network) (master : MasterId) (name : String) : Network :=
  n.timingLibraries.foldl (fun n e =>
    if (e.2.cell? name).isSome then
      { n with catalog := n.catalog.recordTimingMaster e.1 name master }
    else n) n

def loadMaster (n : Network) (library : LibraryId) (id : MasterId) (master : Master) : Network :=
  let (cell, catalog) := n.catalog.addCell library master.name (.physical id)
  let catalog := (n.db.mtermsOf id).foldl (fun c e =>
    (c.addPort cell e.2.name (.physical e.1) (.ofTypes e.2.sig e.2.io)).2) catalog
  let n := { n with catalog }.groupCell cell master.name
  let n := n.recordMaster id master.name
  n.linkFirst cell (n.timingLibraries.map (·.1))

def loadLibrary (n : Network) (id : LibId) : Except Fault (LibraryId × Network) := do
  let lib ← n.db.lib id
  let catalog :=
    match n.catalog.libraryOf? id with
    | some old => n.catalog.removeLibrary old
    | none => n.catalog
  let (library, catalog) := catalog.addLibrary lib.name (.physical id)
  let n := (n.db.mastersOf id).foldl (fun n e => n.loadMaster library e.1 e.2) { n with catalog }
  return (library, n.forgetDrivers.notify (.library library lib.name))

def recordTimingMasters (n : Network) (id : TimingId) : Network :=
  match n.timingLibrary? id with
  | none => n
  | some library =>
    let physical := n.catalog.libraries.entries.filter fun e =>
      match e.2.source with
      | .physical _ => true
      | _ => false
    let catalog := (physical.flatMap fun e => n.catalog.cellsOf e.1).foldl (fun c e =>
      match e.2.source with
      | .physical master =>
        if (library.cell? e.2.name).isSome then c.recordTimingMaster id e.2.name master else c
      | _ => c) n.catalog
    { n with catalog }

/-- Links a loaded timing library to every cell that is not linked yet. -/
def relinkTiming (n : Network) (id : TimingId) : Network :=
  match n.timingLibrary? id with
  | none => n.warn s!"no {id.text} is loaded"
  | some library =>
    let unlinked := (n.catalog.allCells.filter fun e => e.2.timing.isNone).map (·.1)
    let (n, linked) := unlinked.foldl (fun (n, linked) cell =>
      match n.linkCell? cell id with
      | some n => (n, true)
      | none => (n, linked)) (n, false)
    let n := n.recordTimingMasters id
    let n := if linked then n.forgetDrivers else n
    n.notify (.timingLibrary id library.name)

def loadTiming (n : Network) (library : TimingLibrary) : TimingId × Network :=
  let id := ⟨n.timing.length⟩
  (id, { n with timing := n.timing ++ [library] }.relinkTiming id)

def loadTopCell (n : Network) (d : Design) : Network :=
  let catalog :=
    match n.catalog.topLibrary? with
    | some old => n.catalog.removeLibrary old
    | none => n.catalog
  let (library, catalog) := catalog.addLibrary d.name .design
  let (cell, catalog) := catalog.addCell library d.name .design
  let catalog := d.bterms.entries.foldl (fun c e =>
    (c.addPort cell e.2.name .design (.ofTypes e.2.sig e.2.io)).2) catalog
  { n with catalog }.groupCell cell d.name

def addModuleCell (c : Catalog) (library : LibraryId) (d : Design) (id : ModuleId) (name : String) :
    CellId × Catalog :=
  let (cell, c) := c.addCell library name (.module id)
  (cell, (d.modBTermsOf id).foldl (fun c e =>
    (c.addPort cell e.2.name (.moduleBoundary e.1) (.ofTypes e.2.sig e.2.io)).2) c)

def loadModuleCells (n : Network) (d : Design) : Except Fault Network := do
  let (library, catalog) := n.catalog.addLibrary n.settings.moduleLibrary .modules
  let (catalog, added) ← d.modInsts.entries.foldlM (fun (c, added) e => do
    if (c.cellOfModule? e.2.master).isSome then return (c, added)
    let name := (← d.module e.2.master).name
    let (cell, c) := addModuleCell c library d e.2.master name
    return (c, added ++ [(cell, name)])) (catalog, ([] : List (CellId × String)))
  return added.foldl (fun n e => n.groupCell e.1 e.2) { n with catalog }

def indexBoundaries (n : Network) (d : Design) : Network :=
  let terminals := d.modules.ids.flatMap fun m => (d.modBTermsOf m).map fun e => (m, e)
  { n with
    catalog := terminals.foldl (fun c (m, e) => c.recordBoundary m e.2.name e.1)
      n.catalog.clearBoundaries }

def constantFor? : SigType → Option LogicValue
  | .power => some .one
  | .ground => some .zero
  | _ => none

def findConstants (n : Network) (d : Design) : Network :=
  { n with
    constants := ⟨d.nets.entries.filterMap fun e => (constantFor? e.2.sig).map fun v => (e.1, v)⟩ }

def loadDesign (n : Network) : Except Fault Network := do
  let d ← n.design
  let n := n.loadTopCell d
  let n :=
    match n.catalog.moduleLibrary? with
    | some old => { n with catalog := n.catalog.removeLibrary old }
    | none => n
  let n ← if n.hierarchy then n.loadModuleCells d else pure n
  let n := ((n.indexBoundaries d).findConstants d).forgetDrivers
  let n := { n with generation := n.generation + 1, designLoaded := true }
  return n.notify (.design d.name n.generation)

def reset (n : Network) (db : Database) : Network :=
  { n with
    db
    catalog := {}
    issues := n.issues.clear
    constants := {}
    drivers := {}
    designLoaded := false }

/-- Takes a database and builds everything over it: each physical library, and the design if there
is one. -/
def loadDatabase (n : Network) (db : Database) : Except Fault Network := do
  let n ← db.libs.ids.foldlM (fun n lib => return (← n.loadLibrary lib).2) (n.reset db)
  let n := (n.timingLibraries.map (·.1)).foldl recordTimingMasters n
  if db.design?.isSome then n.loadDesign else return n

def reload (n : Network) : Except Fault Network :=
  if n.design?.isSome then n.loadDesign
  else return n.warn "reload requested with no design block"

/-- Forgets everything but the settings, the observers and the number of design loads. -/
def teardown (n : Network) : Network :=
  { n.reset {} with timing := [] }.notify .teardown

end DesignView.Network
