import DesignView.Network.Load
import DesignView.Network.Wire

/-!
Making, deleting and replacing what a network is made of. A request that the database refuses
leaves a warning in the journal and changes nothing else.
-/

namespace DesignView.Network

def makeInstance (n : Network) (ref : TimingCellRef) (name : String) (parent : Instance) :
    Option Instance × Network :=
  if !parent.isTop then
    (none, n.warn s!"leaf instance `{name}` can only be made under the top instance")
  else
    match n.catalog.timingMaster? ref.library ref.cell with
    | none => (none, n.warn ("no physical master for timing cell `" ++ ref.cell ++ "`"))
    | some master =>
      match n.db.createInst master name none with
      | .ok (id, db) => (some (.flat id), { n with db })
      | .error refusal => (none, n.warn refusal.message)

def addTerminals (n : Network) (modInst : ModInstId) (names : List String) :
    Except Fault Network :=
  names.foldlM (fun n name => do
    match (← n.design).createModITerm modInst name with
    | .ok (_, d) => return n.withDesign d
    | .error refusal => return n.warn refusal.message) n

def makeModuleInstance (n : Network) (cell : CellId) (name : String) (parent : Instance) :
    Except Fault (Option Instance × Network) := do
  if !n.hierarchy then
    return (none, n.warn s!"module instance `{name}` requires hierarchy")
  match (← n.catalog.cell cell).source with
  | .physical _ | .design => return (none, n.warn (cell.text ++ " is not a module cell"))
  | .module module =>
    let d ← n.design
    let within? ←
      match parent with
      | .top => pure (some d.topModule)
      | .module id => do pure (some (← d.modInst id).master)
      | .flat _ => pure none
    match within? with
    | none => return (none, n)
    | some within =>
      match d.createModInst within module name with
      | .error refusal => return (none, n.warn refusal.message)
      | .ok (id, d) =>
        let names := (d.modBTermsOf module).map fun e => e.2.name
        return (some (.module id), ← (n.withDesign d).addTerminals id names)

def settle (n : Network) (outcome : Except Refusal Design) : Network :=
  match outcome with
  | .ok d => n.withDesign d
  | .error refusal => n.warn refusal.message

def deleteInstance (n : Network) (i : Instance) : Except Fault Network :=
  match i with
  | .top => return n.warn "the top instance cannot be deleted"
  | .flat id => do
    let d ← n.design
    let _ ← d.inst id
    let n ← ((d.itermsOf id).map fun e => Pin.flat e.1).foldlM beforeDetach n
    return n.settle (d.destroyInst id)
  | .module id => do
    let d ← n.design
    let _ ← d.modInst id
    let n ← ((d.modITermsOf id).map fun e => Pin.module e.1).foldlM beforeDetach n
    return n.settle (d.destroyModInst id)

def makeNet (n : Network) (name : String) (parent : Instance) :
    Except Fault (Option Net × Network) := do
  let d ← n.design
  match parent with
  | .top =>
    match d.createNet name with
    | .ok (id, d) => return (some (.flat id), n.withDesign d)
    | .error refusal => return (none, n.warn refusal.message)
  | .module id =>
    match d.createModNet (← d.modInst id).master name with
    | .ok (id, d) => return (some (.module id), n.withDesign d)
    | .error refusal => return (none, n.warn refusal.message)
  | .flat _ => return (none, n)

def deleteNet (n : Network) (net : Net) : Except Fault Network := do
  let n ← n.beforeDelete net
  let d ← n.design
  match net with
  | .flat id => return { n with constants := n.constants.erase id }.settle (d.destroyNet id)
  | .module id => return n.settle (d.destroyModNet id)

/-- Deletes a pin. A leaf pin goes only with its instance. The port of a deleted boundary terminal
stays until the design is loaded again. -/
def deletePin (n : Network) (p : Pin) : Except Fault Network :=
  match p with
  | .flat _ => throw (.unsupported .deleteLeafTerminal)
  | .boundary id => do
    let n ← n.beforeDetach p
    return n.settle ((← n.design).destroyBTerm id)
  | .module id => do
    let n ← n.beforeDetach p
    return n.settle ((← n.design).destroyModITerm id)
  | .moduleBoundary id => do
    let n ← n.beforeDetach p
    let n := { n with catalog := n.catalog.forgetBoundary id }
    return n.settle ((← n.design).destroyModBTerm id)

/-- Replaces the cell of a leaf instance by a physical cell with terminals of the same names; its
connections stay. -/
def replaceCell (n : Network) (i : Instance) (cell : CellId) :
    Except Fault (Except Refusal Unit × Network) :=
  match i with
  | .top | .module _ => throw (.unsupported .replaceNonLeaf)
  | .flat id => do
    match (← n.catalog.cell cell).source with
    | .module _ | .design => throw (.unsupported .replaceByNonPhysical)
    | .physical master =>
      let d ← n.design
      let _ ← d.inst id
      let pins := (d.itermsOf id).map fun e => Pin.flat e.1
      let n ← pins.foldlM beforeDetach n
      match n.db.swapMaster id master with
      | .ok db => return (.ok (), ← pins.foldlM afterAttach { n with db })
      | .error refusal => return (.error refusal, ← pins.foldlM afterAttach n)

def makeBundle (n : Network) (cell : CellId) (name : String) (members : List PortId) :
    Except Fault (Option PortId × Network) := do
  let (id, catalog) ← n.catalog.bundle cell name members
  return (id, { n with catalog })

/-- Nets cannot be merged. -/
def mergeNets (_ : Network) (_from _into : Net) : Except Fault Unit :=
  .error (.unsupported .mergeNets)

def mergeTarget (_ : Network) (_net : Net) : Except Fault (Option Net) :=
  .error (.unsupported .mergeTarget)

end DesignView.Network
