import DesignView.Network.Basic
import DesignView.Text.Glob

/-!
Navigation: from instances to their children, pins and nets and back, by handle, by name and by
path. Without the hierarchy every leaf instance is a child of the top; with it, the children of an
instance are what its module holds. Where there is no design, a question about many things has no
answers and a question about one of them is a fault.
-/

namespace DesignView

def keepM {α : Type} (p : α → Except Fault Bool) : List α → Except Fault (List α)
  | [] => .ok []
  | x :: xs => do
    let kept ← p x
    let rest ← keepM p xs
    return if kept then x :: rest else rest

def Design.insideOf (d : Design) (id : ModuleId) : Instance :=
  match d.instanceOf? id with
  | some i => .module i
  | none => .top

def Design.childrenIn (d : Design) (id : ModuleId) : List Instance :=
  (d.modInstsIn id).map .module ++ (d.instsIn id).map .flat

namespace Network

def requireHierarchy (n : Network) (id : ModInstId) : Except Fault Unit :=
  if n.hierarchy then .ok () else .error (.hierarchyDisabled id.object)

def children (n : Network) (i : Instance) : Except Fault (List Instance) :=
  match n.design? with
  | none => return []
  | some d =>
    match i with
    | .top =>
      return if n.hierarchy then d.childrenIn d.topModule else d.insts.ids.map .flat
    | .flat _ => return []
    | .module id => do
      n.requireHierarchy id
      return d.childrenIn (← d.modInst id).master

def parent (n : Network) (i : Instance) : Except Fault (Option Instance) :=
  match i with
  | .top => return none
  | .flat id => do
    if n.hierarchy then
      let d ← n.design
      return some (d.insideOf (← d.inst id).module)
    else return some .top
  | .module id => do
    let d ← n.design
    return some (d.insideOf (← d.modInst id).parent)

def cellOf (n : Network) (i : Instance) : Except Fault (Option CellId) :=
  match i with
  | .top => return n.catalog.topCell?
  | .flat id => do return n.catalog.cellOfMaster? (← (← n.design).inst id).master
  | .module id => do return n.catalog.cellOfModule? (← (← n.design).modInst id).master

def nameOf (n : Network) (i : Instance) : Except Fault String := do
  let d ← n.design
  match i with
  | .top => return d.name
  | .flat id => return (← d.inst id).name
  | .module id => return (← d.modInst id).name

def pathOf (n : Network) (i : Instance) : Except Fault String :=
  match i with
  | .top => return ""
  | .flat id => do return (← (← n.design).inst id).name
  | .module id => do (← n.design).modInstPath id n.settings.divider

/-- The child of an instance by its local name. A module instance comes before a leaf; a leaf below
the top is named by its whole path and has to be in the module of the parent. -/
def childNamed? (n : Network) (parent : Instance) (name : String) :
    Except Fault (Option Instance) :=
  match n.design? with
  | none => return none
  | some d =>
    match parent with
    | .top =>
      let below := if n.hierarchy then d.modInstNamed? d.topModule name else none
      match below with
      | some id => return some (.module id)
      | none => return (d.instNamed? name).map .flat
    | .flat _ => return none
    | .module id => do
      n.requireHierarchy id
      let module := (← d.modInst id).master
      match d.modInstNamed? module name with
      | some below => return some (.module below)
      | none =>
        let path := Path.extend n.settings.divider (← d.modInstPath id n.settings.divider) name
        match d.instNamed? path with
        | none => return none
        | some leaf =>
          return if (← d.inst leaf).module = module then some (.flat leaf) else none

def descend? (d : Design) : ModuleId → List String → Option ModInstId
  | _, [] => none
  | module, [name] => d.modInstNamed? module name
  | module, name :: rest =>
    match d.modInstNamed? module name with
    | none => none
    | some id =>
      match d.modInsts.find? id with
      | none => none
      | some i => descend? d i.master rest

/-- The instance with a path: the leaf that has it as its name, or else the end of a chain of module
instances. -/
def instanceAt? (n : Network) (path : String) : Option Instance :=
  match n.design? with
  | none => none
  | some d =>
    match d.instNamed? path with
    | some id => some (.flat id)
    | none =>
      if n.hierarchy then
        (descend? d d.topModule (Path.split n.settings.divider path)).map .module
      else none

def pinNamed? (n : Network) (i : Instance) (port : String) : Except Fault (Option Pin) :=
  match n.design? with
  | none => return none
  | some d =>
    match i with
    | .top => return (d.btermNamed? port).map .boundary
    | .flat id => do return (← d.itermOf id port).map .flat
    | .module id => do return (← d.modITermOf id port).map .module

def pinForPort? (n : Network) (i : Instance) (port : PortId) : Except Fault (Option Pin) :=
  match n.catalog.port? port with
  | none => return none
  | some p => n.pinNamed? i p.name

def netNamed? (n : Network) (i : Instance) (name : String) : Except Fault (Option Net) :=
  match n.design? with
  | none => return none
  | some d =>
    match i with
    | .top =>
      let local? := if n.hierarchy then d.modNetNamed? d.topModule name else none
      match local? with
      | some id => return some (.module id)
      | none => return (d.netNamed? name).map .flat
    | .flat _ => return none
    | .module id => do
      n.requireHierarchy id
      match d.modNetNamed? (← d.modInst id).master name with
      | some net => return some (.module net)
      | none =>
        let path := Path.extend n.settings.divider (← d.modInstPath id n.settings.divider) name
        return (d.netNamed? path).map .flat

/-- The nets of the top scope whose names a glob pattern covers; other scopes are not searched. -/
def netsMatching (n : Network) (i : Instance) (pattern : String) : List Net :=
  match n.design? with
  | none => []
  | some d =>
    if i.isTop then
      let covers (name : String) : Bool := Glob.isMatch (Glob.ofString pattern) name.toList
      let inModule := if n.hierarchy then d.modNetsIn d.topModule else []
      (inModule.filter fun e => covers e.2.name).map (.module ·.1) ++
        (d.nets.entries.filter fun e => covers e.2.name).map (.flat ·.1)
    else []

def netsOf (n : Network) (i : Instance) : Except Fault (List Net) :=
  match n.design? with
  | none => return []
  | some d =>
    match i with
    | .top =>
      let inModule := if n.hierarchy then d.modNetsIn d.topModule else []
      return inModule.map (.module ·.1) ++ d.nets.ids.map .flat
    | .flat _ => return []
    | .module id => do return (d.modNetsIn (← d.modInst id).master).map (.module ·.1)

def shownNets (n : Network) : List Net :=
  match n.design? with
  | none => []
  | some d =>
    d.nets.ids.map .flat ++ if n.hierarchy then d.modNets.ids.map .module else []

def shownPins (n : Network) : List Pin :=
  match n.design? with
  | none => []
  | some d =>
    (d.insts.ids.flatMap fun i => (d.itermsOf i).map fun e => .flat e.1) ++
      d.bterms.ids.map .boundary ++
      if n.hierarchy then
        (d.modInsts.ids.flatMap fun i => (d.modITermsOf i).map fun e => .module e.1) ++
          d.modules.ids.flatMap fun m => (d.modBTermsOf m).map fun e => .moduleBoundary e.1
      else []

def ownerOf (n : Network) (p : Pin) : Except Fault Instance := do
  let d ← n.design
  match p with
  | .flat id => return .flat (← d.iterm id).inst
  | .boundary _ => return .top
  | .module id => return .module (← d.modITerm id).modInst
  | .moduleBoundary id => return d.insideOf (← d.modBTerm id).module

def innerOf (n : Network) (id : ModITermId) : Except Fault (Option ModBTermId) :=
  match n.design? with
  | none => return none
  | some d => do
    let t ← d.modITerm id
    return n.catalog.boundary? (← d.modInst t.modInst).master t.name

def outerOf (n : Network) (id : ModBTermId) : Except Fault (Option ModITermId) :=
  match n.design? with
  | none => return none
  | some d => do
    let t ← d.modBTerm id
    return (d.instanceOf? t.module).bind fun i => d.modITermNamed? i t.name

def portOf (n : Network) (p : Pin) : Except Fault (Option PortId) :=
  match n.design? with
  | none => return none
  | some d =>
    match p with
    | .flat id => do return n.catalog.portOfMTerm? (← d.iterm id).mterm
    | .boundary id =>
      match n.catalog.topCell? with
      | none => return none
      | some top => do return n.catalog.portNamed? top (← d.bterm id).name
    | .module id => do return (← n.innerOf id).bind n.catalog.portOfModBTerm?
    | .moduleBoundary id => return n.catalog.portOfModBTerm? id

def typesOf (n : Network) (p : Pin) : Except Fault (Option (SigType × IoType)) :=
  match n.design? with
  | none => return none
  | some d =>
    match p with
    | .flat id => n.db.itermTypes? id
    | .boundary id => do
      let t ← d.bterm id
      return some (t.sig, t.io)
    | .module id => do
      match ← n.innerOf id with
      | none => return none
      | some inner =>
        let t ← d.modBTerm inner
        return some (t.sig, t.io)
    | .moduleBoundary id => do
      let t ← d.modBTerm id
      return some (t.sig, t.io)

def isSupply (n : Network) (p : Pin) : Except Fault Bool := do
  return (← n.typesOf p).any fun t => t.1.isSupply

def timedDirection? (n : Network) (p : Pin) : Except Fault (Option PortDirection) :=
  match p with
  | .flat _ => do
    let port? ← n.portOf p
    return ((port?.bind n.catalog.port?).bind Port.timing).bind n.timingPort?
  | _ => return none

/-- The direction of a pin: that of the timing port for a leaf pin that is linked to one, or else
that of the native terminal. -/
def direction (n : Network) (p : Pin) : Except Fault PortDirection := do
  match ← n.timedDirection? p with
  | some direction => return direction
  | none =>
    match ← n.typesOf p with
    | some (sig, io) => return .ofTypes sig io
    | none => return .unknown

def pinsOf (n : Network) (i : Instance) : Except Fault (List Pin) :=
  match n.design? with
  | none => return []
  | some d => do
    let pins ←
      match i with
      | .top => pure (d.bterms.ids.map Pin.boundary)
      | .flat id => do
        let _ ← d.inst id
        pure ((d.itermsOf id).map fun e => Pin.flat e.1)
      | .module id => do
        let _ ← d.modInst id
        pure ((d.modITermsOf id).map fun e => Pin.module e.1)
    keepM (fun p => return !(← n.isSupply p)) pins

/-- The term of a pin; that of a module instance's pin is the terminal inside the module. -/
def termOf (n : Network) (p : Pin) : Except Fault (Option Term) :=
  match p with
  | .flat _ => return none
  | .boundary id => return some (.boundary id)
  | .module id => do return (← n.innerOf id).map .moduleBoundary
  | .moduleBoundary id => return some (.moduleBoundary id)

def pinOfTerm (n : Network) (t : Term) : Except Fault Pin :=
  match t with
  | .boundary id => return .boundary id
  | .moduleBoundary id => do
    match ← n.outerOf id with
    | some outer => return .module outer
    | none => return .moduleBoundary id

def pinName (n : Network) (p : Pin) : Except Fault String := do
  let d ← n.design
  match p with
  | .flat id => return (← d.iterm id).name
  | .boundary id => return (← d.bterm id).name
  | .module id => return (← d.modITerm id).name
  | .moduleBoundary id => return (← d.modBTerm id).name

def pinPath (n : Network) (p : Pin) : Except Fault String := do
  let name ← n.pinName p
  match ← n.ownerOf p with
  | .top => return name
  | owner => return Path.extend n.settings.divider (← n.pathOf owner) name

def netName (n : Network) (net : Net) : Except Fault String := do
  let d ← n.design
  match net with
  | .flat id => return (← d.net id).name
  | .module id => return (← d.modNet id).name

def scopeOf (n : Network) (net : Net) : Except Fault Instance :=
  match net with
  | .flat _ => return .top
  | .module id => do
    let d ← n.design
    return d.insideOf (← d.modNet id).module

end Network
end DesignView
