import DesignView.Container.Table
import DesignView.Fault
import DesignView.Physical.Attachment
import DesignView.Physical.Master
import DesignView.Text.Path

/-!
The design: a flat netlist of instances, terminals and nets, and beside it an optional hierarchy
of modules. Every fact is stored once. An object records its owner, and an attachment records
which net a terminal is on; what a module or an instance owns, what a net joins, and which object
has a name are views of the tables.
-/

namespace DesignView

structure Inst where
  name : String
  master : MasterId
  module : ModuleId

structure ITerm where
  name : String
  inst : InstId
  mterm : MTermId

structure BTerm where
  name : String
  sig : SigType := .signal
  io : IoType := .input

structure FlatNet where
  name : String
  sig : SigType := .signal
  special : Bool := false

structure Module where
  name : String

structure ModInst where
  name : String
  parent : ModuleId
  master : ModuleId

structure ModITerm where
  name : String
  modInst : ModInstId

structure ModBTerm where
  name : String
  module : ModuleId
  sig : SigType := .signal
  io : IoType := .input

structure ModNet where
  name : String
  module : ModuleId

structure Design where
  name : String
  topModule : ModuleId
  insts : Table .inst Inst := {}
  iterms : Table .iterm ITerm := {}
  bterms : Table .bterm BTerm := {}
  nets : Table .net FlatNet := {}
  modules : Table .module Module := {}
  modInsts : Table .modInst ModInst := {}
  modITerms : Table .modITerm ModITerm := {}
  modBTerms : Table .modBTerm ModBTerm := {}
  modNets : Table .modNet ModNet := {}
  itermNets : Attachments .iterm .net := {}
  itermModNets : Attachments .iterm .modNet := {}
  btermNets : Attachments .bterm .net := {}
  btermModNets : Attachments .bterm .modNet := {}
  modITermNets : Attachments .modITerm .modNet := {}
  modBTermNets : Attachments .modBTerm .modNet := {}
  flags : OrderedMap String Bool := {}

def Table.fetch {k : Kind} {α : Type} (t : Table k α) (id : Id k) : Except Fault α :=
  match t.find? id with
  | some a => .ok a
  | none => .error (.notInDesign id.object)

namespace Design

def empty (name : String) : Design :=
  let (top, modules) := Table.insert {} (Module.mk name)
  { name, topModule := top, modules }

def hasHierarchy (d : Design) : Bool := 0 < d.modInsts.size

def inst (d : Design) (id : InstId) : Except Fault Inst := d.insts.fetch id
def iterm (d : Design) (id : ITermId) : Except Fault ITerm := d.iterms.fetch id
def bterm (d : Design) (id : BTermId) : Except Fault BTerm := d.bterms.fetch id
def net (d : Design) (id : NetId) : Except Fault FlatNet := d.nets.fetch id
def module (d : Design) (id : ModuleId) : Except Fault Module := d.modules.fetch id
def modInst (d : Design) (id : ModInstId) : Except Fault ModInst := d.modInsts.fetch id
def modITerm (d : Design) (id : ModITermId) : Except Fault ModITerm := d.modITerms.fetch id
def modBTerm (d : Design) (id : ModBTermId) : Except Fault ModBTerm := d.modBTerms.fetch id
def modNet (d : Design) (id : ModNetId) : Except Fault ModNet := d.modNets.fetch id

def itermsOf (d : Design) (id : InstId) : List (ITermId × ITerm) :=
  d.iterms.select fun t => t.inst = id

def instsIn (d : Design) (id : ModuleId) : List InstId := d.insts.idsWhere fun i => i.module = id

def modInstsIn (d : Design) (id : ModuleId) : List ModInstId :=
  d.modInsts.idsWhere fun i => i.parent = id

def modNetsIn (d : Design) (id : ModuleId) : List (ModNetId × ModNet) :=
  d.modNets.select fun n => n.module = id

def modBTermsOf (d : Design) (id : ModuleId) : List (ModBTermId × ModBTerm) :=
  d.modBTerms.select fun t => t.module = id

def modITermsOf (d : Design) (id : ModInstId) : List (ModITermId × ModITerm) :=
  d.modITerms.select fun t => t.modInst = id

def instanceOf? (d : Design) (id : ModuleId) : Option ModInstId :=
  d.modInsts.firstWhere? fun i => i.master = id

def instNamed? (d : Design) (name : String) : Option InstId :=
  d.insts.firstWhere? fun i => i.name = name

def netNamed? (d : Design) (name : String) : Option NetId :=
  d.nets.firstWhere? fun n => n.name = name

def btermNamed? (d : Design) (name : String) : Option BTermId :=
  d.bterms.firstWhere? fun t => t.name = name

def moduleNamed? (d : Design) (name : String) : Option ModuleId :=
  d.modules.firstWhere? fun m => m.name = name

def itermNamed? (d : Design) (inst : InstId) (name : String) : Option ITermId :=
  d.iterms.firstWhere? fun t => t.inst = inst && t.name = name

def itermOfMTerm? (d : Design) (inst : InstId) (mterm : MTermId) : Option ITermId :=
  d.iterms.firstWhere? fun t => t.inst = inst && t.mterm = mterm

def modInstNamed? (d : Design) (parent : ModuleId) (name : String) : Option ModInstId :=
  d.modInsts.firstWhere? fun i => i.parent = parent && i.name = name

def modBTermNamed? (d : Design) (module : ModuleId) (name : String) : Option ModBTermId :=
  d.modBTerms.firstWhere? fun t => t.module = module && t.name = name

def modNetNamed? (d : Design) (module : ModuleId) (name : String) : Option ModNetId :=
  d.modNets.firstWhere? fun n => n.module = module && n.name = name

def modITermNamed? (d : Design) (modInst : ModInstId) (name : String) : Option ModITermId :=
  d.modITerms.firstWhere? fun t => t.modInst = modInst && t.name = name

def itermOf (d : Design) (inst : InstId) (name : String) : Except Fault (Option ITermId) := do
  let _ ← d.inst inst
  return d.itermNamed? inst name

def itermFor (d : Design) (inst : InstId) (mterm : MTermId) : Except Fault (Option ITermId) := do
  let _ ← d.inst inst
  return d.itermOfMTerm? inst mterm

def modInstOf (d : Design) (parent : ModuleId) (name : String) :
    Except Fault (Option ModInstId) := do
  let _ ← d.module parent
  return d.modInstNamed? parent name

def modBTermOf (d : Design) (module : ModuleId) (name : String) :
    Except Fault (Option ModBTermId) := do
  let _ ← d.module module
  return d.modBTermNamed? module name

def modNetOf (d : Design) (module : ModuleId) (name : String) :
    Except Fault (Option ModNetId) := do
  let _ ← d.module module
  return d.modNetNamed? module name

def modITermOf (d : Design) (modInst : ModInstId) (name : String) :
    Except Fault (Option ModITermId) := do
  let _ ← d.modInst modInst
  return d.modITermNamed? modInst name

def flag? (d : Design) (name : String) : Option Bool := d.flags.find? name

def setFlag (d : Design) (name : String) (value : Bool) : Design :=
  { d with flags := d.flags.insert name value }

/-- The names of the module instances from the top module down to `id`, for a climb of at most
`steps` instances. -/
def pathNames (d : Design) : Nat → ModInstId → Except Fault (List String)
  | 0, id => .error (.endlessPath id)
  | steps + 1, id => do
    let i ← d.modInst id
    match d.instanceOf? i.parent with
    | none => return [i.name]
    | some above => return (← d.pathNames steps above) ++ [i.name]

/-- The path of a module instance. A path without end, which climbs more often than there are module
instances, is a fault. -/
def modInstPath (d : Design) (id : ModInstId) (divider : Char) : Except Fault String :=
  return Path.join divider (← d.pathNames (d.modInsts.size + 1) id)

end Design
end DesignView
