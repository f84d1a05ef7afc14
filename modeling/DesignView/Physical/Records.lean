import DesignView.Physical.InPlace

/-!
The database as records that refer to each other. A terminal has a field for its net and the net a
list of its terminals; a module lists what is in it and names its instance; every scope keeps a map
from names to objects. An operation writes all these places one after the other, in the order given
here, and nothing but its writes keeps them in agreement.
-/

namespace DesignView

/-- A part of a state that is read and written. -/
structure Slot (σ α : Type) where
  get : σ → α
  put : α → σ → σ
  get_put (a s) : get (put a s) = a := by intros; rfl
  put_get (s) : put (get s) s = s := by intros; rfl
  put_put (a b s) : put a (put b s) = put a s := by intros; rfl

namespace Slot

variable {σ α β : Type}

def modify (x : Slot σ α) (f : α → α) (s : σ) : σ := x.put (f (x.get s)) s

structure Apart (x : Slot σ α) (y : Slot σ β) : Prop where
  get_put (b s) : x.get (y.put b s) = x.get s := by intros; rfl
  get_put' (a s) : y.get (x.put a s) = y.get s := by intros; rfl
  comm (a b s) : x.put a (y.put b s) = y.put b (x.put a s) := by intros; rfl

end Slot

namespace InPlace

variable {σ α : Type} {k : Kind}

def write (g : σ → σ) : InPlace σ Unit := change fun s => ((), g s)

def quiet (p : InPlace σ α) : InPlace σ Unit := do
  let _ ← p
  return ()

def add (objects : Slot σ (Table k α)) (a : α) : InPlace σ (Id k) := change fun s =>
  let (id, t) := (objects.get s).insert a
  (id, objects.put t s)

def remove (objects : Slot σ (Table k α)) (id : Id k) : InPlace σ (Option α) := change fun s =>
  ((objects.get s).find? id, objects.modify (·.erase id) s)

end InPlace

namespace Records

structure Inst where
  name : String
  master : MasterId
  module : ModuleId
  iterms : OrderedMap String ITermId := {}

structure ITerm where
  inst : InstId
  mterm : MTermId
  name : String
  net? : Option NetId := none
  modNet? : Option ModNetId := none

structure BTerm where
  name : String
  net? : Option NetId := none
  modNet? : Option ModNetId := none
  sig : SigType := .signal
  io : IoType := .input

structure Net where
  name : String
  sig : SigType := .signal
  special : Bool := false
  iterms : List ITermId := []
  bterms : List BTermId := []

structure Module where
  name : String
  modInst? : Option ModInstId := none
  insts : List InstId := []
  modInsts : OrderedMap String ModInstId := {}
  modBTerms : OrderedMap String ModBTermId := {}
  modNets : OrderedMap String ModNetId := {}

structure ModInst where
  name : String
  parent : ModuleId
  master : ModuleId
  modITerms : OrderedMap String ModITermId := {}

structure ModITerm where
  name : String
  modInst : ModInstId
  modNet? : Option ModNetId := none

structure ModBTerm where
  name : String
  module : ModuleId
  modNet? : Option ModNetId := none
  sig : SigType := .signal
  io : IoType := .input

structure ModNet where
  name : String
  module : ModuleId
  iterms : List ITermId := []
  bterms : List BTermId := []
  modITerms : List ModITermId := []
  modBTerms : List ModBTermId := []

structure Block where
  name : String
  topModule : ModuleId
  insts : Table .inst Inst := {}
  instNames : OrderedMap String InstId := {}
  iterms : Table .iterm ITerm := {}
  bterms : Table .bterm BTerm := {}
  btermNames : OrderedMap String BTermId := {}
  nets : Table .net Net := {}
  netNames : OrderedMap String NetId := {}
  modules : Table .module Module := {}
  moduleNames : OrderedMap String ModuleId := {}
  modInsts : Table .modInst ModInst := {}
  modITerms : Table .modITerm ModITerm := {}
  modBTerms : Table .modBTerm ModBTerm := {}
  modNets : Table .modNet ModNet := {}
  flags : OrderedMap String Bool := {}

structure Lib where
  name : String
  masters : OrderedMap String MasterId := {}

structure Master where
  name : String
  lib : LibId
  mterms : OrderedMap String MTermId := {}

structure Store where
  libs : Table .lib Lib := {}
  libNames : OrderedMap String LibId := {}
  masters : Table .master Master := {}
  mterms : Table .mterm MTerm := {}
  block? : Option Block := none

end Records

namespace Slot

def insts : Slot Records.Block (Table .inst Records.Inst) where
  get b := b.insts
  put insts b := { b with insts }

def instNames : Slot Records.Block (OrderedMap String InstId) where
  get b := b.instNames
  put instNames b := { b with instNames }

def iterms : Slot Records.Block (Table .iterm Records.ITerm) where
  get b := b.iterms
  put iterms b := { b with iterms }

def bterms : Slot Records.Block (Table .bterm Records.BTerm) where
  get b := b.bterms
  put bterms b := { b with bterms }

def btermNames : Slot Records.Block (OrderedMap String BTermId) where
  get b := b.btermNames
  put btermNames b := { b with btermNames }

def nets : Slot Records.Block (Table .net Records.Net) where
  get b := b.nets
  put nets b := { b with nets }

def netNames : Slot Records.Block (OrderedMap String NetId) where
  get b := b.netNames
  put netNames b := { b with netNames }

def modules : Slot Records.Block (Table .module Records.Module) where
  get b := b.modules
  put modules b := { b with modules }

def moduleNames : Slot Records.Block (OrderedMap String ModuleId) where
  get b := b.moduleNames
  put moduleNames b := { b with moduleNames }

def modInsts : Slot Records.Block (Table .modInst Records.ModInst) where
  get b := b.modInsts
  put modInsts b := { b with modInsts }

def modITerms : Slot Records.Block (Table .modITerm Records.ModITerm) where
  get b := b.modITerms
  put modITerms b := { b with modITerms }

def modBTerms : Slot Records.Block (Table .modBTerm Records.ModBTerm) where
  get b := b.modBTerms
  put modBTerms b := { b with modBTerms }

def modNets : Slot Records.Block (Table .modNet Records.ModNet) where
  get b := b.modNets
  put modNets b := { b with modNets }

def libs : Slot Records.Store (Table .lib Records.Lib) where
  get s := s.libs
  put libs s := { s with libs }

def libNames : Slot Records.Store (OrderedMap String LibId) where
  get s := s.libNames
  put libNames s := { s with libNames }

def masters : Slot Records.Store (Table .master Records.Master) where
  get s := s.masters
  put masters s := { s with masters }

def mterms : Slot Records.Store (Table .mterm MTerm) where
  get s := s.mterms
  put mterms s := { s with mterms }

end Slot

namespace Records

def enlist {α : Type} [DecidableEq α] (x : α) (xs : List α) : List α :=
  if x ∈ xs then xs else xs ++ [x]

/-- Where the two ends of an attachment are kept: in a field of the terminal and in a list of the
net. -/
structure Link (t n : Kind) (τ ν : Type) where
  terms : Slot Block (Table t τ)
  nets : Slot Block (Table n ν)
  net : Slot τ (Option (Id n))
  members : Slot ν (List (Id t))
  apart : terms.Apart nets := by exact {}

namespace Link

def itermNet : Link .iterm .net ITerm Net where
  terms := .iterms
  nets := .nets
  net := { get := fun t => t.net?, put := fun net? t => { t with net? } }
  members := { get := fun n => n.iterms, put := fun iterms n => { n with iterms } }

def itermModNet : Link .iterm .modNet ITerm ModNet where
  terms := .iterms
  nets := .modNets
  net := { get := fun t => t.modNet?, put := fun modNet? t => { t with modNet? } }
  members := { get := fun n => n.iterms, put := fun iterms n => { n with iterms } }

def btermNet : Link .bterm .net BTerm Net where
  terms := .bterms
  nets := .nets
  net := { get := fun t => t.net?, put := fun net? t => { t with net? } }
  members := { get := fun n => n.bterms, put := fun bterms n => { n with bterms } }

def btermModNet : Link .bterm .modNet BTerm ModNet where
  terms := .bterms
  nets := .modNets
  net := { get := fun t => t.modNet?, put := fun modNet? t => { t with modNet? } }
  members := { get := fun n => n.bterms, put := fun bterms n => { n with bterms } }

def modITermNet : Link .modITerm .modNet ModITerm ModNet where
  terms := .modITerms
  nets := .modNets
  net := { get := fun t => t.modNet?, put := fun modNet? t => { t with modNet? } }
  members := { get := fun n => n.modITerms, put := fun modITerms n => { n with modITerms } }

def modBTermNet : Link .modBTerm .modNet ModBTerm ModNet where
  terms := .modBTerms
  nets := .modNets
  net := { get := fun t => t.modNet?, put := fun modNet? t => { t with modNet? } }
  members := { get := fun n => n.modBTerms, put := fun modBTerms n => { n with modBTerms } }

variable {t n : Kind} {τ ν : Type} (l : Link t n τ ν)

def disconnect (x : Id t) (b : Block) : Block :=
  match (l.terms.get b).find? x with
  | none => b
  | some a =>
    let b := l.terms.modify (·.modify x (l.net.put none)) b
    match l.net.get a with
    | none => b
    | some y => l.nets.modify (·.modify y (l.members.modify (·.erase x))) b

def connect (x : Id t) (y : Id n) (b : Block) : Block :=
  let b := l.disconnect x b
  if (l.terms.get b).contains x && (l.nets.get b).contains y then
    let b := l.terms.modify (·.modify x (l.net.put (some y))) b
    l.nets.modify (·.modify y (l.members.modify (enlist x))) b
  else b

def release (xs : List (Id t)) (b : Block) : Block :=
  xs.foldl (fun b x => l.terms.modify (·.modify x (l.net.put none)) b) b

end Link

def disconnectITerm (x : ITermId) (b : Block) : Block :=
  Link.itermModNet.disconnect x (Link.itermNet.disconnect x b)

def disconnectBTerm (x : BTermId) (b : Block) : Block :=
  Link.btermModNet.disconnect x (Link.btermNet.disconnect x b)

open InPlace (check write add remove takeOut)

/-- A table with a map from the names to the objects, all in one scope that has a title. -/
structure Index (σ : Type) (k : Kind) (α : Type) where
  objects : Slot σ (Table k α)
  names : Slot σ (OrderedMap String (Id k))
  title : σ → String
  apart : objects.Apart names := by exact {}

def Index.create {σ : Type} {k : Kind} {α : Type} (c : Index σ k α) (name : String) (a : α) :
    InPlace σ (Id k) := do
  check fun s => requireNew ((c.names.get s).contains name) name (c.title s)
  let id ← add c.objects a
  write (c.names.modify (·.insert name id))
  return id

def Index.nets : Index Block .net Net where
  objects := .nets
  names := .netNames
  title b := b.name

def Index.modules : Index Block .module Module where
  objects := .modules
  names := .moduleNames
  title b := b.name

def Index.libs : Index Store .lib Lib where
  objects := .libs
  names := .libNames
  title _ := "database"

/-- A table whose objects have owners, each with a map from the names to the objects that it has. -/
structure Scope (σ : Type) (j : Kind) (ω : Type) (k : Kind) (α : Type) where
  owners : Slot σ (Table j ω)
  objects : Slot σ (Table k α)
  names : Slot ω (OrderedMap String (Id k))
  title : ω → String
  apart : owners.Apart objects := by exact {}

namespace Scope

section

variable {σ : Type} {j : Kind} {ω : Type} {k : Kind} {α : Type} (c : Scope σ j ω k α)

def create (owner : Id j) (name : String) (a : α) : InPlace σ (Id k) := do
  let o ← check fun s => (c.owners.get s).known owner
  check fun _ => requireNew ((c.names.get o).contains name) name (c.title o)
  let id ← add c.objects a
  write (c.owners.modify (·.modify owner (c.names.modify (·.insert name id))))
  return id

def destroy (disconnect : Id k → σ → σ) (owner : α → Id j) (name : α → String) (id : Id k) :
    InPlace σ Unit := do
  check fun s => (c.objects.get s).requireLive id
  write (disconnect id)
  match ← remove c.objects id with
  | some a => write (c.owners.modify (·.modify (owner a) (c.names.modify (·.erase (name a)))))
  | none => return ()

end

def modITerms : Scope Block .modInst ModInst .modITerm ModITerm where
  owners := .modInsts
  objects := .modITerms
  names := { get := fun i => i.modITerms, put := fun modITerms i => { i with modITerms } }
  title i := i.name

def modBTerms : Scope Block .module Module .modBTerm ModBTerm where
  owners := .modules
  objects := .modBTerms
  names := { get := fun m => m.modBTerms, put := fun modBTerms m => { m with modBTerms } }
  title m := m.name

def modNets : Scope Block .module Module .modNet ModNet where
  owners := .modules
  objects := .modNets
  names := { get := fun m => m.modNets, put := fun modNets m => { m with modNets } }
  title m := m.name

def masters : Scope Store .lib Lib .master Master where
  owners := .libs
  objects := .masters
  names := { get := fun l => l.masters, put := fun masters l => { l with masters } }
  title l := l.name

def mterms : Scope Store .master Master .mterm MTerm where
  owners := .masters
  objects := .mterms
  names := { get := fun m => m.mterms, put := fun mterms m => { m with mterms } }
  title m := m.name

end Scope

namespace Block

def empty (name : String) : Block :=
  let (top, modules) := Table.insert {} ({ name } : Module)
  { name, topModule := top, modules, moduleNames := OrderedMap.insert {} name top }

def addTerms (inst : InstId) : List (String × MTermId) → OrderedMap String ITermId →
    InPlace Block (OrderedMap String ITermId)
  | [], iterms => return iterms
  | (name, mterm) :: terms, iterms => do
    let t ← add .iterms { inst, mterm, name }
    addTerms inst terms (iterms.insert name t)

def createInst (name : String) (master : MasterId) (terms : List (String × MTermId))
    (module? : Option ModuleId) : InPlace Block InstId := do
  check fun b => requireNew (b.instNames.contains name) name b.name
  let module ← check fun b => .ok (module?.getD b.topModule)
  check fun b => b.modules.requireLive module
  let id ← add .insts { name, master, module }
  let iterms ← addTerms id terms {}
  write (Slot.insts.modify (·.modify id fun i => { i with iterms }))
  write (Slot.instNames.modify (·.insert name id))
  write (Slot.modules.modify (·.modify module fun m => { m with insts := enlist id m.insts }))
  return id

def createNet (name : String) : InPlace Block NetId := Index.nets.create name { name }

def createBTerm (name : String) (net? : Option NetId) : InPlace Block BTermId := do
  check fun b => requireNew (b.btermNames.contains name) name b.name
  check fun b => match net? with
    | some net => b.nets.requireLive net
    | none => .ok ()
  let id ← add .bterms { name }
  write (Slot.btermNames.modify (·.insert name id))
  match net? with
  | some net => write (Link.btermNet.connect id net)
  | none => pure ()
  return id

def createModule (name : String) : InPlace Block ModuleId := Index.modules.create name { name }

def createModInst (parent master : ModuleId) (name : String) : InPlace Block ModInstId := do
  check fun b => if master = b.topModule then .error .topModuleInstance else .ok ()
  check fun b => b.modules.requireLive parent
  let m ← check fun b => b.modules.known master
  check fun _ => if m.modInst?.isSome then .error (.moduleInstantiated m.name) else .ok ()
  let p ← check fun b => b.modules.known parent
  check fun _ => requireNew (p.modInsts.contains name) name p.name
  let id ← add .modInsts { name, parent, master }
  write (Slot.modules.modify (·.modify master fun m => { m with modInst? := some id }))
  write (Slot.modules.modify
    (·.modify parent fun m => { m with modInsts := m.modInsts.insert name id }))
  return id

def createModITerm (modInst : ModInstId) (name : String) : InPlace Block ModITermId :=
  Scope.modITerms.create modInst name { name, modInst }

def createModBTerm (module : ModuleId) (name : String) : InPlace Block ModBTermId :=
  Scope.modBTerms.create module name { name, module }

def createModNet (module : ModuleId) (name : String) : InPlace Block ModNetId :=
  Scope.modNets.create module name { name, module }

def rebindITerm (mterms : OrderedMap String MTermId) (t : ITerm) : ITerm :=
  match mterms.find? t.name with
  | some mterm => { t with mterm }
  | none => t

def rebindInst (inst : InstId) (master : MasterId) (mterms : OrderedMap String MTermId)
    (b : Block) : Block :=
  match b.insts.find? inst with
  | none => b
  | some i =>
    let b := Slot.insts.modify (·.modify inst fun i => { i with master }) b
    i.iterms.values.foldl (fun b t => Slot.iterms.modify (·.modify t (rebindITerm mterms)) b) b

def destroyInst (id : InstId) : InPlace Block Unit := do
  let i ← takeOut Slot.insts.get Slot.insts.put id
  i.iterms.values.forM fun t => do
    write (disconnectITerm t)
    write (Slot.iterms.modify (·.erase t))
  write (Slot.instNames.modify (·.erase i.name))
  write (Slot.modules.modify (·.modify i.module fun m => { m with insts := m.insts.erase id }))

def destroyNet (id : NetId) : InPlace Block Unit := do
  let n ← takeOut Slot.nets.get Slot.nets.put id
  write (Link.itermNet.release n.iterms)
  write (Link.btermNet.release n.bterms)
  write (Slot.netNames.modify (·.erase n.name))

def destroyBTerm (id : BTermId) : InPlace Block Unit := do
  check fun b => b.bterms.requireLive id
  write (disconnectBTerm id)
  match ← remove .bterms id with
  | some t => write (Slot.btermNames.modify (·.erase t.name))
  | none => return ()

def destroyModInst (id : ModInstId) : InPlace Block Unit := do
  let i ← takeOut Slot.modInsts.get Slot.modInsts.put id
  i.modITerms.values.forM fun t => do
    write (Link.modITermNet.disconnect t)
    write (Slot.modITerms.modify (·.erase t))
  write (Slot.modules.modify
    (·.modify i.parent fun m => { m with modInsts := m.modInsts.erase i.name }))
  write (Slot.modules.modify (·.modify i.master fun m => { m with modInst? := none }))

def destroyModITerm (id : ModITermId) : InPlace Block Unit :=
  Scope.modITerms.destroy Link.modITermNet.disconnect (·.modInst) (·.name) id

def destroyModBTerm (id : ModBTermId) : InPlace Block Unit :=
  Scope.modBTerms.destroy Link.modBTermNet.disconnect (·.module) (·.name) id

def destroyModNet (id : ModNetId) : InPlace Block Unit := do
  let n ← takeOut Slot.modNets.get Slot.modNets.put id
  write (Link.itermModNet.release n.iterms)
  write (Link.btermModNet.release n.bterms)
  write (Link.modITermNet.release n.modITerms)
  write (Link.modBTermNet.release n.modBTerms)
  write (Slot.modules.modify
    (·.modify n.module fun m => { m with modNets := m.modNets.erase n.name }))

end Block

namespace Store

def block (s : Store) : Except Refusal Block :=
  match s.block? with
  | some b => .ok b
  | none => .error .noDesign

/-- Runs a program on the design, whose writes stay also when it is refused. -/
def onBlock {α : Type} (p : InPlace Block α) : InPlace Store α := do
  let b ← check fun s => s.block
  let r := p.exec b
  write fun s => { s with block? := some r.2 }
  check fun _ => r.1

def createLib (name : String) : InPlace Store LibId := Index.libs.create name { name }

def createMaster (lib : LibId) (name : String) : InPlace Store MasterId :=
  Scope.masters.create lib name { name, lib }

def createMTerm (master : MasterId) (name : String) (sig : SigType) (io : IoType) :
    InPlace Store MTermId :=
  Scope.mterms.create master name { name, master, sig, io }

def createBlock (name : String) : InPlace Store Unit := do
  check fun s =>
    match s.block? with
    | some b => .error (.designExists b.name)
    | none => .ok ()
  write fun s => { s with block? := some (.empty name) }

def createInst (master : MasterId) (name : String) (module? : Option ModuleId) :
    InPlace Store InstId := do
  let m ← check fun s => s.masters.known master
  onBlock (Block.createInst name master m.mterms.entries module?)

def swapMaster (inst : InstId) (master : MasterId) : InPlace Store Unit := do
  let b ← check fun s => s.block
  let i ← check fun _ => b.insts.known inst
  let replacement ← check fun s => s.masters.known master
  let current ← check fun s => s.masters.known i.master
  check fun _ =>
    if current.mterms.size = replacement.mterms.size &&
        current.mterms.keys.all fun name => replacement.mterms.contains name then .ok ()
    else .error (.incompatibleMaster current.name replacement.name)
  write fun s => { s with block? := some (b.rebindInst inst master replacement.mterms) }

end Store

end Records

inductive Adjustment
  | setNetSig (id : NetId) (sig : SigType)
  | setNetSpecial (id : NetId) (special : Bool)
  | setBTermTypes (id : BTermId) (sig : SigType) (io : IoType)
  | setModBTermTypes (id : ModBTermId) (sig : SigType) (io : IoType)
  | setFlag (name : String) (value : Bool)
  | attachITerm (t : ITermId) (n : NetId)
  | attachITermToModNet (t : ITermId) (n : ModNetId)
  | attachBTerm (t : BTermId) (n : NetId)
  | attachBTermToModNet (t : BTermId) (n : ModNetId)
  | attachModITerm (t : ModITermId) (n : ModNetId)
  | attachModBTerm (t : ModBTermId) (n : ModNetId)
  | detachITerm (t : ITermId)
  | detachBTerm (t : BTermId)
  | detachModITerm (t : ModITermId)
  | detachModBTerm (t : ModBTermId)

def Design.adjust (d : Design) : Adjustment → Design
  | .setNetSig id sig => d.setNetSig id sig
  | .setNetSpecial id special => d.setNetSpecial id special
  | .setBTermTypes id sig io => d.setBTermTypes id sig io
  | .setModBTermTypes id sig io => d.setModBTermTypes id sig io
  | .setFlag name value => d.setFlag name value
  | .attachITerm t n => d.attachITerm t n
  | .attachITermToModNet t n => d.attachITermToModNet t n
  | .attachBTerm t n => d.attachBTerm t n
  | .attachBTermToModNet t n => d.attachBTermToModNet t n
  | .attachModITerm t n => d.attachModITerm t n
  | .attachModBTerm t n => d.attachModBTerm t n
  | .detachITerm t => d.detachITerm t
  | .detachBTerm t => d.detachBTerm t
  | .detachModITerm t => d.detachModITerm t
  | .detachModBTerm t => d.detachModBTerm t

inductive Operation
  | request {α : Type} (r : Request α)
  | adjust (a : Adjustment)
  | destroyDesign

namespace Operation

def run : Operation → Database → Database
  | request r, db => (r.run db).2
  | adjust a, db => { db with design? := db.design?.map (·.adjust a) }
  | destroyDesign, db => db.destroyDesign.2

def runAll (ops : List Operation) : Database := ops.foldl (fun db o => o.run db) {}

end Operation

namespace Records

def Block.adjust (b : Block) : Adjustment → Block
  | .setNetSig id sig => Slot.nets.modify (·.modify id fun n => { n with sig }) b
  | .setNetSpecial id special => Slot.nets.modify (·.modify id fun n => { n with special }) b
  | .setBTermTypes id sig io => Slot.bterms.modify (·.modify id fun t => { t with sig, io }) b
  | .setModBTermTypes id sig io => Slot.modBTerms.modify (·.modify id fun t => { t with sig, io }) b
  | .setFlag name value => { b with flags := b.flags.insert name value }
  | .attachITerm t n => Link.itermNet.connect t n b
  | .attachITermToModNet t n => Link.itermModNet.connect t n b
  | .attachBTerm t n => Link.btermNet.connect t n b
  | .attachBTermToModNet t n => Link.btermModNet.connect t n b
  | .attachModITerm t n => Link.modITermNet.connect t n b
  | .attachModBTerm t n => Link.modBTermNet.connect t n b
  | .detachITerm t => disconnectITerm t b
  | .detachBTerm t => disconnectBTerm t b
  | .detachModITerm t => Link.modITermNet.disconnect t b
  | .detachModBTerm t => Link.modBTermNet.disconnect t b

namespace Store

open InPlace (quiet)

def program {α : Type} : Request α → InPlace Store Unit
  | .createLib name => quiet (createLib name)
  | .createMaster lib name => quiet (createMaster lib name)
  | .createMTerm master name sig io => quiet (createMTerm master name sig io)
  | .createDesign name => createBlock name
  | .createInst master name module? => quiet (createInst master name module?)
  | .swapMaster inst master => swapMaster inst master
  | .createNet name => quiet (onBlock (Block.createNet name))
  | .createBTerm name net? => quiet (onBlock (Block.createBTerm name net?))
  | .createModule name => quiet (onBlock (Block.createModule name))
  | .createModInst parent master name => quiet (onBlock (Block.createModInst parent master name))
  | .createModITerm modInst name => quiet (onBlock (Block.createModITerm modInst name))
  | .createModBTerm module name => quiet (onBlock (Block.createModBTerm module name))
  | .createModNet module name => quiet (onBlock (Block.createModNet module name))
  | .destroyInst id => onBlock (Block.destroyInst id)
  | .destroyNet id => onBlock (Block.destroyNet id)
  | .destroyBTerm id => onBlock (Block.destroyBTerm id)
  | .destroyModInst id => onBlock (Block.destroyModInst id)
  | .destroyModITerm id => onBlock (Block.destroyModITerm id)
  | .destroyModBTerm id => onBlock (Block.destroyModBTerm id)
  | .destroyModNet id => onBlock (Block.destroyModNet id)

def run : Operation → Store → Store
  | .request r, s => ((program r).exec s).2
  | .adjust a, s => { s with block? := s.block?.map (·.adjust a) }
  | .destroyDesign, s => { s with block? := none }

def runAll (ops : List Operation) : Store := ops.foldl (fun s o => run o s) {}

end Store

end Records
end DesignView
