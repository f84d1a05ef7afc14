import DesignView.Physical.Database

/-!
Edits of a database in place. A program reads and writes tables one after the other, and what it has
written before it is refused stays written. Every request that may be refused is carried out by such
a program, which makes its checks and its writes in the order given here.
-/

namespace DesignView

/-- A program that edits a state in place and may be refused. -/
abbrev InPlace (σ : Type) := ExceptT Refusal (StateM σ)

namespace InPlace

section

variable {σ α : Type}

def exec (p : InPlace σ α) (s : σ) : Except Refusal α × σ := (ExceptT.run p).run s

def check (c : σ → Except Refusal α) : InPlace σ α := fun s => (c s, s)

def change (g : σ → α × σ) : InPlace σ α := modifyGet g

/-- Erases the object at `id` from a table, and after that is refused if there was none. -/
def takeOut {k : Kind} (table : σ → Table k α) (put : Table k α → σ → σ) (id : Id k) :
    InPlace σ α := do
  let taken? ← change fun s => ((table s).find? id, put ((table s).erase id) s)
  match taken? with
  | some a => return a
  | none => throw (.notFound id.object)

end

def addInst (name : String) (master : MasterId) (terms : List (MTermId × MTerm))
    (module? : Option ModuleId) : InPlace Design InstId := do
  check fun d => requireNew (d.instNamed? name).isSome name d.name
  let _ ← check fun d => d.modules.known (module?.getD d.topModule)
  let id ← change fun d =>
    let (id, insts) := d.insts.insert ⟨name, master, module?.getD d.topModule⟩
    (id, { d with insts })
  terms.forM fun e =>
    change fun d => ((), { d with iterms := (d.iterms.insert ⟨e.2.name, id, e.1⟩).2 })
  return id

def createNet (name : String) : InPlace Design NetId := do
  check fun d => requireNew (d.netNamed? name).isSome name d.name
  change fun d =>
    let (id, nets) := d.nets.insert { name }
    (id, { d with nets })

def createBTerm (name : String) (net? : Option NetId) : InPlace Design BTermId := do
  check fun d => requireNew (d.btermNamed? name).isSome name d.name
  match net? with
  | none =>
    change fun d =>
      let (id, bterms) := d.bterms.insert { name }
      (id, { d with bterms })
  | some net => do
    let _ ← check fun d => d.nets.known net
    let id ← change fun d =>
      let (id, bterms) := d.bterms.insert { name }
      (id, { d with bterms })
    change fun d => ((), d.attachBTerm id net)
    return id

def createModule (name : String) : InPlace Design ModuleId := do
  check fun d => requireNew (d.moduleNamed? name).isSome name d.name
  change fun d =>
    let (id, modules) := d.modules.insert ⟨name⟩
    (id, { d with modules })

def createModInst (parent master : ModuleId) (name : String) : InPlace Design ModInstId := do
  check fun d => if master = d.topModule then .error .topModuleInstance else .ok ()
  let p ← check fun d => d.modules.known parent
  let m ← check fun d => d.modules.known master
  check fun d =>
    if (d.instanceOf? master).isSome then .error (.moduleInstantiated m.name) else .ok ()
  check fun d => requireNew (d.modInstNamed? parent name).isSome name p.name
  change fun d =>
    let (id, modInsts) := d.modInsts.insert ⟨name, parent, master⟩
    (id, { d with modInsts })

def createModITerm (modInst : ModInstId) (name : String) : InPlace Design ModITermId := do
  let i ← check fun d => d.modInsts.known modInst
  check fun d => requireNew (d.modITermNamed? modInst name).isSome name i.name
  change fun d =>
    let (id, modITerms) := d.modITerms.insert ⟨name, modInst⟩
    (id, { d with modITerms })

def createModBTerm (module : ModuleId) (name : String) : InPlace Design ModBTermId := do
  let m ← check fun d => d.modules.known module
  check fun d => requireNew (d.modBTermNamed? module name).isSome name m.name
  change fun d =>
    let (id, modBTerms) := d.modBTerms.insert { name, module }
    (id, { d with modBTerms })

def createModNet (module : ModuleId) (name : String) : InPlace Design ModNetId := do
  let m ← check fun d => d.modules.known module
  check fun d => requireNew (d.modNetNamed? module name).isSome name m.name
  change fun d =>
    let (id, modNets) := d.modNets.insert ⟨name, module⟩
    (id, { d with modNets })

def destroyInst (id : InstId) : InPlace Design Unit := do
  let _ ← takeOut (·.insts) (fun insts d => { d with insts }) id
  let d ← get
  ((d.itermsOf id).map (·.1)).forM fun t => do
    change fun d => ((), d.detachITerm t)
    change fun d => ((), { d with iterms := d.iterms.erase t })

def destroyNet (id : NetId) : InPlace Design Unit := do
  let _ ← takeOut (·.nets) (fun nets d => { d with nets }) id
  change fun d => ((), { d with itermNets := d.itermNets.clearNet id })
  change fun d => ((), { d with btermNets := d.btermNets.clearNet id })

def destroyBTerm (id : BTermId) : InPlace Design Unit := do
  check fun d => d.bterms.requireLive id
  change fun d => ((), d.detachBTerm id)
  change fun d => ((), { d with bterms := d.bterms.erase id })

def destroyModInst (id : ModInstId) : InPlace Design Unit := do
  let _ ← takeOut (·.modInsts) (fun modInsts d => { d with modInsts }) id
  let d ← get
  ((d.modITermsOf id).map (·.1)).forM fun t => do
    change fun d => ((), d.detachModITerm t)
    change fun d => ((), { d with modITerms := d.modITerms.erase t })

def destroyModITerm (id : ModITermId) : InPlace Design Unit := do
  check fun d => d.modITerms.requireLive id
  change fun d => ((), d.detachModITerm id)
  change fun d => ((), { d with modITerms := d.modITerms.erase id })

def destroyModBTerm (id : ModBTermId) : InPlace Design Unit := do
  check fun d => d.modBTerms.requireLive id
  change fun d => ((), d.detachModBTerm id)
  change fun d => ((), { d with modBTerms := d.modBTerms.erase id })

def destroyModNet (id : ModNetId) : InPlace Design Unit := do
  let _ ← takeOut (·.modNets) (fun modNets d => { d with modNets }) id
  change fun d => ((), { d with itermModNets := d.itermModNets.clearNet id })
  change fun d => ((), { d with btermModNets := d.btermModNets.clearNet id })
  change fun d => ((), { d with modITermNets := d.modITermNets.clearNet id })
  change fun d => ((), { d with modBTermNets := d.modBTermNets.clearNet id })

/-- Runs a program on the design, whose writes stay also when it is refused. -/
def onDesign {α : Type} (p : InPlace Design α) : InPlace Database α := do
  let d ← check fun db => db.design
  let r := p.exec d
  change fun db => ((), { db with design? := some r.2 })
  check fun _ => r.1

def createLib (name : String) : InPlace Database LibId := do
  check fun db => requireNew (db.libNamed? name).isSome name "database"
  change fun db =>
    let (id, libs) := db.libs.insert ⟨name⟩
    (id, { db with libs })

def createMaster (lib : LibId) (name : String) : InPlace Database MasterId := do
  let l ← check fun db => db.libs.known lib
  check fun db => requireNew (db.masterIn? lib name).isSome name l.name
  change fun db =>
    let (id, masters) := db.masters.insert ⟨name, lib⟩
    (id, { db with masters })

def createMTerm (master : MasterId) (name : String) (sig : SigType) (io : IoType) :
    InPlace Database MTermId := do
  let m ← check fun db => db.masters.known master
  check fun db => requireNew (db.mtermNamed? master name).isSome name m.name
  change fun db =>
    let (id, mterms) := db.mterms.insert ⟨name, master, sig, io⟩
    (id, { db with mterms })

def createDesign (name : String) : InPlace Database Design := do
  check fun db =>
    match db.design? with
    | some d => .error (.designExists d.name)
    | none => .ok ()
  change fun db => (Design.empty name, { db with design? := some (Design.empty name) })

def createInst (master : MasterId) (name : String) (module? : Option ModuleId) :
    InPlace Database InstId := do
  let _ ← check fun db => db.masters.known master
  let db ← get
  onDesign (addInst name master (db.mtermsOf master) module?)

def swapMaster (inst : InstId) (master : MasterId) : InPlace Database Unit := do
  let d ← check fun db => db.design
  let i ← check fun _ => d.insts.known inst
  let replacement ← check fun db => db.masters.known master
  let current ← check fun db => db.masters.known i.master
  check fun db =>
    if db.sameTerminals i.master master then .ok ()
    else .error (.incompatibleMaster current.name replacement.name)
  change fun db => ((), { db with
    design? := some (d.rebind inst master (db.mtermsOf master)) })

end InPlace

inductive Request : Type → Type
  | createLib (name : String) : Request LibId
  | createMaster (lib : LibId) (name : String) : Request MasterId
  | createMTerm (master : MasterId) (name : String) (sig : SigType) (io : IoType) : Request MTermId
  | createDesign (name : String) : Request Design
  | createInst (master : MasterId) (name : String) (module? : Option ModuleId) : Request InstId
  | swapMaster (inst : InstId) (master : MasterId) : Request Unit
  | createNet (name : String) : Request NetId
  | createBTerm (name : String) (net? : Option NetId) : Request BTermId
  | createModule (name : String) : Request ModuleId
  | createModInst (parent master : ModuleId) (name : String) : Request ModInstId
  | createModITerm (modInst : ModInstId) (name : String) : Request ModITermId
  | createModBTerm (module : ModuleId) (name : String) : Request ModBTermId
  | createModNet (module : ModuleId) (name : String) : Request ModNetId
  | destroyInst (id : InstId) : Request Unit
  | destroyNet (id : NetId) : Request Unit
  | destroyBTerm (id : BTermId) : Request Unit
  | destroyModInst (id : ModInstId) : Request Unit
  | destroyModITerm (id : ModITermId) : Request Unit
  | destroyModBTerm (id : ModBTermId) : Request Unit
  | destroyModNet (id : ModNetId) : Request Unit

namespace Request

variable {α : Type}

def program : Request α → InPlace Database α
  | createLib name => InPlace.createLib name
  | createMaster lib name => InPlace.createMaster lib name
  | createMTerm master name sig io => InPlace.createMTerm master name sig io
  | createDesign name => InPlace.createDesign name
  | createInst master name module? => InPlace.createInst master name module?
  | swapMaster inst master => InPlace.swapMaster inst master
  | createNet name => .onDesign (.createNet name)
  | createBTerm name net? => .onDesign (.createBTerm name net?)
  | createModule name => .onDesign (.createModule name)
  | createModInst parent master name => .onDesign (.createModInst parent master name)
  | createModITerm modInst name => .onDesign (.createModITerm modInst name)
  | createModBTerm module name => .onDesign (.createModBTerm module name)
  | createModNet module name => .onDesign (.createModNet module name)
  | destroyInst id => .onDesign (.destroyInst id)
  | destroyNet id => .onDesign (.destroyNet id)
  | destroyBTerm id => .onDesign (.destroyBTerm id)
  | destroyModInst id => .onDesign (.destroyModInst id)
  | destroyModITerm id => .onDesign (.destroyModITerm id)
  | destroyModBTerm id => .onDesign (.destroyModBTerm id)
  | destroyModNet id => .onDesign (.destroyModNet id)

def outcome : Request α → Database → Except Refusal (α × Database)
  | createLib name, db => db.createLib name
  | createMaster lib name, db => db.createMaster lib name
  | createMTerm master name sig io, db => db.createMTerm master name sig io
  | createDesign name, db => db.createDesign name
  | createInst master name module?, db => db.createInst master name module?
  | swapMaster inst master, db => return ((), ← db.swapMaster inst master)
  | createNet name, db => db.edit fun d => d.createNet name
  | createBTerm name net?, db => db.edit fun d => d.createBTerm name net?
  | createModule name, db => db.edit fun d => d.createModule name
  | createModInst parent master name, db => db.edit fun d => d.createModInst parent master name
  | createModITerm modInst name, db => db.edit fun d => d.createModITerm modInst name
  | createModBTerm module name, db => db.edit fun d => d.createModBTerm module name
  | createModNet module name, db => db.edit fun d => d.createModNet module name
  | destroyInst id, db => db.edit fun d => return ((), ← d.destroyInst id)
  | destroyNet id, db => db.edit fun d => return ((), ← d.destroyNet id)
  | destroyBTerm id, db => db.edit fun d => return ((), ← d.destroyBTerm id)
  | destroyModInst id, db => db.edit fun d => return ((), ← d.destroyModInst id)
  | destroyModITerm id, db => db.edit fun d => return ((), ← d.destroyModITerm id)
  | destroyModBTerm id, db => db.edit fun d => return ((), ← d.destroyModBTerm id)
  | destroyModNet id, db => db.edit fun d => return ((), ← d.destroyModNet id)

def run (r : Request α) (db : Database) : Except Refusal α × Database := r.program.exec db

def runAll : List ((α : Type) × Request α) → Database → Database
  | [], db => db
  | r :: rs, db => runAll rs (r.2.run db).2

end Request
end DesignView
