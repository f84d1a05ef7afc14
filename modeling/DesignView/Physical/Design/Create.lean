import DesignView.Physical.Design.Basic
import DesignView.Physical.Refusal

/-!
Creation of objects in a design, and the setting of their attributes. A name is taken once in its
scope, and a module is instantiated at most once.
-/

namespace DesignView.Design

def createInst (d : Design) (name : String) (master : MasterId) (terms : List (MTermId × MTerm))
    (module? : Option ModuleId) : Except Refusal (InstId × Design) := do
  requireNew (d.instNamed? name).isSome name d.name
  let module := module?.getD d.topModule
  let _ ← d.modules.known module
  let (id, insts) := d.insts.insert ⟨name, master, module⟩
  let iterms := terms.foldl (fun ts e => (ts.insert ⟨e.2.name, id, e.1⟩).2) d.iterms
  return (id, { d with insts, iterms })

def createNet (d : Design) (name : String) : Except Refusal (NetId × Design) := do
  requireNew (d.netNamed? name).isSome name d.name
  let (id, nets) := d.nets.insert { name }
  return (id, { d with nets })

def createBTerm (d : Design) (name : String) (net? : Option NetId) :
    Except Refusal (BTermId × Design) := do
  requireNew (d.btermNamed? name).isSome name d.name
  match net? with
  | none =>
    let (id, bterms) := d.bterms.insert { name }
    return (id, { d with bterms })
  | some net =>
    let _ ← d.nets.known net
    let (id, bterms) := d.bterms.insert { name }
    return (id, { d with bterms, btermNets := d.btermNets.attach id net })

def createModule (d : Design) (name : String) : Except Refusal (ModuleId × Design) := do
  requireNew (d.moduleNamed? name).isSome name d.name
  let (id, modules) := d.modules.insert ⟨name⟩
  return (id, { d with modules })

def createModInst (d : Design) (parent master : ModuleId) (name : String) :
    Except Refusal (ModInstId × Design) := do
  if master = d.topModule then throw .topModuleInstance
  let p ← d.modules.known parent
  let m ← d.modules.known master
  if (d.instanceOf? master).isSome then throw (.moduleInstantiated m.name)
  requireNew (d.modInstNamed? parent name).isSome name p.name
  let (id, modInsts) := d.modInsts.insert ⟨name, parent, master⟩
  return (id, { d with modInsts })

def createModITerm (d : Design) (modInst : ModInstId) (name : String) :
    Except Refusal (ModITermId × Design) := do
  let i ← d.modInsts.known modInst
  requireNew (d.modITermNamed? modInst name).isSome name i.name
  let (id, modITerms) := d.modITerms.insert ⟨name, modInst⟩
  return (id, { d with modITerms })

def createModBTerm (d : Design) (module : ModuleId) (name : String) :
    Except Refusal (ModBTermId × Design) := do
  let m ← d.modules.known module
  requireNew (d.modBTermNamed? module name).isSome name m.name
  let (id, modBTerms) := d.modBTerms.insert { name, module }
  return (id, { d with modBTerms })

def createModNet (d : Design) (module : ModuleId) (name : String) :
    Except Refusal (ModNetId × Design) := do
  let m ← d.modules.known module
  requireNew (d.modNetNamed? module name).isSome name m.name
  let (id, modNets) := d.modNets.insert ⟨name, module⟩
  return (id, { d with modNets })

def setNetSig (d : Design) (id : NetId) (sig : SigType) : Design :=
  { d with nets := d.nets.modify id fun n => { n with sig } }

def setNetSpecial (d : Design) (id : NetId) (special : Bool) : Design :=
  { d with nets := d.nets.modify id fun n => { n with special } }

def setBTermTypes (d : Design) (id : BTermId) (sig : SigType) (io : IoType) : Design :=
  { d with bterms := d.bterms.modify id fun t => { t with sig, io } }

def setModBTermTypes (d : Design) (id : ModBTermId) (sig : SigType) (io : IoType) : Design :=
  { d with modBTerms := d.modBTerms.modify id fun t => { t with sig, io } }

/-- Makes `inst` an instance of `master`, and each of its terminals one of the terminal of `terms`
that has its name. -/
def rebind (d : Design) (inst : InstId) (master : MasterId) (terms : List (MTermId × MTerm)) :
    Design :=
  { d with
    insts := d.insts.modify inst fun i => { i with master }
    iterms := d.iterms.modifyWhere (fun t => t.inst = inst) fun t =>
      match terms.find? fun e => e.2.name = t.name with
      | some e => { t with mterm := e.1 }
      | none => t }

end DesignView.Design
