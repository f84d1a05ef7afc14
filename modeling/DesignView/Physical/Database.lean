import DesignView.Physical.Design.Create
import DesignView.Physical.Design.Destroy

/-!
The database: physical libraries with their masters, and at most one design.
-/

namespace DesignView

structure Database where
  libs : Table .lib Lib := {}
  masters : Table .master Master := {}
  mterms : Table .mterm MTerm := {}
  design? : Option Design := none

namespace Database

def lib (db : Database) (id : LibId) : Except Fault Lib :=
  match db.libs.find? id with
  | some l => .ok l
  | none => .error (.notInDatabase id.object)

def master (db : Database) (id : MasterId) : Except Fault Master :=
  match db.masters.find? id with
  | some m => .ok m
  | none => .error (.notInDatabase id.object)

def mterm (db : Database) (id : MTermId) : Except Fault MTerm :=
  match db.mterms.find? id with
  | some t => .ok t
  | none => .error (.notInDatabase id.object)

def mastersOf (db : Database) (id : LibId) : List (MasterId × Master) :=
  db.masters.select fun m => m.lib = id

def mtermsOf (db : Database) (id : MasterId) : List (MTermId × MTerm) :=
  db.mterms.select fun t => t.master = id

def libNamed? (db : Database) (name : String) : Option LibId :=
  db.libs.firstWhere? fun l => l.name = name

def masterIn? (db : Database) (lib : LibId) (name : String) : Option MasterId :=
  db.masters.firstWhere? fun m => m.lib = lib && m.name = name

def masterNamed? (db : Database) (name : String) : Option MasterId :=
  db.libs.ids.findSome? fun lib => db.masterIn? lib name

def mtermNamed? (db : Database) (master : MasterId) (name : String) : Option MTermId :=
  db.mterms.firstWhere? fun t => t.master = master && t.name = name

def mtermOf (db : Database) (master : MasterId) (name : String) :
    Except Fault (Option MTermId) := do
  let _ ← db.master master
  return db.mtermNamed? master name

def itermTypes? (db : Database) (id : ITermId) : Except Fault (Option (SigType × IoType)) :=
  match db.design? with
  | none => return none
  | some d => return (db.mterms.find? (← d.iterm id).mterm).map fun t => (t.sig, t.io)

def createLib (db : Database) (name : String) : Except Refusal (LibId × Database) := do
  requireNew (db.libNamed? name).isSome name "database"
  let (id, libs) := db.libs.insert ⟨name⟩
  return (id, { db with libs })

def createMaster (db : Database) (lib : LibId) (name : String) :
    Except Refusal (MasterId × Database) := do
  let l ← db.libs.known lib
  requireNew (db.masterIn? lib name).isSome name l.name
  let (id, masters) := db.masters.insert ⟨name, lib⟩
  return (id, { db with masters })

def createMTerm (db : Database) (master : MasterId) (name : String) (sig : SigType) (io : IoType) :
    Except Refusal (MTermId × Database) := do
  let m ← db.masters.known master
  requireNew (db.mtermNamed? master name).isSome name m.name
  let (id, mterms) := db.mterms.insert ⟨name, master, sig, io⟩
  return (id, { db with mterms })

def createDesign (db : Database) (name : String) : Except Refusal (Design × Database) :=
  match db.design? with
  | some d => .error (.designExists d.name)
  | none =>
    let d := Design.empty name
    .ok (d, { db with design? := some d })

def destroyDesign (db : Database) : Option Design × Database :=
  (db.design?, { db with design? := none })

def design (db : Database) : Except Refusal Design :=
  match db.design? with
  | some d => .ok d
  | none => .error .noDesign

def edit {α : Type} (db : Database) (f : Design → Except Refusal (α × Design)) :
    Except Refusal (α × Database) := do
  let (a, d) ← f (← db.design)
  return (a, { db with design? := some d })

def createInst (db : Database) (master : MasterId) (name : String) (module? : Option ModuleId) :
    Except Refusal (InstId × Database) := do
  let _ ← db.masters.known master
  db.edit fun d => d.createInst name master (db.mtermsOf master) module?

/-- Whether two masters have terminals of exactly the same names. -/
def sameTerminals (db : Database) (a b : MasterId) : Bool :=
  let names := (db.mtermsOf b).map (·.2.name)
  (db.mtermsOf a).length = names.length && (db.mtermsOf a).all fun e => e.2.name ∈ names

def swapMaster (db : Database) (inst : InstId) (master : MasterId) :
    Except Refusal Database := do
  let d ← db.design
  let i ← d.insts.known inst
  let replacement ← db.masters.known master
  let current ← db.masters.known i.master
  if db.sameTerminals i.master master then
    return { db with design? := some (d.rebind inst master (db.mtermsOf master)) }
  else
    throw (.incompatibleMaster current.name replacement.name)

end Database
end DesignView
