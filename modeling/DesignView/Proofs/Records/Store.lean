import DesignView.Proofs.Records.Create
import DesignView.Proofs.Records.Destroy
import Mathlib.Data.List.Induction

/-!
A database drawn as records. Every operation does to the records what it does to the database that
they are drawn from, so that after any operations the records are those of a database.
-/

namespace DesignView

theorem Table.view_self {k : Kind} {α : Type} (t : Table k α) : t.view (fun _ a => a) = t := by
  simp only [view, List.map_id']
  rfl

namespace InPlace

variable {σ τ α : Type} {ρ : σ → τ} {s : σ}

theorem Carries.quiet {p : InPlace τ α} {step : Except Refusal (α × σ)} (h : Carries ρ s p step) :
    Carries ρ s (InPlace.quiet p) (step.map fun r => ((), r.2)) := by
  rw [Carries, InPlace.quiet, exec_bind, h]
  cases step <;> rfl

theorem Carries.unit {p : InPlace τ Unit} {step : Except Refusal (Unit × σ)}
    (h : Carries ρ s p step) :
    Carries ρ s p (step.map fun r => ((), r.2)) := by
  cases step with
  | ok r => exact h
  | error e => exact h

end InPlace

namespace Database

open InPlace (Carries settle)
open Records (Store Index Scope)

variable {db : Database} {name : String}

def libRecord (db : Database) (id : LibId) (l : Lib) : Records.Lib where
  name := l.name
  masters := db.masters.names (fun m => m.lib = id) (·.name)

def masterRecord (db : Database) (id : MasterId) (m : Master) : Records.Master where
  name := m.name
  lib := m.lib
  mterms := db.mterms.names (fun t => t.master = id) (·.name)

def records (db : Database) : Store where
  libs := db.libs.view db.libRecord
  libNames := db.libs.names (fun _ => true) (·.name)
  masters := db.masters.view db.masterRecord
  mterms := db.mterms
  block? := db.design?.map Design.records

theorem createLib_carries (h : db.WellFormed) (name : String) :
    Carries records db (Store.createLib name) (db.createLib name) := by
  have hdead : (db.libs.insert ⟨name⟩).1 ∉ db.libs.ids := h.libs.fresh _
  apply Index.create_carries (ρ := records) (s := db) .libs (·.name) ⟨name⟩ h.libs rfl rfl _ rfl
  simp only [libRecord, h.masterLib.names_of_dead h.masters hdead]

theorem createMaster_carries (h : db.WellFormed) (lib : LibId) (name : String) :
    Carries records db (Store.createMaster lib name) (db.createMaster lib name) := by
  have hdead : (db.masters.insert ⟨name, lib⟩).1 ∉ db.masters.ids := h.masters.fresh _
  apply Scope.create_carries (ρ := records) (s := db) .masters (·.lib) (·.name) ⟨name, lib⟩
    h.masters rfl rfl (fun _ _ => rfl) (fun _ _ => rfl) _ rfl
  simp only [masterRecord, h.mtermMaster.names_of_dead h.mterms hdead]

theorem createMTerm_carries (h : db.WellFormed) (master : MasterId) (name : String) (sig : SigType)
    (io : IoType) :
    Carries records db (Store.createMTerm master name sig io)
      (db.createMTerm master name sig io) := by
  apply Scope.create_carries (ρ := records) (s := db) .mterms (·.master) (·.name)
    ⟨name, master, sig, io⟩ h.mterms rfl (Table.view_self _).symm (fun _ _ => rfl)
    (fun _ _ => rfl) rfl
  rw [Table.view_self]
  rfl

theorem block_records (db : Database) : db.records.block = db.design.map Design.records := by
  rw [Store.block, design, records]
  cases db.design? <;> rfl

theorem onBlock_carries (h : db.WellFormed) {α : Type} {p : InPlace Records.Block α}
    {step : Design → Except Refusal (α × Design)}
    (hp : ∀ {d : Design}, d.WellFormed → Carries Design.records d p (step d)) :
    Carries records db (Store.onBlock p) (db.edit step) := by
  refine .check Design.records (block_records db) fun d hd => ?_
  have hdb : { db with design? := some d } = db := by rw [← design_eq_ok.1 hd]
  show ((p.exec d.records).1, { db.records with block? := some (p.exec d.records).2 }) = _
  rw [hp (h.design (design_eq_ok.1 hd))]
  cases step d with
  | ok r => rfl
  | error e => exact congrArg (fun db => (Except.error e, records db)) hdb

theorem createDesign_carries (db : Database) (name : String) :
    Carries records db (Store.createBlock name)
      ((db.createDesign name).map fun r => ((), r.2)) := by
  obtain ⟨libs, masters, mterms, design?⟩ := db
  cases design? <;> rfl

theorem createInst_carries (h : db.WellFormed) (master : MasterId) (name : String)
    (module? : Option ModuleId) :
    Carries records db (Store.createInst master name module?)
      (db.createInst master name module?) :=
  .check (db.masterRecord master) (Table.known_view ..) fun _ _ => onBlock_carries h fun hd =>
    Design.createInst_carries hd name master (h.mtermsOf_names_nodup master) module?

theorem sameTerminals_records (db : Database) (a b : MasterId) (ma mb : Master) :
    ((db.masterRecord a ma).mterms.size = (db.masterRecord b mb).mterms.size &&
      (db.masterRecord a ma).mterms.keys.all fun name =>
        (db.masterRecord b mb).mterms.contains name) = db.sameTerminals a b := by
  have hsize (id : MasterId) (m : Master) :
      (db.masterRecord id m).mterms.size = (db.mtermsOf id).length := List.length_map _
  have hkeys (id : MasterId) (m : Master) :
      (db.masterRecord id m).mterms.keys = (db.mtermsOf id).map (·.2.name) := List.map_map ..
  have hcontains (name : String) : (db.masterRecord b mb).mterms.contains name =
      decide (name ∈ (db.mtermsOf b).map (·.2.name)) := by
    rw [Bool.eq_iff_iff, OrderedMap.contains_iff, hkeys, decide_eq_true_iff]
  simp only [hsize, hkeys, hcontains, sameTerminals, List.all_map, List.length_map]
  rfl

theorem swapMaster_carries (h : db.WellFormed) (inst : InstId) (master : MasterId) :
    Carries records db (Store.swapMaster inst master)
      (return ((), ← db.swapMaster inst master)) := by
  simp only [swapMaster, bind_assoc]
  refine .check Design.records (block_records db) fun d hd =>
    .check (d.instRecord inst) (Table.known_view ..) fun i _ =>
    .check (db.masterRecord master) (Table.known_view ..) fun replacement _ =>
      .check (db.masterRecord i.master) (Table.known_view ..) fun current _ => ?_
  rw [Carries, InPlace.exec_bind, InPlace.exec_check, sameTerminals_records]
  have hrebind := Design.rebind_records (h.design (design_eq_ok.1 hd)) inst master
    (db.mtermsOf master)
  by_cases hsame : db.sameTerminals i.master master = true
  · rw [if_pos hsame, if_pos hsame]
    exact congrArg (fun b => (Except.ok (), { db.records with block? := some b })) hrebind.symm
  · rw [if_neg hsame, if_neg hsame]
    rfl

end Database

open InPlace (Carries)

variable {db : Database}

theorem Request.carries {α : Type} (r : Request α) (h : db.WellFormed) :
    Carries Database.records db (Records.Store.program r)
      ((r.outcome db).map fun x => ((), x.2)) := by
  cases r with
  | createLib name => exact (Database.createLib_carries h name).quiet
  | createMaster lib name => exact (Database.createMaster_carries h lib name).quiet
  | createMTerm master name sig io =>
    exact (Database.createMTerm_carries h master name sig io).quiet
  | createDesign name => exact Database.createDesign_carries db name
  | createInst master name module? =>
    exact (Database.createInst_carries h master name module?).quiet
  | swapMaster inst master => exact .unit (Database.swapMaster_carries h inst master)
  | createNet name =>
    exact (Database.onBlock_carries h fun hd => Design.createNet_carries hd name).quiet
  | createBTerm name net? =>
    exact (Database.onBlock_carries h fun hd => Design.createBTerm_carries hd name net?).quiet
  | createModule name =>
    exact (Database.onBlock_carries h fun hd => Design.createModule_carries hd name).quiet
  | createModInst parent master name =>
    exact (Database.onBlock_carries h fun hd =>
      Design.createModInst_carries hd parent master name).quiet
  | createModITerm modInst name =>
    exact (Database.onBlock_carries h fun hd => Design.createModITerm_carries hd modInst name).quiet
  | createModBTerm module name =>
    exact (Database.onBlock_carries h fun hd => Design.createModBTerm_carries hd module name).quiet
  | createModNet module name =>
    exact (Database.onBlock_carries h fun hd => Design.createModNet_carries hd module name).quiet
  | destroyInst id =>
    exact .unit (Database.onBlock_carries h fun hd => Design.destroyInst_carries hd id)
  | destroyNet id =>
    exact .unit (Database.onBlock_carries h fun hd => Design.destroyNet_carries hd id)
  | destroyBTerm id =>
    exact .unit (Database.onBlock_carries h fun hd => Design.destroyBTerm_carries hd id)
  | destroyModInst id =>
    exact .unit (Database.onBlock_carries h fun hd => Design.destroyModInst_carries hd id)
  | destroyModITerm id =>
    exact .unit (Database.onBlock_carries h fun hd => Design.destroyModITerm_carries hd id)
  | destroyModBTerm id =>
    exact .unit (Database.onBlock_carries h fun hd => Design.destroyModBTerm_carries hd id)
  | destroyModNet id =>
    exact .unit (Database.onBlock_carries h fun hd => Design.destroyModNet_carries hd id)

theorem Design.step_adjust (d : Design) (a : Adjustment) : d.Step (d.adjust a) := by
  cases a with
  | setNetSig id sig => exact .setNetSig id sig
  | setNetSpecial id special => exact .setNetSpecial id special
  | setBTermTypes id sig io => exact .setBTermTypes id sig io
  | setModBTermTypes id sig io => exact .setModBTermTypes id sig io
  | setFlag name value => exact .setFlag name value
  | attachITerm t n => exact .attachITerm t n
  | attachITermToModNet t n => exact .attachITermToModNet t n
  | attachBTerm t n => exact .attachBTerm t n
  | attachBTermToModNet t n => exact .attachBTermToModNet t n
  | attachModITerm t n => exact .attachModITerm t n
  | attachModBTerm t n => exact .attachModBTerm t n
  | detachITerm t => exact .detachITerm t
  | detachBTerm t => exact .detachBTerm t
  | detachModITerm t => exact .detachModITerm t
  | detachModBTerm t => exact .detachModBTerm t

namespace Operation

theorem run_reachable (o : Operation) (h : db.Reachable) : (o.run db).Reachable := by
  cases o with
  | request r =>
    rw [run, Request.run_eq]
    cases hr : r.outcome db with
    | ok x => exact h.tail (Request.step_of_outcome hr)
    | error e => exact h
  | adjust a =>
    cases hd : db.design? with
    | none =>
      rw [run, hd, Option.map_none, ← hd]
      exact h
    | some d =>
      rw [run, hd]
      exact h.tail (.design hd (d.step_adjust a))
  | destroyDesign => exact h.tail .destroyDesign

theorem runAll_reachable (ops : List Operation) : (runAll ops).Reachable := by
  induction ops using List.reverseRecOn with
  | nil => exact .refl
  | append_singleton ops o ih =>
    rw [runAll, List.foldl_append]
    exact o.run_reachable ih

theorem run_of_outcome {α : Type} {r : Request α} {a : α} {db' : Database}
    (h : r.outcome db = .ok (a, db')) : (request r).run db = db' := by
  rw [run, Request.run_eq, h]
  rfl

theorem run_of_edit {α : Type} {r : Request α} {f : Design → Except Refusal (α × Design)} {a : α}
    {d d' : Design} (hd : db.design? = some d) (hr : r.outcome db = db.edit f)
    (h : f d = .ok (a, d')) : (request r).run db = { db with design? := some d' } := by
  apply run_of_outcome (a := a)
  rw [hr, Database.edit, Database.design_eq_ok.2 hd]
  show (f d >>= _) = _
  rw [h]
  rfl

theorem run_of_unit {r : Request Unit} {f : Design → Except Refusal Design} {d d' : Design}
    (hd : db.design? = some d) (hr : r.outcome db = db.edit fun d => return ((), ← f d))
    (h : f d = .ok d') : (request r).run db = { db with design? := some d' } := by
  refine run_of_edit hd hr (a := ()) ?_
  rw [h]
  rfl

theorem run_adjust {d : Design} (hd : db.design? = some d) (a : Adjustment) :
    (adjust a).run db = { db with design? := some (d.adjust a) } := by
  rw [run, hd]
  rfl

end Operation

theorem Design.Step.exists_operation {d d' : Design} (hd : db.design? = some d) (s : d.Step d') :
    ∃ o : Operation, o.run db = { db with design? := some d' } := by
  cases s with
  | @createNet name _ _ h => exact ⟨_, Operation.run_of_edit (r := .createNet name) hd rfl h⟩
  | @createBTerm name net? _ _ h =>
    exact ⟨_, Operation.run_of_edit (r := .createBTerm name net?) hd rfl h⟩
  | @createModule name _ _ h => exact ⟨_, Operation.run_of_edit (r := .createModule name) hd rfl h⟩
  | @createModInst parent master name _ _ h =>
    exact ⟨_, Operation.run_of_edit (r := .createModInst parent master name) hd rfl h⟩
  | @createModITerm modInst name _ _ h =>
    exact ⟨_, Operation.run_of_edit (r := .createModITerm modInst name) hd rfl h⟩
  | @createModBTerm module name _ _ h =>
    exact ⟨_, Operation.run_of_edit (r := .createModBTerm module name) hd rfl h⟩
  | @createModNet module name _ _ h =>
    exact ⟨_, Operation.run_of_edit (r := .createModNet module name) hd rfl h⟩
  | setNetSig id sig => exact ⟨_, Operation.run_adjust hd (.setNetSig id sig)⟩
  | setNetSpecial id special => exact ⟨_, Operation.run_adjust hd (.setNetSpecial id special)⟩
  | setBTermTypes id sig io => exact ⟨_, Operation.run_adjust hd (.setBTermTypes id sig io)⟩
  | setModBTermTypes id sig io => exact ⟨_, Operation.run_adjust hd (.setModBTermTypes id sig io)⟩
  | setFlag name value => exact ⟨_, Operation.run_adjust hd (.setFlag name value)⟩
  | attachITerm t n => exact ⟨_, Operation.run_adjust hd (.attachITerm t n)⟩
  | attachITermToModNet t n => exact ⟨_, Operation.run_adjust hd (.attachITermToModNet t n)⟩
  | attachBTerm t n => exact ⟨_, Operation.run_adjust hd (.attachBTerm t n)⟩
  | attachBTermToModNet t n => exact ⟨_, Operation.run_adjust hd (.attachBTermToModNet t n)⟩
  | attachModITerm t n => exact ⟨_, Operation.run_adjust hd (.attachModITerm t n)⟩
  | attachModBTerm t n => exact ⟨_, Operation.run_adjust hd (.attachModBTerm t n)⟩
  | detachITerm t => exact ⟨_, Operation.run_adjust hd (.detachITerm t)⟩
  | detachBTerm t => exact ⟨_, Operation.run_adjust hd (.detachBTerm t)⟩
  | detachModITerm t => exact ⟨_, Operation.run_adjust hd (.detachModITerm t)⟩
  | detachModBTerm t => exact ⟨_, Operation.run_adjust hd (.detachModBTerm t)⟩
  | @destroyInst id _ h => exact ⟨_, Operation.run_of_unit (r := .destroyInst id) hd rfl h⟩
  | @destroyNet id _ h => exact ⟨_, Operation.run_of_unit (r := .destroyNet id) hd rfl h⟩
  | @destroyBTerm id _ h => exact ⟨_, Operation.run_of_unit (r := .destroyBTerm id) hd rfl h⟩
  | @destroyModInst id _ h => exact ⟨_, Operation.run_of_unit (r := .destroyModInst id) hd rfl h⟩
  | @destroyModITerm id _ h => exact ⟨_, Operation.run_of_unit (r := .destroyModITerm id) hd rfl h⟩
  | @destroyModBTerm id _ h => exact ⟨_, Operation.run_of_unit (r := .destroyModBTerm id) hd rfl h⟩
  | @destroyModNet id _ h => exact ⟨_, Operation.run_of_unit (r := .destroyModNet id) hd rfl h⟩

theorem Database.Step.exists_operation {db' : Database} (s : db.Step db') :
    ∃ o : Operation, o.run db = db' := by
  cases s with
  | @createLib name _ _ h => exact ⟨_, Operation.run_of_outcome (r := .createLib name) h⟩
  | @createMaster lib name _ _ h =>
    exact ⟨_, Operation.run_of_outcome (r := .createMaster lib name) h⟩
  | @createMTerm master name sig io _ _ h =>
    exact ⟨_, Operation.run_of_outcome (r := .createMTerm master name sig io) h⟩
  | @createDesign name _ _ h => exact ⟨_, Operation.run_of_outcome (r := .createDesign name) h⟩
  | destroyDesign => exact ⟨.destroyDesign, rfl⟩
  | @createInst master name module? _ _ h =>
    exact ⟨_, Operation.run_of_outcome (r := .createInst master name module?) h⟩
  | @swapMaster inst master _ h =>
    refine ⟨_, Operation.run_of_outcome (r := .swapMaster inst master) (a := ()) ?_⟩
    rw [Request.outcome, h]
    rfl
  | design hd s => exact s.exists_operation hd

theorem Database.reachable_iff {db : Database} :
    db.Reachable ↔ ∃ ops, Operation.runAll ops = db := by
  constructor
  · intro h
    induction h with
    | refl => exact ⟨[], rfl⟩
    | tail _ s ih =>
      obtain ⟨ops, rfl⟩ := ih
      obtain ⟨o, rfl⟩ := s.exists_operation
      refine ⟨ops ++ [o], ?_⟩
      rw [Operation.runAll, List.foldl_append]
      rfl
  · rintro ⟨ops, rfl⟩
    exact Operation.runAll_reachable ops

namespace Records.Store

variable {α : Type}

theorem exec_program (r : Request α) (h : db.WellFormed) : (program r).exec db.records =
    ((r.run db).1.map fun _ => (), (r.run db).2.records) := by
  rw [r.carries h, Request.run_eq]
  cases r.outcome db <;> rfl

theorem run_records (o : Operation) (h : db.WellFormed) :
    run o db.records = (o.run db).records := by
  cases o with
  | request r => exact congrArg Prod.snd (exec_program r h)
  | adjust a =>
    rw [run, Operation.run, Database.records, Database.records]
    cases hd : db.design? with
    | none => rfl
    | some d =>
      simp only [Option.map_some, Design.adjust_records (h.design hd)]
      rfl
  | destroyDesign => rfl

theorem runAll_records (ops : List Operation) : runAll ops = (Operation.runAll ops).records := by
  induction ops using List.reverseRecOn with
  | nil => rfl
  | append_singleton ops o ih =>
    rw [runAll, List.foldl_append, Operation.runAll, List.foldl_append]
    exact (congrArg (run o) ih).trans (run_records o (Operation.runAll_reachable ops).wellFormed)

/-- A refused request leaves every table, list, field and map of names as it was, and a request is
refused if and why the database refuses it. -/
theorem refused_iff (ops : List Operation) (r : Request α) (e : Refusal) (s : Store) :
    (program r).exec (runAll ops) = (.error e, s) ↔
      r.outcome (Operation.runAll ops) = .error e ∧ s = runAll ops := by
  rw [runAll_records, r.carries (Operation.runAll_reachable ops).wellFormed]
  cases r.outcome (Operation.runAll ops) with
  | ok x => simp [InPlace.settle, Except.map]
  | error e' => simp [InPlace.settle, Except.map, eq_comm]

end Records.Store
end DesignView
