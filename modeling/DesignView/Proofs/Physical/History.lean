import DesignView.Proofs.Physical.WellFormed
import Mathlib.Logic.Relation

/-!
Histories of a database: what a sequence of accepted edits makes of an empty database. Every
database that has such a history is well-formed.
-/

namespace DesignView

inductive Design.Step (d : Design) : Design → Prop
  | createNet {name id d'} (h : d.createNet name = .ok (id, d')) : Step d d'
  | createBTerm {name net? id d'} (h : d.createBTerm name net? = .ok (id, d')) : Step d d'
  | createModule {name id d'} (h : d.createModule name = .ok (id, d')) : Step d d'
  | createModInst {parent master name id d'}
      (h : d.createModInst parent master name = .ok (id, d')) : Step d d'
  | createModITerm {modInst name id d'} (h : d.createModITerm modInst name = .ok (id, d')) :
      Step d d'
  | createModBTerm {module name id d'} (h : d.createModBTerm module name = .ok (id, d')) :
      Step d d'
  | createModNet {module name id d'} (h : d.createModNet module name = .ok (id, d')) : Step d d'
  | setNetSig (id sig) : Step d (d.setNetSig id sig)
  | setNetSpecial (id special) : Step d (d.setNetSpecial id special)
  | setBTermTypes (id sig io) : Step d (d.setBTermTypes id sig io)
  | setModBTermTypes (id sig io) : Step d (d.setModBTermTypes id sig io)
  | setFlag (name value) : Step d (d.setFlag name value)
  | attachITerm (t n) : Step d (d.attachITerm t n)
  | attachITermToModNet (t n) : Step d (d.attachITermToModNet t n)
  | attachBTerm (t n) : Step d (d.attachBTerm t n)
  | attachBTermToModNet (t n) : Step d (d.attachBTermToModNet t n)
  | attachModITerm (t n) : Step d (d.attachModITerm t n)
  | attachModBTerm (t n) : Step d (d.attachModBTerm t n)
  | detachITerm (t) : Step d (d.detachITerm t)
  | detachBTerm (t) : Step d (d.detachBTerm t)
  | detachModITerm (t) : Step d (d.detachModITerm t)
  | detachModBTerm (t) : Step d (d.detachModBTerm t)
  | destroyInst {id d'} (h : d.destroyInst id = .ok d') : Step d d'
  | destroyNet {id d'} (h : d.destroyNet id = .ok d') : Step d d'
  | destroyBTerm {id d'} (h : d.destroyBTerm id = .ok d') : Step d d'
  | destroyModInst {id d'} (h : d.destroyModInst id = .ok d') : Step d d'
  | destroyModITerm {id d'} (h : d.destroyModITerm id = .ok d') : Step d d'
  | destroyModBTerm {id d'} (h : d.destroyModBTerm id = .ok d') : Step d d'
  | destroyModNet {id d'} (h : d.destroyModNet id = .ok d') : Step d d'

theorem Design.Step.wellFormed {d d' : Design} (s : d.Step d') (h : d.WellFormed) :
    d'.WellFormed := by
  cases s with
  | createNet e => exact h.createNet e
  | createBTerm e => exact h.createBTerm e
  | createModule e => exact h.createModule e
  | createModInst e => exact h.createModInst e
  | createModITerm e => exact h.createModITerm e
  | createModBTerm e => exact h.createModBTerm e
  | createModNet e => exact h.createModNet e
  | setNetSig id sig => exact h.setNetSig id sig
  | setNetSpecial id special => exact h.setNetSpecial id special
  | setBTermTypes id sig io => exact h.setBTermTypes id sig io
  | setModBTermTypes id sig io => exact h.setModBTermTypes id sig io
  | setFlag name value => exact h.setFlag name value
  | attachITerm t n => exact h.attachITerm t n
  | attachITermToModNet t n => exact h.attachITermToModNet t n
  | attachBTerm t n => exact h.attachBTerm t n
  | attachBTermToModNet t n => exact h.attachBTermToModNet t n
  | attachModITerm t n => exact h.attachModITerm t n
  | attachModBTerm t n => exact h.attachModBTerm t n
  | detachITerm t => exact h.detachITerm t
  | detachBTerm t => exact h.detachBTerm t
  | detachModITerm t => exact h.detachModITerm t
  | detachModBTerm t => exact h.detachModBTerm t
  | destroyInst e => exact h.destroyInst e
  | destroyNet e => exact h.destroyNet e
  | destroyBTerm e => exact h.destroyBTerm e
  | destroyModInst e => exact h.destroyModInst e
  | destroyModITerm e => exact h.destroyModITerm e
  | destroyModBTerm e => exact h.destroyModBTerm e
  | destroyModNet e => exact h.destroyModNet e

theorem Design.Step.makes {d d' : Design} (s : d.Step d') :
    d'.insts.Sub d.insts ∧ d'.iterms.Sub d.iterms ∧ (d'.modInsts.Sub d.modInsts ∨
      ∃ parent master name id, d.createModInst parent master name = .ok (id, d')) := by
  have hsame {d' : Design} (hi : d'.insts = d.insts) (ht : d'.iterms = d.iterms)
      (hm : d'.modInsts = d.modInsts) : d'.insts.Sub d.insts ∧ d'.iterms.Sub d.iterms ∧
        (d'.modInsts.Sub d.modInsts ∨
          ∃ parent master name id, d.createModInst parent master name = .ok (id, d')) :=
    ⟨.of_eq hi, .of_eq ht, .inl (.of_eq hm)⟩
  cases s with
  | createModInst e =>
    have hmade := createModInst_ok e
    obtain ⟨-, -, -, -, -, -, rfl⟩ := hmade
    exact ⟨.of_eq rfl, .of_eq rfl, .inr ⟨_, _, _, _, e⟩⟩
  | destroyInst e =>
    obtain ⟨-, rfl⟩ := destroyInst_ok e
    exact ⟨Table.sub_erase .., Table.sub_eraseAll .., .inl (.of_eq rfl)⟩
  | destroyModInst e =>
    obtain ⟨-, rfl⟩ := destroyModInst_ok e
    exact ⟨.of_eq rfl, .of_eq rfl, .inl (Table.sub_erase ..)⟩
  | createBTerm e =>
    obtain ⟨-, -, e⟩ := createBTerm_ok e
    split at e
    · subst e
      exact hsame rfl rfl rfl
    · obtain ⟨-, rfl⟩ := e
      exact hsame rfl rfl rfl
  | createNet e => obtain ⟨-, -, rfl⟩ := createNet_ok e; exact hsame rfl rfl rfl
  | createModule e => obtain ⟨-, -, rfl⟩ := createModule_ok e; exact hsame rfl rfl rfl
  | createModITerm e => obtain ⟨-, -, -, rfl⟩ := createModITerm_ok e; exact hsame rfl rfl rfl
  | createModBTerm e => obtain ⟨-, -, -, rfl⟩ := createModBTerm_ok e; exact hsame rfl rfl rfl
  | createModNet e => obtain ⟨-, -, -, rfl⟩ := createModNet_ok e; exact hsame rfl rfl rfl
  | destroyNet e => obtain ⟨-, rfl⟩ := destroyNet_ok e; exact hsame rfl rfl rfl
  | destroyBTerm e => obtain ⟨-, rfl⟩ := destroyBTerm_ok e; exact hsame rfl rfl rfl
  | destroyModITerm e => obtain ⟨-, rfl⟩ := destroyModITerm_ok e; exact hsame rfl rfl rfl
  | destroyModBTerm e => obtain ⟨-, rfl⟩ := destroyModBTerm_ok e; exact hsame rfl rfl rfl
  | destroyModNet e => obtain ⟨-, rfl⟩ := destroyModNet_ok e; exact hsame rfl rfl rfl
  | setNetSig | setNetSpecial | setBTermTypes | setModBTermTypes | setFlag =>
    exact hsame rfl rfl rfl
  | attachITerm | attachITermToModNet | attachBTerm | attachBTermToModNet | attachModITerm
  | attachModBTerm | detachITerm | detachBTerm | detachModITerm | detachModBTerm =>
    exact hsame rfl rfl rfl

namespace Database

structure WellFormed (db : Database) : Prop where
  libs : db.libs.Valid
  masters : db.masters.Valid
  mterms : db.mterms.Valid
  libNames : db.libs.Distinct (·.name)
  masterNames : db.masters.Distinct fun m => (m.lib, m.name)
  mtermNames : db.mterms.Distinct fun t => (t.master, t.name)
  masterLib : db.masters.Owned (·.lib) db.libs
  mtermMaster : db.mterms.Owned (·.master) db.masters
  design : ∀ ⦃d⦄, db.design? = some d → d.WellFormed

theorem wellFormed_empty : ({} : Database).WellFormed where
  libs := Table.valid_empty
  masters := Table.valid_empty
  mterms := Table.valid_empty
  libNames := Table.distinct_empty _
  masterNames := Table.distinct_empty _
  mtermNames := Table.distinct_empty _
  masterLib := Table.owned_empty _ _
  mtermMaster := Table.owned_empty _ _
  design _ h := by cases h

namespace WellFormed

variable {db db' : Database} {name : String}

theorem createLib (h : db.WellFormed) {id : LibId} (e : db.createLib name = .ok (id, db')) :
    db'.WellFormed := by
  obtain ⟨hnew, rfl⟩ := createLib_ok e
  exact { h with
    libs := h.libs.insert _
    libNames := h.libNames.insert fun _ _ hx => by simpa using Table.not_of_firstWhere? hnew hx
    masterLib := h.masterLib.insertOwner _ }

theorem createMaster (h : db.WellFormed) {lib : LibId} {id : MasterId}
    (e : db.createMaster lib name = .ok (id, db')) : db'.WellFormed := by
  obtain ⟨hlib, hnew, rfl⟩ := createMaster_ok e
  exact { h with
    masters := h.masters.insert _
    masterNames := h.masterNames.insert fun _ _ hx => by
      simpa using Table.not_of_firstWhere? hnew hx
    masterLib := h.masterLib.insert hlib
    mtermMaster := h.mtermMaster.insertOwner _ }

theorem createMTerm (h : db.WellFormed) {master : MasterId} {sig : SigType} {io : IoType}
    {id : MTermId} (e : db.createMTerm master name sig io = .ok (id, db')) : db'.WellFormed := by
  obtain ⟨hmaster, hnew, rfl⟩ := createMTerm_ok e
  exact { h with
    mterms := h.mterms.insert _
    mtermNames := h.mtermNames.insert fun _ _ hx => by
      simpa using Table.not_of_firstWhere? hnew hx
    mtermMaster := h.mtermMaster.insert hmaster }

theorem setDesign (h : db.WellFormed) {d : Design} (hd : d.WellFormed) :
    WellFormed { db with design? := some d } :=
  { h with design := fun _ e => by cases e; exact hd }

theorem createDesign (h : db.WellFormed) {d : Design} (e : db.createDesign name = .ok (d, db')) :
    db'.WellFormed := by
  obtain ⟨-, -, rfl⟩ := createDesign_ok e
  exact h.setDesign (Design.wellFormed_empty name)

theorem destroyDesign (h : db.WellFormed) : db.destroyDesign.2.WellFormed :=
  { h with design := fun _ e => by cases e }

theorem mtermsOf_names_nodup (h : db.WellFormed) (master : MasterId) :
    ((db.mtermsOf master).map (·.2.name)).Nodup :=
  h.mterms.nodup_map_values fun _ _ _ _ hx hy hmx hmy e => h.mtermNames hx hy
    (Prod.ext ((of_decide_eq_true hmx).trans (of_decide_eq_true hmy).symm) e)

theorem createInst (h : db.WellFormed) {master : MasterId} {module? : Option ModuleId} {id : InstId}
    (e : db.createInst master name module? = .ok (id, db')) : db'.WellFormed := by
  obtain ⟨-, d, d', hd, hd', rfl⟩ := createInst_ok e
  exact h.setDesign ((h.design hd).createInst (h.mtermsOf_names_nodup master) hd')

theorem swapMaster (h : db.WellFormed) {inst : InstId} {master : MasterId}
    (e : db.swapMaster inst master = .ok db') : db'.WellFormed := by
  obtain ⟨d, i, hd, -, -, -, rfl⟩ := swapMaster_ok e
  exact h.setDesign ((h.design hd).rebind inst master _)

end WellFormed

inductive Step (db : Database) : Database → Prop
  | createLib {name id db'} (h : db.createLib name = .ok (id, db')) : Step db db'
  | createMaster {lib name id db'} (h : db.createMaster lib name = .ok (id, db')) : Step db db'
  | createMTerm {master name sig io id db'}
      (h : db.createMTerm master name sig io = .ok (id, db')) : Step db db'
  | createDesign {name d db'} (h : db.createDesign name = .ok (d, db')) : Step db db'
  | destroyDesign : Step db db.destroyDesign.2
  | createInst {master name module? id db'}
      (h : db.createInst master name module? = .ok (id, db')) : Step db db'
  | swapMaster {inst master db'} (h : db.swapMaster inst master = .ok db') : Step db db'
  | design {d d'} (hd : db.design? = some d) (h : d.Step d') :
      Step db { db with design? := some d' }

theorem Step.wellFormed {db db' : Database} (s : db.Step db') (h : db.WellFormed) :
    db'.WellFormed := by
  cases s with
  | createLib e => exact h.createLib e
  | createMaster e => exact h.createMaster e
  | createMTerm e => exact h.createMTerm e
  | createDesign e => exact h.createDesign e
  | destroyDesign => exact h.destroyDesign
  | createInst e => exact h.createInst e
  | swapMaster e => exact h.swapMaster e
  | design hd s => exact h.setDesign (s.wellFormed (h.design hd))

/-- The database has a history: accepted edits lead to it from the empty database. -/
def Reachable (db : Database) : Prop := Relation.ReflTransGen Step {} db

theorem Reachable.wellFormed {db : Database} (h : db.Reachable) : db.WellFormed := by
  induction h with
  | refl => exact wellFormed_empty
  | tail _ s ih => exact s.wellFormed ih

end Database
end DesignView
