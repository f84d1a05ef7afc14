import DesignView.Proofs.Physical.Binding
import Mathlib.Data.List.Nodup

/-!
Referential integrity of a design. What one object says about another, the other says too: terminals
and nets, names and objects, owners and what they own. Every database that has a history has a
design of which this is true, whatever was destroyed before and whichever numbers are used again.
-/

namespace DesignView

namespace Attachments

variable {t n : Kind} {α β : Type} {a : Attachments t n} {ts : Table t α} {ns : Table n β}

/-- A terminal is on a net exactly if the net is there and lists it once. No net lists a terminal
that is not there, and a net that is not there lists none. -/
structure Mutual (a : Attachments t n) (ts : Table t α) (ns : Table n β) : Prop where
  listed : ∀ x y, a.netOf x = some y ↔ y ∈ ns.ids ∧ (a.members y).count x = 1
  nodup : ∀ y, (a.members y).Nodup
  live : ∀ x y, x ∈ a.members y → x ∈ ts.ids ∧ y ∈ ns.ids

theorem Within.mutual (h : a.Within ts ns) : a.Mutual ts ns := by
  have hmem (x : Id t) (y : Id n) : x ∈ a.members y ↔ a.netOf x = some y := mem_members h.nodup
  refine ⟨fun x y => ?_, nodup_members h.nodup, fun x y hx => h.live ((hmem x y).1 hx)⟩
  rw [← hmem]
  constructor
  · intro hx
    have hy : y ∈ ns.ids := (h.live ((hmem x y).1 hx)).2
    exact ⟨hy, List.count_eq_one_of_mem (nodup_members h.nodup y) hx⟩
  · rintro ⟨-, hcount⟩
    have hpos : 0 < (a.members y).count x := by
      rw [hcount]
      exact Nat.one_pos
    exact List.count_pos_iff.1 hpos

end Attachments

namespace Table

variable {k j : Kind} {α β γ : Type}

/-- The look-up finds the objects of the table, each under its own key and no other. -/
structure Indexed (t : Table k α) (key : α → γ) (find : γ → Option (Id k)) : Prop where
  exact : ∀ c id, find c = some id ↔ ∃ a, t.find? id = some a ∧ key a = c
  injective : ∀ c c' id, find c = some id → find c' = some id → c = c'

theorem Indexed.of_iff {t : Table k α} {key : α → γ} {find : γ → Option (Id k)}
    (h : ∀ c id, find c = some id ↔ ∃ a, t.find? id = some a ∧ key a = c) :
    t.Indexed key find := by
  refine ⟨h, fun c c' id hc hc' => ?_⟩
  obtain ⟨a, ha, rfl⟩ := (h c id).1 hc
  obtain ⟨b, hb, rfl⟩ := (h c' id).1 hc'
  have hab : a = b := Option.some.inj (ha.symm.trans hb)
  rw [hab]

theorem Distinct.indexed {t : Table k α} {key : α → γ} [DecidableEq γ] (h : t.Distinct key)
    (ht : t.Valid) : t.Indexed key fun c => t.firstWhere? fun a => key a = c :=
  .of_iff fun _ _ => h.firstWhere?_eq_some_iff ht

theorem Distinct.indexedIn {δ : Type} [DecidableEq γ] [DecidableEq δ] {t : Table k α}
    {owner : α → γ} {name : α → δ} (h : t.Distinct fun a => (owner a, name a)) (ht : t.Valid) :
    t.Indexed (fun a => (owner a, name a)) fun c : γ × δ =>
      t.firstWhere? fun a => owner a = c.1 && name a = c.2 := by
  refine .of_iff fun c id => ?_
  rw [h.firstIn?_eq_some_iff ht]
  simp only [Prod.ext_iff]

/-- The owner of an object is there and lists it once, and it lists nothing else. -/
structure Children (t : Table k α) (owner : α → Id j) (s : Table j β)
    (children : Id j → List (Id k)) : Prop where
  owned : t.Owned owner s
  mem : ∀ x y, x ∈ children y ↔ ∃ a, t.find? x = some a ∧ owner a = y
  nodup : ∀ y, (children y).Nodup

theorem Owned.children {t : Table k α} {owner : α → Id j} {s : Table j β} (h : t.Owned owner s)
    (ht : t.Valid) : t.Children owner s fun y => (t.select fun a => owner a = y).map (·.1) := by
  refine ⟨h, fun x y => ?_, fun y => ht.nodup_map_select _⟩
  rw [ht.mem_map_select]
  simp only [decide_eq_true_eq]

end Table

namespace Design

structure Integrity (d : Design) : Prop where
  itermNets : d.itermNets.Mutual d.iterms d.nets
  itermModNets : d.itermModNets.Mutual d.iterms d.modNets
  btermNets : d.btermNets.Mutual d.bterms d.nets
  btermModNets : d.btermModNets.Mutual d.bterms d.modNets
  modITermNets : d.modITermNets.Mutual d.modITerms d.modNets
  modBTermNets : d.modBTermNets.Mutual d.modBTerms d.modNets
  instNames : d.insts.Indexed (·.name) d.instNamed?
  btermNames : d.bterms.Indexed (·.name) d.btermNamed?
  netNames : d.nets.Indexed (·.name) d.netNamed?
  moduleNames : d.modules.Indexed (·.name) d.moduleNamed?
  modInstNames : d.modInsts.Indexed (fun i => (i.parent, i.name)) fun c => d.modInstNamed? c.1 c.2
  modBTermNames : d.modBTerms.Indexed (fun t => (t.module, t.name))
    fun c => d.modBTermNamed? c.1 c.2
  modNetNames : d.modNets.Indexed (fun n => (n.module, n.name)) fun c => d.modNetNamed? c.1 c.2
  itermNames : d.iterms.Indexed (fun t => (t.inst, t.name)) fun c => d.itermNamed? c.1 c.2
  modITermNames : d.modITerms.Indexed (fun t => (t.modInst, t.name))
    fun c => d.modITermNamed? c.1 c.2
  iterms : d.iterms.Children (·.inst) d.insts fun i => (d.itermsOf i).map (·.1)
  insts : d.insts.Children (·.module) d.modules d.instsIn
  modInsts : d.modInsts.Children (·.parent) d.modules d.modInstsIn
  modITerms : d.modITerms.Children (·.modInst) d.modInsts fun i => (d.modITermsOf i).map (·.1)
  modBTerms : d.modBTerms.Children (·.module) d.modules fun m => (d.modBTermsOf m).map (·.1)
  modNets : d.modNets.Children (·.module) d.modules fun m => (d.modNetsIn m).map (·.1)
  instances : d.modInsts.Owned (·.master) d.modules ∧ d.modInsts.Indexed (·.master) d.instanceOf?
  topModule : d.topModule ∈ d.modules.ids

theorem WellFormed.integrity {d : Design} (h : d.WellFormed) : d.Integrity where
  itermNets := h.itermNets.mutual
  itermModNets := h.itermModNets.mutual
  btermNets := h.btermNets.mutual
  btermModNets := h.btermModNets.mutual
  modITermNets := h.modITermNets.mutual
  modBTermNets := h.modBTermNets.mutual
  instNames := h.instNames.indexed h.insts
  btermNames := h.btermNames.indexed h.bterms
  netNames := h.netNames.indexed h.nets
  moduleNames := h.moduleNames.indexed h.modules
  modInstNames := h.modInstNames.indexedIn h.modInsts
  modBTermNames := h.modBTermNames.indexedIn h.modBTerms
  modNetNames := h.modNetNames.indexedIn h.modNets
  itermNames := h.itermNames.indexedIn h.iterms
  modITermNames := h.modITermNames.indexedIn h.modITerms
  iterms := h.itermInst.children h.iterms
  insts := h.instModule.children h.insts
  modInsts := h.modInstParent.children h.modInsts
  modITerms := h.modITermModInst.children h.modITerms
  modBTerms := h.modBTermModule.children h.modBTerms
  modNets := h.modNetModule.children h.modNets
  instances := ⟨h.modInstMaster, h.oneInstance.indexed h.modInsts⟩
  topModule := h.topModule

end Design

theorem Database.Reachable.referential_integrity {db : Database} (h : db.Reachable) {d : Design}
    (hd : db.design? = some d) : d.Integrity ∧ db.Binds d :=
  ⟨(h.wellFormed.design hd).integrity, h.binds hd⟩

end DesignView
