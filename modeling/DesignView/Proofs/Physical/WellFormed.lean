import DesignView.Proofs.Physical.Outcome
import Mathlib.Data.List.Nodup

/-!
Well-formed designs: numbers and names are used once, and every reference names a live object. Each
edit keeps a design well-formed; an edit is answerable only for the facts about the tables that it
writes.
-/

namespace DesignView.Design

/-- Numbers and names are used once in their scopes, every owner and both ends of every attachment
are live, and each module but the top one is instantiated at most once. -/
structure WellFormed (d : Design) : Prop where
  insts : d.insts.Valid
  iterms : d.iterms.Valid
  bterms : d.bterms.Valid
  nets : d.nets.Valid
  modules : d.modules.Valid
  modInsts : d.modInsts.Valid
  modITerms : d.modITerms.Valid
  modBTerms : d.modBTerms.Valid
  modNets : d.modNets.Valid
  instNames : d.insts.Distinct (·.name)
  itermNames : d.iterms.Distinct fun t => (t.inst, t.name)
  btermNames : d.bterms.Distinct (·.name)
  netNames : d.nets.Distinct (·.name)
  moduleNames : d.modules.Distinct (·.name)
  modInstNames : d.modInsts.Distinct fun i => (i.parent, i.name)
  modITermNames : d.modITerms.Distinct fun t => (t.modInst, t.name)
  modBTermNames : d.modBTerms.Distinct fun t => (t.module, t.name)
  modNetNames : d.modNets.Distinct fun n => (n.module, n.name)
  oneInstance : d.modInsts.Distinct (·.master)
  topModule : d.topModule ∈ d.modules.ids
  topFree : ∀ ⦃i a⦄, d.modInsts.find? i = some a → a.master ≠ d.topModule
  instModule : d.insts.Owned (·.module) d.modules
  itermInst : d.iterms.Owned (·.inst) d.insts
  modInstParent : d.modInsts.Owned (·.parent) d.modules
  modInstMaster : d.modInsts.Owned (·.master) d.modules
  modITermModInst : d.modITerms.Owned (·.modInst) d.modInsts
  modBTermModule : d.modBTerms.Owned (·.module) d.modules
  modNetModule : d.modNets.Owned (·.module) d.modules
  itermNets : d.itermNets.Within d.iterms d.nets
  itermModNets : d.itermModNets.Within d.iterms d.modNets
  btermNets : d.btermNets.Within d.bterms d.nets
  btermModNets : d.btermModNets.Within d.bterms d.modNets
  modITermNets : d.modITermNets.Within d.modITerms d.modNets
  modBTermNets : d.modBTermNets.Within d.modBTerms d.modNets

theorem wellFormed_empty (name : String) : (empty name).WellFormed where
  insts := Table.valid_empty
  iterms := Table.valid_empty
  bterms := Table.valid_empty
  nets := Table.valid_empty
  modules := Table.valid_empty.insert _
  modInsts := Table.valid_empty
  modITerms := Table.valid_empty
  modBTerms := Table.valid_empty
  modNets := Table.valid_empty
  instNames := Table.distinct_empty _
  itermNames := Table.distinct_empty _
  btermNames := Table.distinct_empty _
  netNames := Table.distinct_empty _
  moduleNames := (Table.distinct_empty _).insert fun _ _ h => by cases h
  modInstNames := Table.distinct_empty _
  modITermNames := Table.distinct_empty _
  modBTermNames := Table.distinct_empty _
  modNetNames := Table.distinct_empty _
  oneInstance := Table.distinct_empty _
  topModule := List.mem_singleton_self _
  topFree _ _ h := by cases h
  instModule := Table.owned_empty _ _
  itermInst := Table.owned_empty _ _
  modInstParent := Table.owned_empty _ _
  modInstMaster := Table.owned_empty _ _
  modITermModInst := Table.owned_empty _ _
  modBTermModule := Table.owned_empty _ _
  modNetModule := Table.owned_empty _ _
  itermNets := Attachments.within_empty _ _
  itermModNets := Attachments.within_empty _ _
  btermNets := Attachments.within_empty _ _
  btermModNets := Attachments.within_empty _ _
  modITermNets := Attachments.within_empty _ _
  modBTermNets := Attachments.within_empty _ _

namespace WellFormed

variable {d d' : Design} {name : String}

theorem createInst (h : d.WellFormed) {master : MasterId} {terms : List (MTermId × MTerm)}
    {module? : Option ModuleId} {id : InstId} (hterms : (terms.map (·.2.name)).Nodup)
    (e : d.createInst name master terms module? = .ok (id, d')) : d'.WellFormed := by
  obtain ⟨hnew, hmod, hid, rfl⟩ := createInst_ok e
  have hfresh : id ∉ d.insts.ids := hid ▸ h.insts.fresh _
  have hkeys : (terms.map fun e => (id, e.2.name)).Nodup :=
    List.Nodup.of_map Prod.snd (by rwa [List.map_map])
  exact { h with
    insts := h.insts.insert _
    iterms := h.iterms.insertAll _ _
    instNames := h.instNames.insert fun _ _ hx => by simpa using Table.not_of_firstWhere? hnew hx
    itermNames := h.itermNames.insertAll hkeys fun x b hx e' _ exy => by
      have hinst : b.inst = id := congrArg Prod.fst exy
      exact hfresh (hinst ▸ h.itermInst hx)
    instModule := h.instModule.insert hmod
    itermInst := (h.itermInst.insertOwner _).insertAll fun _ _ => by
      rw [h.insts.ids_insert, hid]
      exact List.mem_append_right _ (List.mem_singleton_self _)
    itermNets := h.itermNets.insertTerms _
    itermModNets := h.itermModNets.insertTerms _ }

theorem createNet (h : d.WellFormed) {id : NetId} (e : d.createNet name = .ok (id, d')) :
    d'.WellFormed := by
  obtain ⟨hnew, -, rfl⟩ := createNet_ok e
  exact { h with
    nets := h.nets.insert _
    netNames := h.netNames.insert fun _ _ hx => by simpa using Table.not_of_firstWhere? hnew hx
    itermNets := h.itermNets.insertNet _
    btermNets := h.btermNets.insertNet _ }

theorem createBTerm (h : d.WellFormed) {net? : Option NetId} {id : BTermId}
    (e : d.createBTerm name net? = .ok (id, d')) : d'.WellFormed := by
  obtain ⟨hnew, hid, e⟩ := createBTerm_ok e
  have hnames : (d.bterms.insert { name }).2.Distinct (·.name) :=
    h.btermNames.insert fun _ _ hx => by simpa using Table.not_of_firstWhere? hnew hx
  have hin : id ∈ (d.bterms.insert { name }).2.ids := by
    rw [h.bterms.ids_insert, hid]
    exact List.mem_append_right _ (List.mem_singleton_self _)
  rcases net? with _ | net
  · obtain rfl : d' = { d with bterms := (d.bterms.insert { name }).2 } := e
    exact { h with
      bterms := h.bterms.insert _
      btermNames := hnames
      btermNets := h.btermNets.insertTerm _
      btermModNets := h.btermModNets.insertTerm _ }
  · obtain ⟨hnet, rfl⟩ := e
    exact { h with
      bterms := h.bterms.insert _
      btermNames := hnames
      btermNets := (h.btermNets.insertTerm _).attach hin hnet
      btermModNets := h.btermModNets.insertTerm _ }

theorem createModule (h : d.WellFormed) {id : ModuleId} (e : d.createModule name = .ok (id, d')) :
    d'.WellFormed := by
  obtain ⟨hnew, -, rfl⟩ := createModule_ok e
  exact { h with
    modules := h.modules.insert _
    moduleNames := h.moduleNames.insert fun _ _ hx => by
      simpa using Table.not_of_firstWhere? hnew hx
    topModule := Table.mem_ids_insert h.topModule
    instModule := h.instModule.insertOwner _
    modInstParent := h.modInstParent.insertOwner _
    modInstMaster := h.modInstMaster.insertOwner _
    modBTermModule := h.modBTermModule.insertOwner _
    modNetModule := h.modNetModule.insertOwner _ }

theorem createModInst (h : d.WellFormed) {parent master : ModuleId} {id : ModInstId}
    (e : d.createModInst parent master name = .ok (id, d')) : d'.WellFormed := by
  obtain ⟨htop, hparent, hmaster, hfree, hnew, -, rfl⟩ := createModInst_ok e
  exact { h with
    modInsts := h.modInsts.insert _
    modInstNames := h.modInstNames.insert fun _ _ hx => by
      simpa using Table.not_of_firstWhere? hnew hx
    oneInstance := h.oneInstance.insert fun _ _ hx => by
      simpa using Table.not_of_firstWhere? hfree hx
    topFree := fun i a hi => by
      rw [Table.find?_insert] at hi
      split at hi
      · cases hi
        exact htop
      · exact h.topFree hi
    modInstParent := h.modInstParent.insert hparent
    modInstMaster := h.modInstMaster.insert hmaster
    modITermModInst := h.modITermModInst.insertOwner _ }

theorem createModITerm (h : d.WellFormed) {modInst : ModInstId} {id : ModITermId}
    (e : d.createModITerm modInst name = .ok (id, d')) : d'.WellFormed := by
  obtain ⟨hinst, hnew, -, rfl⟩ := createModITerm_ok e
  exact { h with
    modITerms := h.modITerms.insert _
    modITermNames := h.modITermNames.insert fun _ _ hx => by
      simpa using Table.not_of_firstWhere? hnew hx
    modITermModInst := h.modITermModInst.insert hinst
    modITermNets := h.modITermNets.insertTerm _ }

theorem createModBTerm (h : d.WellFormed) {module : ModuleId} {id : ModBTermId}
    (e : d.createModBTerm module name = .ok (id, d')) : d'.WellFormed := by
  obtain ⟨hmod, hnew, -, rfl⟩ := createModBTerm_ok e
  exact { h with
    modBTerms := h.modBTerms.insert _
    modBTermNames := h.modBTermNames.insert fun _ _ hx => by
      simpa using Table.not_of_firstWhere? hnew hx
    modBTermModule := h.modBTermModule.insert hmod
    modBTermNets := h.modBTermNets.insertTerm _ }

theorem createModNet (h : d.WellFormed) {module : ModuleId} {id : ModNetId}
    (e : d.createModNet module name = .ok (id, d')) : d'.WellFormed := by
  obtain ⟨hmod, hnew, -, rfl⟩ := createModNet_ok e
  exact { h with
    modNets := h.modNets.insert _
    modNetNames := h.modNetNames.insert fun _ _ hx => by
      simpa using Table.not_of_firstWhere? hnew hx
    modNetModule := h.modNetModule.insert hmod
    itermModNets := h.itermModNets.insertNet _
    btermModNets := h.btermModNets.insertNet _
    modITermNets := h.modITermNets.insertNet _
    modBTermNets := h.modBTermNets.insertNet _ }

theorem setNetSig (h : d.WellFormed) (id : NetId) (sig : SigType) :
    (d.setNetSig id sig).WellFormed :=
  { h with
    nets := h.nets.modify _ _
    netNames := h.netNames.modify _ fun _ => rfl
    itermNets := h.itermNets.modifyNet _ _
    btermNets := h.btermNets.modifyNet _ _ }

theorem setNetSpecial (h : d.WellFormed) (id : NetId) (special : Bool) :
    (d.setNetSpecial id special).WellFormed :=
  { h with
    nets := h.nets.modify _ _
    netNames := h.netNames.modify _ fun _ => rfl
    itermNets := h.itermNets.modifyNet _ _
    btermNets := h.btermNets.modifyNet _ _ }

theorem setBTermTypes (h : d.WellFormed) (id : BTermId) (sig : SigType) (io : IoType) :
    (d.setBTermTypes id sig io).WellFormed :=
  { h with
    bterms := h.bterms.modify _ _
    btermNames := h.btermNames.modify _ fun _ => rfl
    btermNets := h.btermNets.modifyTerm _ _
    btermModNets := h.btermModNets.modifyTerm _ _ }

theorem setModBTermTypes (h : d.WellFormed) (id : ModBTermId) (sig : SigType) (io : IoType) :
    (d.setModBTermTypes id sig io).WellFormed :=
  { h with
    modBTerms := h.modBTerms.modify _ _
    modBTermNames := h.modBTermNames.modify _ fun _ => rfl
    modBTermModule := h.modBTermModule.modify _ fun _ => rfl
    modBTermNets := h.modBTermNets.modifyTerm _ _ }

theorem setFlag (h : d.WellFormed) (flag : String) (value : Bool) :
    (d.setFlag flag value).WellFormed := { h with }

theorem rebind (h : d.WellFormed) (inst : InstId) (master : MasterId)
    (terms : List (MTermId × MTerm)) : (d.rebind inst master terms).WellFormed := by
  obtain ⟨f, hf, hiterms⟩ := d.exists_rebind_iterms inst master terms
  have hmoved {n : Kind} {β : Type} {a : Attachments .iterm n} {ns : Table n β}
      (ha : a.Within d.iterms ns) : a.Within (d.rebind inst master terms).iterms ns :=
    hiterms ▸ ha.modifyTerms _ f
  exact { h with
    insts := h.insts.modify _ _
    iterms := hiterms ▸ h.iterms.modifyWhere _ f
    instNames := h.instNames.modify _ fun _ => rfl
    itermNames := hiterms ▸ h.itermNames.modifyWhere _ fun a => by rw [(hf a).1, (hf a).2]
    instModule := h.instModule.modify _ fun _ => rfl
    itermInst := hiterms ▸ (h.itermInst.modifyOwner _ _).modifyWhere _ fun a => (hf a).1
    itermNets := hmoved h.itermNets
    itermModNets := hmoved h.itermModNets }

theorem attachITerm (h : d.WellFormed) (t : ITermId) (n : NetId) : (d.attachITerm t n).WellFormed :=
  { h with itermNets := h.itermNets.move t n }

theorem attachITermToModNet (h : d.WellFormed) (t : ITermId) (n : ModNetId) :
    (d.attachITermToModNet t n).WellFormed := { h with itermModNets := h.itermModNets.move t n }

theorem attachBTerm (h : d.WellFormed) (t : BTermId) (n : NetId) : (d.attachBTerm t n).WellFormed :=
  { h with btermNets := h.btermNets.move t n }

theorem attachBTermToModNet (h : d.WellFormed) (t : BTermId) (n : ModNetId) :
    (d.attachBTermToModNet t n).WellFormed := { h with btermModNets := h.btermModNets.move t n }

theorem attachModITerm (h : d.WellFormed) (t : ModITermId) (n : ModNetId) :
    (d.attachModITerm t n).WellFormed := { h with modITermNets := h.modITermNets.move t n }

theorem attachModBTerm (h : d.WellFormed) (t : ModBTermId) (n : ModNetId) :
    (d.attachModBTerm t n).WellFormed := { h with modBTermNets := h.modBTermNets.move t n }

theorem detachITerm (h : d.WellFormed) (t : ITermId) : (d.detachITerm t).WellFormed :=
  { h with itermNets := h.itermNets.detach t, itermModNets := h.itermModNets.detach t }

theorem detachBTerm (h : d.WellFormed) (t : BTermId) : (d.detachBTerm t).WellFormed :=
  { h with btermNets := h.btermNets.detach t, btermModNets := h.btermModNets.detach t }

theorem detachModITerm (h : d.WellFormed) (t : ModITermId) : (d.detachModITerm t).WellFormed :=
  { h with modITermNets := h.modITermNets.detach t }

theorem detachModBTerm (h : d.WellFormed) (t : ModBTermId) : (d.detachModBTerm t).WellFormed :=
  { h with modBTermNets := h.modBTermNets.detach t }

theorem destroyInst (h : d.WellFormed) {id : InstId} (e : d.destroyInst id = .ok d') :
    d'.WellFormed := by
  obtain ⟨-, rfl⟩ := destroyInst_ok e
  exact { h with
    insts := h.insts.erase _
    iterms := h.iterms.eraseAll _
    instNames := h.instNames.erase _
    itermNames := h.itermNames.eraseAll _
    instModule := h.instModule.erase _
    itermInst := h.itermInst.eraseOwner fun x a hx ha =>
      h.iterms.mem_map_select.2 ⟨a, hx, decide_eq_true ha⟩
    itermNets := h.itermNets.eraseTerms _
    itermModNets := h.itermModNets.eraseTerms _ }

theorem destroyNet (h : d.WellFormed) {id : NetId} (e : d.destroyNet id = .ok d') :
    d'.WellFormed := by
  obtain ⟨-, rfl⟩ := destroyNet_ok e
  exact { h with
    nets := h.nets.erase _
    netNames := h.netNames.erase _
    itermNets := h.itermNets.clearNet _
    btermNets := h.btermNets.clearNet _ }

theorem destroyBTerm (h : d.WellFormed) {id : BTermId} (e : d.destroyBTerm id = .ok d') :
    d'.WellFormed := by
  obtain ⟨-, rfl⟩ := destroyBTerm_ok e
  exact { h with
    bterms := h.bterms.erase _
    btermNames := h.btermNames.erase _
    btermNets := h.btermNets.eraseTerm _
    btermModNets := h.btermModNets.eraseTerm _ }

theorem destroyModInst (h : d.WellFormed) {id : ModInstId} (e : d.destroyModInst id = .ok d') :
    d'.WellFormed := by
  obtain ⟨-, rfl⟩ := destroyModInst_ok e
  exact { h with
    modInsts := h.modInsts.erase _
    modITerms := h.modITerms.eraseAll _
    modInstNames := h.modInstNames.erase _
    modITermNames := h.modITermNames.eraseAll _
    oneInstance := h.oneInstance.erase _
    topFree := fun i a hi => by
      rw [Table.find?_erase] at hi
      split at hi
      · cases hi
      · exact h.topFree hi
    modInstParent := h.modInstParent.erase _
    modInstMaster := h.modInstMaster.erase _
    modITermModInst := h.modITermModInst.eraseOwner fun x a hx ha =>
      h.modITerms.mem_map_select.2 ⟨a, hx, decide_eq_true ha⟩
    modITermNets := h.modITermNets.eraseTerms _ }

theorem destroyModITerm (h : d.WellFormed) {id : ModITermId} (e : d.destroyModITerm id = .ok d') :
    d'.WellFormed := by
  obtain ⟨-, rfl⟩ := destroyModITerm_ok e
  exact { h with
    modITerms := h.modITerms.erase _
    modITermNames := h.modITermNames.erase _
    modITermModInst := h.modITermModInst.erase _
    modITermNets := h.modITermNets.eraseTerm _ }

theorem destroyModBTerm (h : d.WellFormed) {id : ModBTermId} (e : d.destroyModBTerm id = .ok d') :
    d'.WellFormed := by
  obtain ⟨-, rfl⟩ := destroyModBTerm_ok e
  exact { h with
    modBTerms := h.modBTerms.erase _
    modBTermNames := h.modBTermNames.erase _
    modBTermModule := h.modBTermModule.erase _
    modBTermNets := h.modBTermNets.eraseTerm _ }

theorem destroyModNet (h : d.WellFormed) {id : ModNetId} (e : d.destroyModNet id = .ok d') :
    d'.WellFormed := by
  obtain ⟨-, rfl⟩ := destroyModNet_ok e
  exact { h with
    modNets := h.modNets.erase _
    modNetNames := h.modNetNames.erase _
    modNetModule := h.modNetModule.erase _
    itermModNets := h.itermModNets.clearNet _
    btermModNets := h.btermModNets.clearNet _
    modITermNets := h.modITermNets.clearNet _
    modBTermNets := h.modBTermNets.clearNet _ }

end WellFormed
end DesignView.Design
