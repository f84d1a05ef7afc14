import DesignView.Physical.Database
import DesignView.Proofs.Except
import DesignView.Proofs.Physical.Reference

/-!
What an accepted edit of the database has checked, and what it has done. Later proofs take an edit
apart by these statements and do not open it again.
-/

namespace DesignView

theorem requireNew_eq_ok {taken : Bool} {name scope : String} {u : Unit} :
    requireNew taken name scope = .ok u ↔ taken = false := by
  cases taken <;> simp [requireNew]

namespace Table

variable {k : Kind} {α : Type}

theorem known_eq_ok {t : Table k α} {id : Id k} {a : α} :
    t.known id = .ok a ↔ t.find? id = some a := by
  unfold known
  split
  · next e => rw [e, Except.ok.injEq, Option.some.injEq]
  · next e => simp [e]

theorem fetch_eq_ok {t : Table k α} {id : Id k} {a : α} :
    t.fetch id = .ok a ↔ t.find? id = some a := by
  unfold fetch
  split
  · next e => rw [e, Except.ok.injEq, Option.some.injEq]
  · next e => simp [e]

theorem requireLive_eq_ok {t : Table k α} {id : Id k} {u : Unit} :
    t.requireLive id = .ok u ↔ id ∈ t.ids := by
  rw [← contains_iff]
  unfold requireLive
  split <;> simp_all

theorem not_of_firstWhere? {t : Table k α} {p : α → Bool}
    (h : (t.firstWhere? p).isSome = false) {id : Id k} {a : α} (ha : t.find? id = some a) :
    p a = false := by
  by_contra hp
  obtain ⟨x, hx⟩ := OrderedMap.firstKey?_isSome ha (eq_true_of_ne_false hp)
  rw [firstWhere?, hx] at h
  cases h

end Table

namespace Design

variable {d d' : Design} {name : String}

theorem createInst_ok {master : MasterId} {terms : List (MTermId × MTerm)}
    {module? : Option ModuleId} {id : InstId}
    (h : d.createInst name master terms module? = .ok (id, d')) :
    (d.instNamed? name).isSome = false ∧ module?.getD d.topModule ∈ d.modules.ids ∧
      id = (d.insts.insert ⟨name, master, module?.getD d.topModule⟩).1 ∧
      d' = { d with
        insts := (d.insts.insert ⟨name, master, module?.getD d.topModule⟩).2
        iterms := d.iterms.insertAll (fun e => ⟨e.2.name, id, e.1⟩) terms } := by
  obtain ⟨_, hnew, h⟩ := bind_eq_ok.1 h
  obtain ⟨_, hmod, h⟩ := bind_eq_ok.1 h
  cases pure_eq_ok.1 h
  exact ⟨requireNew_eq_ok.1 hnew, Table.mem_ids_of_find? (Table.known_eq_ok.1 hmod), rfl, rfl⟩

theorem createNet_ok {id : NetId} (h : d.createNet name = .ok (id, d')) :
    (d.netNamed? name).isSome = false ∧ id = (d.nets.insert { name }).1 ∧
      d' = { d with nets := (d.nets.insert { name }).2 } := by
  obtain ⟨_, hnew, h⟩ := bind_eq_ok.1 h
  cases pure_eq_ok.1 h
  exact ⟨requireNew_eq_ok.1 hnew, rfl, rfl⟩

theorem createBTerm_ok {net? : Option NetId} {id : BTermId}
    (h : d.createBTerm name net? = .ok (id, d')) :
    (d.btermNamed? name).isSome = false ∧ id = (d.bterms.insert { name }).1 ∧
      match net? with
      | none => d' = { d with bterms := (d.bterms.insert { name }).2 }
      | some net => net ∈ d.nets.ids ∧ d' = { d with
          bterms := (d.bterms.insert { name }).2
          btermNets := d.btermNets.attach id net } := by
  obtain ⟨_, hnew, h⟩ := bind_eq_ok.1 h
  cases net? with
  | none =>
    cases pure_eq_ok.1 h
    exact ⟨requireNew_eq_ok.1 hnew, rfl, rfl⟩
  | some net =>
    obtain ⟨_, hnet, h⟩ := bind_eq_ok.1 h
    cases pure_eq_ok.1 h
    exact ⟨requireNew_eq_ok.1 hnew, rfl, Table.mem_ids_of_find? (Table.known_eq_ok.1 hnet), rfl⟩

theorem createModule_ok {id : ModuleId} (h : d.createModule name = .ok (id, d')) :
    (d.moduleNamed? name).isSome = false ∧ id = (d.modules.insert ⟨name⟩).1 ∧
      d' = { d with modules := (d.modules.insert ⟨name⟩).2 } := by
  obtain ⟨_, hnew, h⟩ := bind_eq_ok.1 h
  cases pure_eq_ok.1 h
  exact ⟨requireNew_eq_ok.1 hnew, rfl, rfl⟩

theorem createModInst_ok {parent master : ModuleId} {id : ModInstId}
    (h : d.createModInst parent master name = .ok (id, d')) :
    master ≠ d.topModule ∧ parent ∈ d.modules.ids ∧ master ∈ d.modules.ids ∧
      (d.instanceOf? master).isSome = false ∧ (d.modInstNamed? parent name).isSome = false ∧
      id = (d.modInsts.insert ⟨name, parent, master⟩).1 ∧
      d' = { d with modInsts := (d.modInsts.insert ⟨name, parent, master⟩).2 } := by
  by_cases htop : master = d.topModule
  · simp only [createModInst, htop, if_true] at h
    cases h
  · simp only [createModInst, htop, if_false] at h
    obtain ⟨_, hp, h⟩ := bind_eq_ok.1 h
    obtain ⟨_, hm, h⟩ := bind_eq_ok.1 h
    by_cases hinst : (d.instanceOf? master).isSome = true
    · simp only [hinst, if_true] at h
      cases h
    · simp only [hinst] at h
      obtain ⟨_, hnew, h⟩ := bind_eq_ok.1 h
      cases pure_eq_ok.1 h
      exact ⟨htop, Table.mem_ids_of_find? (Table.known_eq_ok.1 hp),
        Table.mem_ids_of_find? (Table.known_eq_ok.1 hm), eq_false_of_ne_true hinst,
        requireNew_eq_ok.1 hnew, rfl, rfl⟩

theorem exists_createModInst {parent master : ModuleId} (htop : master ≠ d.topModule)
    (hparent : parent ∈ d.modules.ids) (hmaster : master ∈ d.modules.ids)
    (hnone : d.instanceOf? master = none) (hname : d.modInstNamed? parent name = none) :
    ∃ made, d.createModInst parent master name = .ok made := by
  obtain ⟨p, hp⟩ := Table.mem_ids_iff.1 hparent
  obtain ⟨m, hm⟩ := Table.mem_ids_iff.1 hmaster
  have hnew : requireNew (d.modInstNamed? parent name).isSome name p.name = .ok () :=
    requireNew_eq_ok.2 (by simp [hname])
  simp only [createModInst, if_neg htop, hnone, Option.isSome_none, Bool.false_eq_true, if_false]
  exact ⟨_, bind_eq_ok.2 ⟨p, Table.known_eq_ok.2 hp, bind_eq_ok.2 ⟨m, Table.known_eq_ok.2 hm,
    bind_eq_ok.2 ⟨(), hnew, rfl⟩⟩⟩⟩

theorem createModITerm_ok {modInst : ModInstId} {id : ModITermId}
    (h : d.createModITerm modInst name = .ok (id, d')) :
    modInst ∈ d.modInsts.ids ∧ (d.modITermNamed? modInst name).isSome = false ∧
      id = (d.modITerms.insert ⟨name, modInst⟩).1 ∧
      d' = { d with modITerms := (d.modITerms.insert ⟨name, modInst⟩).2 } := by
  obtain ⟨_, hi, h⟩ := bind_eq_ok.1 h
  obtain ⟨_, hnew, h⟩ := bind_eq_ok.1 h
  cases pure_eq_ok.1 h
  exact ⟨Table.mem_ids_of_find? (Table.known_eq_ok.1 hi), requireNew_eq_ok.1 hnew, rfl, rfl⟩

theorem createModBTerm_ok {module : ModuleId} {id : ModBTermId}
    (h : d.createModBTerm module name = .ok (id, d')) :
    module ∈ d.modules.ids ∧ (d.modBTermNamed? module name).isSome = false ∧
      id = (d.modBTerms.insert { name, module }).1 ∧
      d' = { d with modBTerms := (d.modBTerms.insert { name, module }).2 } := by
  obtain ⟨_, hm, h⟩ := bind_eq_ok.1 h
  obtain ⟨_, hnew, h⟩ := bind_eq_ok.1 h
  cases pure_eq_ok.1 h
  exact ⟨Table.mem_ids_of_find? (Table.known_eq_ok.1 hm), requireNew_eq_ok.1 hnew, rfl, rfl⟩

theorem createModNet_ok {module : ModuleId} {id : ModNetId}
    (h : d.createModNet module name = .ok (id, d')) :
    module ∈ d.modules.ids ∧ (d.modNetNamed? module name).isSome = false ∧
      id = (d.modNets.insert ⟨name, module⟩).1 ∧
      d' = { d with modNets := (d.modNets.insert ⟨name, module⟩).2 } := by
  obtain ⟨_, hm, h⟩ := bind_eq_ok.1 h
  obtain ⟨_, hnew, h⟩ := bind_eq_ok.1 h
  cases pure_eq_ok.1 h
  exact ⟨Table.mem_ids_of_find? (Table.known_eq_ok.1 hm), requireNew_eq_ok.1 hnew, rfl, rfl⟩

theorem exists_rebind_iterms (d : Design) (inst : InstId) (master : MasterId)
    (terms : List (MTermId × MTerm)) : ∃ f, (∀ a, (f a).inst = a.inst ∧ (f a).name = a.name) ∧
      (d.rebind inst master terms).iterms = d.iterms.modifyWhere (fun t => t.inst = inst) f := by
  dsimp only [rebind]
  refine ⟨_, fun a => ?_, rfl⟩
  split <;> exact ⟨rfl, rfl⟩

theorem destroyInst_ok {id : InstId} (h : d.destroyInst id = .ok d') :
    id ∈ d.insts.ids ∧ d' = { d with
      insts := d.insts.erase id
      iterms := d.iterms.eraseAll ((d.itermsOf id).map (·.1))
      itermNets := d.itermNets.detachAll ((d.itermsOf id).map (·.1))
      itermModNets := d.itermModNets.detachAll ((d.itermsOf id).map (·.1)) } := by
  obtain ⟨_, hlive, h⟩ := bind_eq_ok.1 h
  exact ⟨Table.requireLive_eq_ok.1 hlive, (pure_eq_ok.1 h).symm⟩

theorem destroyNet_ok {id : NetId} (h : d.destroyNet id = .ok d') :
    id ∈ d.nets.ids ∧ d' = { d with
      nets := d.nets.erase id
      itermNets := d.itermNets.clearNet id
      btermNets := d.btermNets.clearNet id } := by
  obtain ⟨_, hlive, h⟩ := bind_eq_ok.1 h
  exact ⟨Table.requireLive_eq_ok.1 hlive, (pure_eq_ok.1 h).symm⟩

theorem destroyBTerm_ok {id : BTermId} (h : d.destroyBTerm id = .ok d') :
    id ∈ d.bterms.ids ∧ d' = { d.detachBTerm id with bterms := d.bterms.erase id } := by
  obtain ⟨_, hlive, h⟩ := bind_eq_ok.1 h
  exact ⟨Table.requireLive_eq_ok.1 hlive, (pure_eq_ok.1 h).symm⟩

theorem destroyModInst_ok {id : ModInstId} (h : d.destroyModInst id = .ok d') :
    id ∈ d.modInsts.ids ∧ d' = { d with
      modInsts := d.modInsts.erase id
      modITerms := d.modITerms.eraseAll ((d.modITermsOf id).map (·.1))
      modITermNets := d.modITermNets.detachAll ((d.modITermsOf id).map (·.1)) } := by
  obtain ⟨_, hlive, h⟩ := bind_eq_ok.1 h
  exact ⟨Table.requireLive_eq_ok.1 hlive, (pure_eq_ok.1 h).symm⟩

theorem destroyModITerm_ok {id : ModITermId} (h : d.destroyModITerm id = .ok d') :
    id ∈ d.modITerms.ids ∧
      d' = { d.detachModITerm id with modITerms := d.modITerms.erase id } := by
  obtain ⟨_, hlive, h⟩ := bind_eq_ok.1 h
  exact ⟨Table.requireLive_eq_ok.1 hlive, (pure_eq_ok.1 h).symm⟩

theorem destroyModBTerm_ok {id : ModBTermId} (h : d.destroyModBTerm id = .ok d') :
    id ∈ d.modBTerms.ids ∧
      d' = { d.detachModBTerm id with modBTerms := d.modBTerms.erase id } := by
  obtain ⟨_, hlive, h⟩ := bind_eq_ok.1 h
  exact ⟨Table.requireLive_eq_ok.1 hlive, (pure_eq_ok.1 h).symm⟩

theorem destroyModNet_ok {id : ModNetId} (h : d.destroyModNet id = .ok d') :
    id ∈ d.modNets.ids ∧ d' = { d with
      modNets := d.modNets.erase id
      itermModNets := d.itermModNets.clearNet id
      btermModNets := d.btermModNets.clearNet id
      modITermNets := d.modITermNets.clearNet id
      modBTermNets := d.modBTermNets.clearNet id } := by
  obtain ⟨_, hlive, h⟩ := bind_eq_ok.1 h
  exact ⟨Table.requireLive_eq_ok.1 hlive, (pure_eq_ok.1 h).symm⟩

end Design

namespace Database

variable {db db' : Database} {name : String}

theorem createLib_ok {id : LibId} (h : db.createLib name = .ok (id, db')) :
    (db.libNamed? name).isSome = false ∧ db' = { db with libs := (db.libs.insert ⟨name⟩).2 } := by
  obtain ⟨_, hnew, h⟩ := bind_eq_ok.1 h
  cases pure_eq_ok.1 h
  exact ⟨requireNew_eq_ok.1 hnew, rfl⟩

theorem createMaster_ok {lib : LibId} {id : MasterId}
    (h : db.createMaster lib name = .ok (id, db')) :
    lib ∈ db.libs.ids ∧ (db.masterIn? lib name).isSome = false ∧
      db' = { db with masters := (db.masters.insert ⟨name, lib⟩).2 } := by
  obtain ⟨_, hl, h⟩ := bind_eq_ok.1 h
  obtain ⟨_, hnew, h⟩ := bind_eq_ok.1 h
  cases pure_eq_ok.1 h
  exact ⟨Table.mem_ids_of_find? (Table.known_eq_ok.1 hl), requireNew_eq_ok.1 hnew, rfl⟩

theorem createMTerm_ok {master : MasterId} {sig : SigType} {io : IoType} {id : MTermId}
    (h : db.createMTerm master name sig io = .ok (id, db')) :
    master ∈ db.masters.ids ∧ (db.mtermNamed? master name).isSome = false ∧
      db' = { db with mterms := (db.mterms.insert ⟨name, master, sig, io⟩).2 } := by
  obtain ⟨_, hm, h⟩ := bind_eq_ok.1 h
  obtain ⟨_, hnew, h⟩ := bind_eq_ok.1 h
  cases pure_eq_ok.1 h
  exact ⟨Table.mem_ids_of_find? (Table.known_eq_ok.1 hm), requireNew_eq_ok.1 hnew, rfl⟩

theorem createDesign_ok {d : Design} (h : db.createDesign name = .ok (d, db')) :
    db.design? = none ∧ d = Design.empty name ∧
      db' = { db with design? := some (Design.empty name) } := by
  unfold createDesign at h
  split at h
  · cases h
  · next e =>
    cases h
    exact ⟨e, rfl, rfl⟩

theorem design_eq_ok {d : Design} : db.design = .ok d ↔ db.design? = some d := by
  unfold design
  split
  · next e => rw [e, Except.ok.injEq, Option.some.injEq]
  · next e => simp [e]

theorem createInst_ok {master : MasterId} {module? : Option ModuleId} {id : InstId}
    (h : db.createInst master name module? = .ok (id, db')) :
    master ∈ db.masters.ids ∧ ∃ d d', db.design? = some d ∧
      d.createInst name master (db.mtermsOf master) module? = .ok (id, d') ∧
      db' = { db with design? := some d' } := by
  obtain ⟨_, hm, h⟩ := bind_eq_ok.1 h
  obtain ⟨d, hd, h⟩ := bind_eq_ok.1 h
  obtain ⟨⟨a, d'⟩, hedit, h⟩ := bind_eq_ok.1 h
  cases pure_eq_ok.1 h
  exact ⟨Table.mem_ids_of_find? (Table.known_eq_ok.1 hm), d, d', design_eq_ok.1 hd, hedit, rfl⟩

theorem swapMaster_ok {inst : InstId} {master : MasterId}
    (h : db.swapMaster inst master = .ok db') :
    ∃ d i, db.design? = some d ∧ d.insts.find? inst = some i ∧ master ∈ db.masters.ids ∧
      db.sameTerminals i.master master = true ∧
      db' = { db with design? := some (d.rebind inst master (db.mtermsOf master)) } := by
  obtain ⟨d, hd, h⟩ := bind_eq_ok.1 h
  obtain ⟨i, hi, h⟩ := bind_eq_ok.1 h
  obtain ⟨_, hm, h⟩ := bind_eq_ok.1 h
  obtain ⟨_, _, h⟩ := bind_eq_ok.1 h
  refine ⟨d, i, design_eq_ok.1 hd, Table.known_eq_ok.1 hi,
    Table.mem_ids_of_find? (Table.known_eq_ok.1 hm), ?_⟩
  split at h
  · next e => exact ⟨e, (pure_eq_ok.1 h).symm⟩
  · cases h

end Database
end DesignView
