import DesignView.Proofs.Records.Drawn

/-!
Creating objects in records.
-/

namespace DesignView.Design

open InPlace (Carries)
open Records (Block Index Link Scope)

variable {d : Design}

theorem createNet_carries (h : d.WellFormed) (name : String) :
    Carries records d (Block.createNet name) (d.createNet name) := by
  have hdead : (d.nets.insert { name }).1 ∉ d.nets.ids := h.nets.fresh _
  apply Index.create_carries (ρ := records) (s := d) .nets (·.name) { name } h.nets rfl rfl _ rfl
  simp only [netRecord, h.itermNets.members_of_dead hdead, h.btermNets.members_of_dead hdead]

theorem createModule_carries (h : d.WellFormed) (name : String) :
    Carries records d (Block.createModule name) (d.createModule name) := by
  have hdead : (d.modules.insert ⟨name⟩).1 ∉ d.modules.ids := h.modules.fresh _
  apply Index.create_carries (ρ := records) (s := d) .modules (·.name) ⟨name⟩ h.modules rfl rfl _
    rfl
  simp only [moduleRecord, instanceOf?, instsIn,
    h.modInstMaster.firstWhere?_of_dead h.modInsts hdead,
    h.instModule.idsWhere_of_dead h.insts hdead, h.modInstParent.names_of_dead h.modInsts hdead,
    h.modBTermModule.names_of_dead h.modBTerms hdead,
    h.modNetModule.names_of_dead h.modNets hdead]

theorem createModITerm_carries (h : d.WellFormed) (modInst : ModInstId) (name : String) :
    Carries records d (Block.createModITerm modInst name) (d.createModITerm modInst name) := by
  have hdead : (d.modITerms.insert ⟨name, modInst⟩).1 ∉ d.modITerms.ids := h.modITerms.fresh _
  apply Scope.create_carries (ρ := records) (s := d) .modITerms (·.modInst) (·.name) ⟨name, modInst⟩
    h.modITerms rfl rfl (fun _ _ => rfl)
    (fun _ _ => rfl) _ rfl
  simp only [modITermRecord, h.modITermNets.netOf_of_dead hdead]

theorem createModBTerm_carries (h : d.WellFormed) (module : ModuleId) (name : String) :
    Carries records d (Block.createModBTerm module name) (d.createModBTerm module name) := by
  have hdead : (d.modBTerms.insert { name, module }).1 ∉ d.modBTerms.ids := h.modBTerms.fresh _
  apply Scope.create_carries (ρ := records) (s := d) .modBTerms (·.module) (·.name) { name, module }
    h.modBTerms rfl rfl (fun _ _ => rfl)
    (fun _ _ => rfl) _ rfl
  simp only [modBTermRecord, h.modBTermNets.netOf_of_dead hdead]

theorem createModNet_carries (h : d.WellFormed) (module : ModuleId) (name : String) :
    Carries records d (Block.createModNet module name) (d.createModNet module name) := by
  have hdead : (d.modNets.insert ⟨name, module⟩).1 ∉ d.modNets.ids := h.modNets.fresh _
  apply Scope.create_carries (ρ := records) (s := d) .modNets (·.module) (·.name) ⟨name, module⟩
    h.modNets rfl rfl (fun _ _ => rfl)
    (fun _ _ => rfl) _ rfl
  simp only [modNetRecord, h.itermModNets.members_of_dead hdead,
    h.btermModNets.members_of_dead hdead, h.modITermNets.members_of_dead hdead,
    h.modBTermNets.members_of_dead hdead]

theorem insert_bterm_records (h : d.WellFormed) {name : String}
    (hnew : (d.btermNamed? name).isSome = false) : { d.records with
      bterms := (d.records.bterms.insert { name }).2
      btermNames := d.records.btermNames.insert name (d.records.bterms.insert { name }).1 } =
    records { d with bterms := (d.bterms.insert { name }).2 } := by
  have hdead : (d.bterms.insert { name }).1 ∉ d.bterms.ids := h.bterms.fresh _
  have hrecord : d.btermRecord (d.bterms.insert { name }).1 { name } = { name } := by
    simp only [btermRecord, h.btermNets.netOf_of_dead hdead, h.btermModNets.netOf_of_dead hdead]
  have hbterms : (d.bterms.insert { name }).2.view d.btermRecord =
      (d.records.bterms.insert { name }).2 := h.bterms.view_insert hrecord fun _ _ _ => rfl
  have hid : (d.records.bterms.insert { name }).1 = (d.bterms.insert { name }).1 :=
    Table.insert_view_fst ..
  have hnames : (d.bterms.insert { name }).2.names (fun _ => true) (·.name) =
      d.records.btermNames.insert name (d.bterms.insert { name }).1 :=
    h.bterms.names_insert fun _ => (Table.contains_names ..).trans hnew
  rw [← hbterms, hid, ← hnames]
  rfl

theorem createBTerm_carries (h : d.WellFormed) (name : String) (net? : Option NetId) :
    Carries records d (Block.createBTerm name net?) (d.createBTerm name net?) := by
  have htaken : d.records.btermNames.contains name = (d.btermNamed? name).isSome :=
    Table.contains_names ..
  have hid : (d.records.bterms.insert { name }).1 = (d.bterms.insert { name }).1 :=
    Table.insert_view_fst ..
  refine .check_same (congrArg (requireNew · name d.name) htaken) fun _ hnew => ?_
  have hmade := insert_bterm_records h (requireNew_eq_ok.1 hnew)
  cases net? with
  | none =>
    show (Except.ok (d.records.bterms.insert { name }).1, _) = _
    rw [hid]
    exact congrArg (Prod.mk _) hmade
  | some net =>
    refine .check (fun _ => ()) ?_ fun _ hnet => ?_
    · exact (Table.requireLive_view ..).trans (Table.requireLive_eq_known ..)
    · have hterm : (d.bterms.insert { name }).2.contains (d.bterms.insert { name }).1 = true :=
        Table.contains_iff.2 (Table.mem_ids_of_find? (Table.find?_insert_self d.bterms { name }))
      have hlive : d.nets.contains net = true :=
        Table.contains_iff.2 (Table.mem_ids_of_find? (Table.known_eq_ok.1 hnet))
      have hmove := (shows_btermNets { d with bterms := (d.bterms.insert { name }).2 }).move
        (h.btermNets.insertTerm { name }) (d.bterms.insert { name }).1 net
      simp only [hterm, hlive] at hmove
      show (Except.ok (d.records.bterms.insert { name }).1, Link.btermNet.connect
        (d.records.bterms.insert { name }).1 net { d.records with
          bterms := (d.records.bterms.insert { name }).2
          btermNames := d.records.btermNames.insert name (d.records.bterms.insert { name }).1 }) = _
      rw [hmade, hid]
      exact congrArg (Prod.mk _) hmove

theorem createModInst_carries (h : d.WellFormed) (parent master : ModuleId) (name : String) :
    Carries records d (Block.createModInst parent master name)
      (d.createModInst parent master name) := by
  rw [createModInst_eq]
  refine .check_same rfl fun _ _ => .check (fun _ => ()) ?_ fun p hp =>
    .check (d.moduleRecord master) (Table.known_view ..) fun m _ => .check_same rfl fun _ hfree =>
      .skip (a := d.moduleRecord parent p) ?_ (.check_same ?_ fun _ hnew => ?_)
  · exact (Table.requireLive_view ..).trans (Table.requireLive_eq_known ..)
  · refine (Table.known_view ..).trans ?_
    rw [hp]
    rfl
  · exact congrArg (requireNew · name p.name) (Table.contains_names ..)
  · obtain ⟨id, hid⟩ : ∃ id, (d.modInsts.insert ⟨name, parent, master⟩).1 = id := ⟨_, rfl⟩
    have hdead : id ∉ d.modInsts.ids := hid ▸ h.modInsts.fresh _
    have hnone : d.instanceOf? master = none := by
      by_contra hsome
      rw [if_pos (Option.isSome_iff_ne_none.2 hsome)] at hfree
      cases hfree
    have hinstance (x : ModuleId) :
        ((d.modInsts.insert ⟨name, parent, master⟩).2.firstWhere? fun i => i.master = x) =
          if x = master then some id else d.instanceOf? x := by
      rw [← hid]
      exact h.modInsts.firstWhere?_insert (·.master) ⟨name, parent, master⟩ hnone x
    have hnames (x : ModuleId) :
        (d.modInsts.insert ⟨name, parent, master⟩).2.names (fun i => i.parent = x) (·.name) =
          if x = parent then (d.modInsts.names (fun i => i.parent = x) (·.name)).insert name id
          else d.modInsts.names (fun i => i.parent = x) (·.name) := by
      rw [← hid]
      exact h.modInsts.namesOf_insert (a := ⟨name, parent, master⟩)
        ((Table.contains_names ..).trans (requireNew_eq_ok.1 hnew)) x
    have hmodInsts : (d.modInsts.insert ⟨name, parent, master⟩).2.view d.modInstRecord =
        (d.records.modInsts.insert { name, parent, master }).2 := by
      refine h.modInsts.view_insert ?_ fun _ _ _ => rfl
      rw [hid]
      simp only [modInstRecord, h.modITermModInst.names_of_dead h.modITerms hdead]
    have hmodules : d.modules.view
          (moduleRecord { d with modInsts := (d.modInsts.insert ⟨name, parent, master⟩).2 }) =
        (d.records.modules.modify master fun m => { m with modInst? := some id }).modify parent
          fun m => { m with modInsts := m.modInsts.insert name id } := by
      refine Eq.trans ?_ (congrArg (Table.modify · parent _) (Table.modify_view ..).symm)
      rw [Table.modify_view]
      congr 1
      funext x m
      simp only [moduleRecord, instanceOf?, hinstance, hnames]
      split <;> split <;> rfl
    have hdrawn : (d.records.modInsts.insert { name, parent, master }).1 = id :=
      (Table.insert_view_fst ..).trans hid
    show (Except.ok (d.records.modInsts.insert { name, parent, master }).1, { d.records with
      modInsts := (d.records.modInsts.insert { name, parent, master }).2
      modules := (d.records.modules.modify master fun m => { m with
          modInst? := some (d.records.modInsts.insert { name, parent, master }).1 }).modify parent
        fun m => { m with modInsts :=
          m.modInsts.insert name (d.records.modInsts.insert { name, parent, master }).1 } }) =
      (Except.ok (d.modInsts.insert ⟨name, parent, master⟩).1,
        records { d with modInsts := (d.modInsts.insert ⟨name, parent, master⟩).2 })
    rw [hdrawn, hid, ← hmodInsts, ← hmodules]
    rfl

def termFor (inst : InstId) (e : MTermId × MTerm) : ITerm := ⟨e.2.name, inst, e.1⟩

theorem exec_addTerms {id : InstId} {f : ITermId → ITerm → Records.ITerm} {ts : Table .iterm ITerm}
    (hts : ts.Valid) {terms : List (MTermId × MTerm)} (hterms : (terms.map (·.2.name)).Nodup)
    (hnew : ∀ e ∈ terms, (ts.names (fun t => t.inst = id) (·.name)).contains e.2.name = false)
    (hf : ∀ x ∉ ts.ids, ∀ e : MTermId × MTerm,
      f x (termFor id e) = { inst := id, mterm := e.1, name := e.2.name }) {b : Block}
    (hb : b.iterms = ts.view f) :
    (Block.addTerms id (terms.map fun e => (e.2.name, e.1))
        (ts.names (fun t => t.inst = id) (·.name))).exec b =
      (.ok ((ts.insertAll (termFor id) terms).names (fun t => t.inst = id) (·.name)),
        Slot.iterms.put ((ts.insertAll (termFor id) terms).view f) b) := by
  induction terms generalizing ts b with
  | nil => exact congrArg (Prod.mk _) (congrArg (Slot.iterms.put · b) hb)
  | cons e terms ih =>
    obtain ⟨hfirst, hrest⟩ := List.nodup_cons.1 hterms
    have hnames : (ts.insert (termFor id e)).2.names (fun t => t.inst = id) (·.name) =
        (ts.names (fun t => t.inst = id) (·.name)).insert e.2.name (ts.insert (termFor id e)).1 :=
      (hts.namesOf_insert (hnew e List.mem_cons_self) id).trans (if_pos rfl)
    have hview : (ts.insert (termFor id e)).2.view f =
        ((ts.view f).insert { inst := id, mterm := e.1, name := e.2.name }).2 :=
      hts.view_insert (hf _ (hts.fresh _) e) fun _ _ _ => rfl
    have hid : ((ts.view f).insert { inst := id, mterm := e.1, name := e.2.name }).1 =
        (ts.insert (termFor id e)).1 := Table.insert_view_fst ..
    have hstep := ih (b := Slot.iterms.put ((ts.insert (termFor id e)).2.view f) b)
      (hts.insert (termFor id e)) hrest (fun e' he' => ?_) (fun x hx => hf x fun hin =>
        hx (hts.ids_insert (termFor id e) ▸ List.mem_append_left _ hin)) rfl
    · rw [hnames, hview, ← hid, ← hb] at hstep
      exact hstep
    · have hne : e'.2.name ≠ e.2.name := fun heq =>
        hfirst (List.mem_map.2 ⟨e', he', heq⟩)
      rw [hnames, OrderedMap.contains_insert_of_ne _ hne]
      exact hnew e' (List.mem_cons_of_mem e he')

theorem enlist_of_not_mem {α : Type} [DecidableEq α] {x : α} {xs : List α} (h : x ∉ xs) :
    Records.enlist x xs = xs ++ [x] := if_neg h

def blank (i : Inst) : Records.Inst := { name := i.name, master := i.master, module := i.module }

def withInst (d : Design) (i : Inst) (id : InstId) (terms : List (MTermId × MTerm)) : Design :=
  { d with
    insts := (d.insts.insert i).2
    iterms := d.iterms.insertAll (termFor id) terms }

theorem withInst_records (h : d.WellFormed) {i : Inst} {id : InstId}
    (terms : List (MTermId × MTerm)) (hid : (d.insts.insert i).1 = id)
    (hnew : (d.instNamed? i.name).isSome = false) :
    (d.withInst i id terms).records = { d.records with
      insts := (d.records.insts.insert (blank i)).2.modify id fun r => { r with
        iterms := (d.withInst i id terms).iterms.names (fun t => t.inst = id) (·.name) }
      instNames := d.records.instNames.insert i.name id
      iterms := (d.withInst i id terms).iterms.view d.itermRecord
      modules := d.records.modules.modify i.module fun m => { m with
        insts := Records.enlist id m.insts } } := by
  have hdead : id ∉ d.insts.ids := hid ▸ h.insts.fresh _
  have hrecord : d.instRecord (d.insts.insert i).1 i = blank i := by
    rw [hid]
    simp only [instRecord, blank, h.itermInst.names_of_dead h.iterms hdead]
  have hview : (d.records.insts.insert (blank i)).2 = (d.insts.insert i).2.view d.instRecord :=
    (h.insts.view_insert hrecord fun _ _ _ => rfl).symm
  have hinsts : (d.insts.insert i).2.view (d.withInst i id terms).instRecord =
      (d.records.insts.insert (blank i)).2.modify id fun r => { r with
        iterms := (d.withInst i id terms).iterms.names (fun t => t.inst = id) (·.name) } := by
    rw [hview, Table.modify_view]
    congr 1
    funext x a
    split
    · next hx => rw [hx]; rfl
    · next hx =>
      have hother : (d.withInst i id terms).iterms.names (fun t => t.inst = x) (·.name) =
          d.iterms.names (fun t => t.inst = x) (·.name) :=
        h.iterms.names_insertAll (fun _ _ => decide_eq_false (Ne.symm hx)) _
      simp only [instRecord, hother]
  have hnames : (d.insts.insert i).2.names (fun _ => true) (·.name) =
      d.records.instNames.insert i.name id :=
    hid ▸ h.insts.names_insert fun _ => (Table.contains_names ..).trans hnew
  have hmodules : d.modules.view (d.withInst i id terms).moduleRecord =
      d.records.modules.modify i.module fun m => { m with
        insts := Records.enlist id m.insts } := by
    refine Eq.trans ?_ (Table.modify_view ..).symm
    congr 1
    funext x m
    have hinsts : (d.withInst i id terms).instsIn x =
        if x = i.module then d.instsIn x ++ [id] else d.instsIn x :=
      hid ▸ h.insts.idsWhere_insert (·.module) i x
    have hfresh : id ∉ d.instsIn x := fun hin =>
      hdead (Table.mem_ids_of_find? (h.insts.mem_map_select.1 hin).choose_spec.1)
    simp only [moduleRecord, hinsts]
    split
    · rw [enlist_of_not_mem hfresh]
      rfl
    · rfl
  rw [← hinsts, ← hnames, ← hmodules]
  rfl

theorem createInst_carries (h : d.WellFormed) (name : String) (master : MasterId)
    {terms : List (MTermId × MTerm)} (hterms : (terms.map (·.2.name)).Nodup)
    (module? : Option ModuleId) :
    Carries records d (Block.createInst name master (terms.map fun e => (e.2.name, e.1)) module?)
      (d.createInst name master terms module?) := by
  have htaken : d.records.instNames.contains name = (d.instNamed? name).isSome :=
    Table.contains_names ..
  refine .check_same (congrArg (requireNew · name d.name) htaken) fun _ hnew => .skip
    (a := module?.getD d.topModule) rfl <| .check (fun _ => ())
      ((Table.requireLive_view ..).trans (Table.requireLive_eq_known ..)) fun _ _ => ?_
  generalize module?.getD d.topModule = module
  obtain ⟨id, hid⟩ : ∃ id, (d.insts.insert ⟨name, master, module⟩).1 = id := ⟨_, rfl⟩
  have hdead : id ∉ d.insts.ids := hid ▸ h.insts.fresh _
  have hnone : d.iterms.names (fun t => t.inst = id) (·.name) = {} :=
    h.itermInst.names_of_dead h.iterms hdead _
  have hterm (x : ITermId) (hx : x ∉ d.iterms.ids) (e : MTermId × MTerm) :
      d.itermRecord x (termFor id e) = { inst := id, mterm := e.1, name := e.2.name } := by
    simp only [itermRecord, h.itermNets.netOf_of_dead hx, h.itermModNets.netOf_of_dead hx]
    rfl
  have hadd : (InPlace.add Slot.insts (blank ⟨name, master, module⟩)).exec d.records =
      (.ok id,
        Slot.insts.put (d.records.insts.insert (blank ⟨name, master, module⟩)).2 d.records) :=
    congrArg (fun id => (Except.ok id, _)) ((Table.insert_view_fst ..).trans hid)
  have hloop := exec_addTerms h.iterms hterms (fun _ _ => by rw [hnone]; rfl) hterm
    (b := Slot.insts.put (d.records.insts.insert (blank ⟨name, master, module⟩)).2 d.records) rfl
  rw [hnone] at hloop
  have hmade := withInst_records h terms hid (requireNew_eq_ok.1 hnew)
  show (InPlace.add Slot.insts (blank ⟨name, master, module⟩) >>= _).exec d.records = _
  rw [InPlace.exec_bind, hadd]
  dsimp only
  rw [InPlace.exec_bind, hloop]
  subst hid
  exact congrArg (Prod.mk _) hmade.symm

end DesignView.Design
