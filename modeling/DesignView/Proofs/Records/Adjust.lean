import DesignView.Proofs.Records.Drawn

/-!
Changing records: attributes, connections and the master of an instance.
-/

namespace DesignView

theorem Slot.foldl_modify {σ α β : Type} (x : Slot σ α) (f : α → β → α) (ys : List β) (s : σ) :
    ys.foldl (fun s y => x.modify (f · y) s) s = x.modify (ys.foldl f ·) s := by
  induction ys generalizing s with
  | nil => exact (x.put_get s).symm
  | cons y ys ih => rw [List.foldl_cons, ih, x.modify_modify]; rfl

theorem Table.foldl_modify_view {k : Kind} {α β : Type} (t : Table k α) (f : Id k → α → β)
    {g : β → β} (xs : List (Id k)) (hxs : xs.Nodup) :
    xs.foldl (·.modify · g) (t.view f) = t.view fun x a => if x ∈ xs then g (f x a) else f x a := by
  induction xs generalizing f with
  | nil => simp only [List.foldl_nil, List.not_mem_nil, if_false]
  | cons y xs ih =>
    obtain ⟨hy, hxs⟩ := List.nodup_cons.1 hxs
    rw [List.foldl_cons, modify_view, ih _ hxs]
    congr 1
    funext x a
    by_cases hx : x = y
    · rw [if_neg (hx ▸ hy), if_pos hx, if_pos (List.mem_cons.2 (.inl hx))]
    · simp only [List.mem_cons, hx, false_or, if_false]

theorem Table.modify_of_not_mem {k : Kind} {α : Type} {t : Table k α} {id : Id k} (h : id ∉ t.ids)
    {f : α → α} : t.modify id f = t := by
  have hentries : t.objects.modify id f = t.objects := by
    refine congrArg OrderedMap.mk (Eq.trans (List.map_congr_left fun e he => ?_) (List.map_id _))
    have hne : e.1 ≠ id := fun heq => h (heq ▸ List.mem_map_of_mem he)
    exact if_neg hne
  rw [modify, hentries]

namespace Design

open Records (Block Link)

variable {d : Design}

theorem modify_net_records (d : Design) (id : NetId) {f : FlatNet → FlatNet}
    {g : Records.Net → Records.Net} (hname : ∀ n, (f n).name = n.name)
    (hf : ∀ x n, d.netRecord x (f n) = g (d.netRecord x n)) :
    records { d with nets := d.nets.modify id f } = Slot.nets.modify (·.modify id g) d.records := by
  have hview : (d.nets.modify id f).view d.netRecord = d.records.nets.modify id g :=
    Table.view_modify_eq _ _ hf
  have hnames : (d.nets.modify id f).names (fun _ => true) (·.name) = d.records.netNames :=
    Table.names_modify (p := fun _ => true) (fun _ => rfl) hname id
  show _ = { d.records with nets := d.records.nets.modify id g, netNames := d.records.netNames }
  rw [← hview, ← hnames]
  rfl

theorem modify_bterm_records (d : Design) (id : BTermId) {f : BTerm → BTerm}
    {g : Records.BTerm → Records.BTerm} (hname : ∀ t, (f t).name = t.name)
    (hf : ∀ x t, d.btermRecord x (f t) = g (d.btermRecord x t)) :
    records { d with bterms := d.bterms.modify id f } =
      Slot.bterms.modify (·.modify id g) d.records := by
  have hview : (d.bterms.modify id f).view d.btermRecord = d.records.bterms.modify id g :=
    Table.view_modify_eq _ _ hf
  have hnames : (d.bterms.modify id f).names (fun _ => true) (·.name) = d.records.btermNames :=
    Table.names_modify (p := fun _ => true) (fun _ => rfl) hname id
  show _ = { d.records with
    bterms := d.records.bterms.modify id g
    btermNames := d.records.btermNames }
  rw [← hview, ← hnames]
  rfl

theorem modify_modBTerm_records (d : Design) (id : ModBTermId) {f : ModBTerm → ModBTerm}
    {g : Records.ModBTerm → Records.ModBTerm} (hname : ∀ t, (f t).name = t.name)
    (hmodule : ∀ t, (f t).module = t.module)
    (hf : ∀ x t, d.modBTermRecord x (f t) = g (d.modBTermRecord x t)) :
    records { d with modBTerms := d.modBTerms.modify id f } =
      Slot.modBTerms.modify (·.modify id g) d.records := by
  have hview : (d.modBTerms.modify id f).view d.modBTermRecord = d.records.modBTerms.modify id g :=
    Table.view_modify_eq _ _ hf
  have hnames (x : ModuleId) : (d.modBTerms.modify id f).names (fun t => t.module = x) (·.name) =
      d.modBTerms.names (fun t => t.module = x) (·.name) :=
    Table.names_modify (p := fun t => decide (t.module = x)) (fun t => by rw [hmodule]) hname id
  have hmodules : d.modules.view
      (moduleRecord { d with modBTerms := d.modBTerms.modify id f }) = d.records.modules := by
    refine congrArg d.modules.view ?_
    funext x m
    simp only [moduleRecord, hnames]
    rfl
  show _ = { d.records with
    modBTerms := d.records.modBTerms.modify id g
    modules := d.records.modules }
  rw [← hview, ← hmodules]
  rfl

theorem detachITerm_records (hnets : d.itermNets.Within d.iterms d.nets)
    (hmodNets : d.itermModNets.Within d.iterms d.modNets) (t : ITermId) :
    Records.disconnectITerm t d.records = (d.detachITerm t).records := by
  have hflat := (shows_itermNets d).detach hnets t
  have hmodule := (shows_itermModNets { d with itermNets := d.itermNets.detach t }).detach
    hmodNets t
  exact (congrArg (Link.itermModNet.disconnect t) hflat).trans hmodule

theorem detachBTerm_records (hnets : d.btermNets.Within d.bterms d.nets)
    (hmodNets : d.btermModNets.Within d.bterms d.modNets) (t : BTermId) :
    Records.disconnectBTerm t d.records = (d.detachBTerm t).records := by
  have hflat := (shows_btermNets d).detach hnets t
  have hmodule := (shows_btermModNets { d with btermNets := d.btermNets.detach t }).detach
    hmodNets t
  exact (congrArg (Link.btermModNet.disconnect t) hflat).trans hmodule

theorem adjust_records (h : d.WellFormed) (a : Adjustment) :
    (d.adjust a).records = d.records.adjust a := by
  cases a with
  | setNetSig id sig => exact modify_net_records d id (fun _ => rfl) fun _ _ => rfl
  | setNetSpecial id special => exact modify_net_records d id (fun _ => rfl) fun _ _ => rfl
  | setBTermTypes id sig io => exact modify_bterm_records d id (fun _ => rfl) fun _ _ => rfl
  | setModBTermTypes id sig io => 
    exact modify_modBTerm_records d id (fun _ => rfl) (fun _ => rfl) fun _ _ => rfl
  | setFlag name value => rfl
  | attachITerm t n => exact ((shows_itermNets d).move h.itermNets t n).symm
  | attachITermToModNet t n => exact ((shows_itermModNets d).move h.itermModNets t n).symm
  | attachBTerm t n => exact ((shows_btermNets d).move h.btermNets t n).symm
  | attachBTermToModNet t n => exact ((shows_btermModNets d).move h.btermModNets t n).symm
  | attachModITerm t n => exact ((shows_modITermNets d).move h.modITermNets t n).symm
  | attachModBTerm t n => exact ((shows_modBTermNets d).move h.modBTermNets t n).symm
  | detachITerm t => exact (detachITerm_records h.itermNets h.itermModNets t).symm
  | detachBTerm t => exact (detachBTerm_records h.btermNets h.btermModNets t).symm
  | detachModITerm t => exact ((shows_modITermNets d).detach h.modITermNets t).symm
  | detachModBTerm t => exact ((shows_modBTermNets d).detach h.modBTermNets t).symm

theorem rebound_records (h : d.WellFormed) (inst : InstId) (master : MasterId) {f : ITerm → ITerm}
    {g : Records.ITerm → Records.ITerm} (hinst : ∀ t, (f t).inst = t.inst)
    (hname : ∀ t, (f t).name = t.name) (hf : ∀ x t, d.itermRecord x (f t) = g (d.itermRecord x t)) :
    records { d with
        insts := d.insts.modify inst fun i => { i with master }
        iterms := d.iterms.modifyWhere (fun t => t.inst = inst) f } =
      Slot.iterms.modify ((d.iterms.idsWhere fun t => t.inst = inst).foldl (·.modify · g))
        (Slot.insts.modify (·.modify inst fun i => { i with master }) d.records) := by
  obtain ⟨d', hd'⟩ : ∃ d', d' = { d with
    insts := d.insts.modify inst fun i => { i with master }
    iterms := d.iterms.modifyWhere (fun t => t.inst = inst) f } := ⟨_, rfl⟩
  rw [← hd']
  have hterms (x : InstId) : d'.iterms.names (fun t => t.inst = x) (·.name) =
      d.iterms.names (fun t => t.inst = x) (·.name) := by
    rw [hd']
    exact Table.names_modifyWhere (p := fun t => decide (t.inst = x)) (fun t => by rw [hinst])
      hname _
  have hinsts : d'.insts.view d'.instRecord =
      d.records.insts.modify inst fun i => { i with master } := by
    refine Eq.trans ?_ (Table.modify_view ..).symm
    rw [hd', Table.view_modify, ← hd']
    congr 1
    funext x i
    simp only [instRecord, hterms]
    split <;> rfl
  have hiterms : d'.iterms.view d'.itermRecord =
      (d.iterms.idsWhere fun t => t.inst = inst).foldl (·.modify · g) d.records.iterms := by
    refine Eq.trans ?_ (Table.foldl_modify_view d.iterms d.itermRecord
      (d.iterms.idsWhere fun t => t.inst = inst) (h.iterms.nodup_map_select _)).symm
    rw [hd', Table.view_modifyWhere]
    refine h.iterms.view_congr fun x t ht => ?_
    have hmem : x ∈ d.iterms.idsWhere (fun t => t.inst = inst) ↔ t.inst = inst :=
      (h.iterms.mem_idsWhere ht).trans decide_eq_true_iff
    by_cases hin : t.inst = inst
    · rw [if_pos (decide_eq_true hin), if_pos (hmem.2 hin)]
      exact hf x t
    · rw [if_neg (by simpa using hin), if_neg (mt hmem.1 hin)]
      rfl
  have hnames : d'.insts.names (fun _ => true) (·.name) = d.records.instNames := by
    rw [hd']
    exact Table.names_modify (t := d.insts) (p := fun _ => true)
      (f := fun i : Inst => { i with master }) (fun _ => rfl) (fun _ => rfl) inst
  have hmodules : d'.modules.view d'.moduleRecord = d.records.modules := by
    have hin (x : ModuleId) : d'.instsIn x = d.instsIn x := by
      rw [hd']
      exact Table.idsWhere_modify (p := fun i : Inst => decide (i.module = x))
        (f := fun i : Inst => { i with master }) (fun _ => rfl) inst
    have hmodules : d'.moduleRecord = d.moduleRecord := by
      funext x m
      simp only [moduleRecord, hin]
      rw [hd']
      rfl
    rw [hmodules, hd']
    rfl
  show _ = { d.records with
    insts := d.records.insts.modify inst fun i => { i with master }
    iterms := (d.iterms.idsWhere fun t => t.inst = inst).foldl (·.modify · g) d.records.iterms
    instNames := d.records.instNames
    modules := d.records.modules }
  rw [← hinsts, ← hiterms, ← hnames, ← hmodules, hd']
  rfl

theorem find?_terms (terms : List (MTermId × MTerm)) (name : String) :
    (⟨terms.map fun e => (e.2.name, e.1)⟩ : OrderedMap String MTermId).find? name =
      (terms.find? fun e => e.2.name = name).map (·.1) := by
  simp only [OrderedMap.find?, List.find?_map, Option.map_map, Function.comp_def]

theorem exists_rebind (d : Design) (inst : InstId) (master : MasterId)
    (terms : List (MTermId × MTerm)) : ∃ f : ITerm → ITerm,
      d.rebind inst master terms = { d with
        insts := d.insts.modify inst fun i => { i with master }
        iterms := d.iterms.modifyWhere (fun t => t.inst = inst) f } ∧
      (∀ t, (f t).inst = t.inst) ∧ (∀ t, (f t).name = t.name) ∧
      ∀ x t, d.itermRecord x (f t) =
        Block.rebindITerm ⟨terms.map fun e => (e.2.name, e.1)⟩ (d.itermRecord x t) := by
  refine ⟨_, rfl, fun t => ?_, fun t => ?_, fun x t => ?_⟩
  · split <;> rfl
  · split <;> rfl
  · have hfind := find?_terms terms t.name
    simp only [Block.rebindITerm, itermRecord, hfind]
    cases terms.find? fun e => e.2.name = t.name <;> rfl

theorem rebind_records (h : d.WellFormed) (inst : InstId) (master : MasterId)
    (terms : List (MTermId × MTerm)) : (d.rebind inst master terms).records =
      d.records.rebindInst inst master ⟨terms.map fun e => (e.2.name, e.1)⟩ := by
  obtain ⟨f, hmade, hkeep, hname, hf⟩ := d.exists_rebind inst master terms
  rw [hmade, rebound_records h inst master hkeep hname hf, Block.rebindInst]
  have hinst : d.records.insts.find? inst = (d.insts.find? inst).map (d.instRecord inst) :=
    Table.find?_view ..
  rw [hinst]
  cases hfind : d.insts.find? inst with
  | none =>
    have hdead : inst ∉ d.insts.ids := Table.find?_eq_none_iff.1 hfind
    have hnone : inst ∉ d.records.insts.ids := fun hin => hdead (Table.ids_view .. ▸ hin)
    rw [h.itermInst.idsWhere_of_dead h.iterms hdead]
    exact congrArg (Slot.insts.put · d.records) (Table.modify_of_not_mem hnone)
  | some i =>
    have hvalues : (d.instRecord inst i).iterms.values =
        d.iterms.idsWhere fun t => t.inst = inst := Table.values_names ..
    rw [Option.map_some]
    dsimp only
    rw [hvalues]
    exact (Slot.foldl_modify ..).symm

end Design
end DesignView
