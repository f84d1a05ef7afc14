import DesignView.Proofs.Records.Adjust

/-!
Destroying objects in records. An object goes from its table, from the names of its scope, and from
the fields and the lists that refer to it; an instance takes its terminals with it.
-/

namespace DesignView

theorem InPlace.exec_forM_write {σ β : Type} {body : β → InPlace σ Unit} {g : σ → β → σ}
    (h : ∀ x s, (body x).exec s = (.ok (), g s x)) (xs : List β) (s : σ) :
    (xs.forM body).exec s = (.ok (), xs.foldl g s) := by
  rw [forM_change (w := fun xs s => xs.foldl g s) (fun _ => rfl) fun x xs s => ⟨_, h x s, rfl⟩]
  rfl

namespace Design

open InPlace (Carries)
open Records (Block Link Scope)

variable {d : Design}

theorem destroyModITerm_carries (h : d.WellFormed) (id : ModITermId) :
    Carries records d (Block.destroyModITerm id) (return ((), ← d.destroyModITerm id)) :=
  .done <| Scope.modITerms.destroy_carries (r := d.detachModITerm id) h.modITerms h.modITermNames
    rfl ((shows_modITermNets d).detach h.modITermNets id) rfl rfl (fun _ _ => rfl) (fun _ _ => rfl)
    (fun _ _ => rfl) rfl

theorem destroyModBTerm_carries (h : d.WellFormed) (id : ModBTermId) :
    Carries records d (Block.destroyModBTerm id) (return ((), ← d.destroyModBTerm id)) :=
  .done <| Scope.modBTerms.destroy_carries (r := d.detachModBTerm id) h.modBTerms h.modBTermNames
    rfl ((shows_modBTermNets d).detach h.modBTermNets id) rfl rfl (fun _ _ => rfl) (fun _ _ => rfl)
    (fun _ _ => rfl) rfl

theorem erase_bterm_records (h : d.WellFormed) {id : BTermId} {t : BTerm}
    (ht : d.bterms.find? id = some t) : { d.records with
      bterms := d.records.bterms.erase id
      btermNames := d.records.btermNames.erase t.name } =
    records { d with bterms := d.bterms.erase id } := by
  have hnames : (d.bterms.erase id).names (fun _ => true) (·.name) =
      d.records.btermNames.erase t.name :=
    h.bterms.names_erase ht fun _ _ hb _ _ hname => h.btermNames hb ht hname
  have hview : d.records.bterms.erase id = (d.bterms.erase id).view d.btermRecord :=
    Table.erase_view ..
  rw [hview, ← hnames]
  rfl

theorem destroyBTerm_carries (h : d.WellFormed) (id : BTermId) :
    Carries records d (Block.destroyBTerm id) (return ((), ← d.destroyBTerm id)) := by
  refine .done <| .check_same (Table.requireLive_view ..) fun _ hlive => ?_
  obtain ⟨t, ht⟩ := Table.mem_ids_iff.1 (Table.requireLive_eq_ok.1 hlive)
  have hfind : (d.detachBTerm id).records.bterms.find? id =
      some ((d.detachBTerm id).btermRecord id t) :=
    (Table.find?_view ..).trans (congrArg (Option.map _) ht)
  have hremove : (InPlace.remove Slot.bterms id).exec (d.detachBTerm id).records =
      (.ok (some ((d.detachBTerm id).btermRecord id t)),
        Slot.bterms.modify (·.erase id) (d.detachBTerm id).records) := by
    rw [← hfind]
    rfl
  rw [Carries, InPlace.exec_write, detachBTerm_records h.btermNets h.btermModNets,
    InPlace.exec_bind, hremove]
  exact congrArg (Prod.mk _) (erase_bterm_records (h.detachBTerm id) ht)

theorem erase_net_records (h : d.WellFormed) {id : NetId} {n : FlatNet}
    (hn : d.nets.find? id = some n) : { d.records with
      nets := (d.nets.erase id).view d.netRecord
      netNames := d.records.netNames.erase n.name } =
    records { d with nets := d.nets.erase id } := by
  have hnames : (d.nets.erase id).names (fun _ => true) (·.name) =
      d.records.netNames.erase n.name :=
    h.nets.names_erase hn fun _ _ hb _ _ hname => h.netNames hb hn hname
  rw [← hnames]
  rfl

theorem destroyNet_carries (h : d.WellFormed) (id : NetId) :
    Carries records d (Block.destroyNet id) (return ((), ← d.destroyNet id)) := by
  refine .done <| Records.takeOut_carries Slot.nets rfl fun n hn => ?_
  have hdead : id ∉ (d.nets.erase id).ids := fun hin => (Table.mem_ids_erase.1 hin).2 rfl
  have hgone := erase_net_records h hn
  have hiterms := (shows_itermNets { d with nets := d.nets.erase id }).clearNet
    h.itermNets.nodup hdead
  have hbterms := (shows_btermNets { d with
    nets := d.nets.erase id
    itermNets := d.itermNets.clearNet id }).clearNet h.btermNets.nodup hdead
  show (Except.ok (), Slot.netNames.modify (·.erase n.name)
    (Link.btermNet.release (d.btermNets.members id) (Link.itermNet.release (d.itermNets.members id)
      { d.records with nets := (d.nets.erase id).view d.netRecord }))) = _
  rw [Link.modify_release (l := .btermNet) {}, Link.modify_release (l := .itermNet) {}]
  refine congrArg (Prod.mk _) (Eq.trans ?_ hbterms)
  refine congrArg (Link.btermNet.release _) (Eq.trans ?_ hiterms)
  exact congrArg (Link.itermNet.release _) hgone

theorem erase_modNet_records (h : d.WellFormed) {id : ModNetId} {n : ModNet}
    (hn : d.modNets.find? id = some n) : { d.records with
      modNets := (d.modNets.erase id).view d.modNetRecord
      modules := d.records.modules.modify n.module fun m =>
        { m with modNets := m.modNets.erase n.name } } =
    records { d with modNets := d.modNets.erase id } := by
  have hmodules : d.modules.view (moduleRecord { d with modNets := d.modNets.erase id }) =
      d.records.modules.modify n.module fun m => { m with modNets := m.modNets.erase n.name } := by
    refine Eq.trans ?_ (Table.modify_view ..).symm
    congr 1
    funext x m
    have hnames : (d.modNets.erase id).names (fun n => n.module = x) (·.name) =
        if x = n.module then (d.modNets.names (fun n => n.module = x) (·.name)).erase n.name
        else d.modNets.names (fun n => n.module = x) (·.name) :=
      h.modNets.namesOf_erase hn
        (fun _ _ hb hown hname => h.modNetNames hb hn (Prod.ext hown hname)) x
    simp only [moduleRecord, hnames]
    split <;> rfl
  rw [← hmodules]
  rfl

theorem destroyModNet_carries (h : d.WellFormed) (id : ModNetId) :
    Carries records d (Block.destroyModNet id) (return ((), ← d.destroyModNet id)) := by
  refine .done <| Records.takeOut_carries Slot.modNets rfl fun n hn => ?_
  have hdead : id ∉ (d.modNets.erase id).ids := fun hin => (Table.mem_ids_erase.1 hin).2 rfl
  have hgone := erase_modNet_records h hn
  have hiterms := (shows_itermModNets { d with modNets := d.modNets.erase id }).clearNet
    h.itermModNets.nodup hdead
  have hbterms := (shows_btermModNets { d with
    modNets := d.modNets.erase id
    itermModNets := d.itermModNets.clearNet id }).clearNet h.btermModNets.nodup hdead
  have hmodITerms := (shows_modITermNets { d with
    modNets := d.modNets.erase id
    itermModNets := d.itermModNets.clearNet id
    btermModNets := d.btermModNets.clearNet id }).clearNet h.modITermNets.nodup hdead
  have hmodBTerms := (shows_modBTermNets { d with
    modNets := d.modNets.erase id
    itermModNets := d.itermModNets.clearNet id
    btermModNets := d.btermModNets.clearNet id
    modITermNets := d.modITermNets.clearNet id }).clearNet h.modBTermNets.nodup hdead
  show (Except.ok (), Slot.modules.modify
    (·.modify n.module fun m => { m with modNets := m.modNets.erase n.name })
    (Link.modBTermNet.release (d.modBTermNets.members id)
      (Link.modITermNet.release (d.modITermNets.members id)
        (Link.btermModNet.release (d.btermModNets.members id)
          (Link.itermModNet.release (d.itermModNets.members id)
            { d.records with modNets := (d.modNets.erase id).view d.modNetRecord }))))) = _
  rw [Link.modify_release (l := .modBTermNet) {}, Link.modify_release (l := .modITermNet) {},
    Link.modify_release (l := .btermModNet) {}, Link.modify_release (l := .itermModNet) {}]
  refine congrArg (Prod.mk _) (Eq.trans ?_ hmodBTerms)
  refine congrArg (Link.modBTermNet.release _) (Eq.trans ?_ hmodITerms)
  refine congrArg (Link.modITermNet.release _) (Eq.trans ?_ hbterms)
  refine congrArg (Link.btermModNet.release _) (Eq.trans ?_ hiterms)
  exact congrArg (Link.itermModNet.release _) hgone

def discardITerm (b : Block) (t : ITermId) : Block :=
  Slot.iterms.modify (·.erase t) (Records.disconnectITerm t b)

def dropITerm (d : Design) (t : ITermId) : Design :=
  { d.detachITerm t with iterms := d.iterms.erase t }

/-- The terminals `xs` may be destroyed without regard to the instance that they are of. -/
structure Orphans (d : Design) (xs : List ITermId) : Prop where
  valid : d.iterms.Valid
  nets : d.itermNets.Within d.iterms d.nets
  modNets : d.itermModNets.Within d.iterms d.modNets
  gone : ∀ x ∈ xs, ∀ t, d.iterms.find? x = some t → t.inst ∉ d.insts.ids

theorem Orphans.drop {x : ITermId} {xs : List ITermId} (h : d.Orphans (x :: xs)) :
    (d.dropITerm x).Orphans xs where
  valid := h.valid.erase x
  nets := h.nets.eraseTerm x
  modNets := h.modNets.eraseTerm x
  gone y hy t ht := h.gone y (List.mem_cons_of_mem x hy) t (Table.sub_erase _ x ht)

theorem Orphans.discard {x : ITermId} {xs : List ITermId} (h : d.Orphans (x :: xs)) :
    discardITerm d.records x = (d.dropITerm x).records := by
  have hinsts : d.insts.view (d.dropITerm x).instRecord =
      d.insts.view (d.detachITerm x).instRecord := by
    refine Table.view_congr fun i hi a => ?_
    have hnames : (d.iterms.erase x).names (fun t => t.inst = i) (·.name) =
        d.iterms.names (fun t => t.inst = i) (·.name) :=
      h.valid.namesOf_erase_of_ne _ fun t ht heq => h.gone x List.mem_cons_self t ht (heq ▸ hi)
    show Records.Inst.mk .. = Records.Inst.mk ..
    rw [dropITerm, hnames]
    rfl
  have hiterms : (d.detachITerm x).records.iterms.erase x =
      (d.iterms.erase x).view (d.detachITerm x).itermRecord := Table.erase_view ..
  rw [discardITerm, detachITerm_records h.nets h.modNets]
  show { (d.detachITerm x).records with
    iterms := (d.detachITerm x).records.iterms.erase x
    insts := d.insts.view (d.detachITerm x).instRecord } = _
  rw [hiterms, ← hinsts]
  rfl

theorem Orphans.discardAll {xs : List ITermId} (h : d.Orphans xs) :
    xs.foldl discardITerm d.records = records { d with
      iterms := d.iterms.eraseAll xs
      itermNets := d.itermNets.detachAll xs
      itermModNets := d.itermModNets.detachAll xs } := by
  induction xs generalizing d with
  | nil => rfl
  | cons x xs ih => exact (congrArg (xs.foldl discardITerm ·) h.discard).trans (ih h.drop)

theorem modify_discardITerms {α : Type} {z : Slot Block α} (hiterms : z.Apart .iterms)
    (hnets : z.Apart .nets) (hmodNets : z.Apart .modNets) (f : α → α) (xs : List ITermId)
    (b : Block) :
    z.modify f (xs.foldl discardITerm b) = xs.foldl discardITerm (z.modify f b) := by
  refine (List.foldl_hom (z.modify f) fun b t => ?_).symm
  rw [discardITerm, Records.disconnectITerm,
    ← Link.modify_disconnect (l := .itermNet) hiterms hnets,
    ← Link.modify_disconnect (l := .itermModNet) hiterms hmodNets, ← hiterms.modify_comm]
  rfl

theorem erase_inst_records (h : d.WellFormed) {id : InstId} {i : Inst}
    (hi : d.insts.find? id = some i) : { d.records with
      insts := (d.insts.erase id).view d.instRecord
      instNames := d.records.instNames.erase i.name
      modules := d.records.modules.modify i.module fun m => { m with insts := m.insts.erase id } } =
    records { d with insts := d.insts.erase id } := by
  have hnames : (d.insts.erase id).names (fun _ => true) (·.name) =
      d.records.instNames.erase i.name :=
    h.insts.names_erase hi fun _ _ hb _ _ hname => h.instNames hb hi hname
  have hmodules : d.modules.view (moduleRecord { d with insts := d.insts.erase id }) =
      d.records.modules.modify i.module fun m => { m with insts := m.insts.erase id } := by
    refine Eq.trans ?_ (Table.modify_view ..).symm
    congr 1
    funext x m
    have hinsts : (d.insts.erase id).idsWhere (fun i => i.module = x) =
        if x = i.module then (d.instsIn x).erase id else d.instsIn x :=
      h.insts.idsWhere_erase (·.module) hi x
    simp only [moduleRecord, instsIn, hinsts]
    split <;> rfl
  rw [← hnames, ← hmodules]
  rfl

theorem destroyInst_carries (h : d.WellFormed) (id : InstId) :
    Carries records d (Block.destroyInst id) (return ((), ← d.destroyInst id)) := by
  refine .done <| Records.takeOut_carries Slot.insts rfl fun i hi => ?_
  have horphans : Orphans { d with insts := d.insts.erase id }
      (d.iterms.idsWhere fun t => t.inst = id) := by
    refine ⟨h.iterms, h.itermNets, h.itermModNets, fun x hx t ht hin => ?_⟩
    have hown : t.inst = id := of_decide_eq_true ((h.iterms.mem_idsWhere ht).1 hx)
    exact (Table.mem_ids_erase.1 hin).2 hown
  have hvalues : (d.instRecord id i).iterms.values = d.iterms.idsWhere fun t => t.inst = id :=
    Table.values_names ..
  have hloop (b : Block) : ((d.instRecord id i).iterms.values.forM fun t => do
        InPlace.write (Records.disconnectITerm t)
        InPlace.write (Slot.iterms.modify (·.erase t)) : InPlace Block Unit).exec b =
      (.ok (), (d.iterms.idsWhere fun t => t.inst = id).foldl discardITerm b) := by
    rw [hvalues]
    exact InPlace.exec_forM_write (fun _ _ => rfl) _ b
  rw [InPlace.exec_bind, hloop]
  show (Except.ok (), Slot.modules.modify
    (·.modify i.module fun m => { m with insts := m.insts.erase id })
    (Slot.instNames.modify (·.erase i.name) (List.foldl discardITerm _ _))) = _
  rw [modify_discardITerms {} {} {}, modify_discardITerms {} {} {}]
  have hgone := erase_inst_records h hi
  exact congrArg (Prod.mk _)
    ((congrArg (List.foldl discardITerm · _) hgone).trans horphans.discardAll)

def discardModITerm (b : Block) (t : ModITermId) : Block :=
  Slot.modITerms.modify (·.erase t) (Link.modITermNet.disconnect t b)

def dropModITerm (d : Design) (t : ModITermId) : Design :=
  { d.detachModITerm t with modITerms := d.modITerms.erase t }

structure ModOrphans (d : Design) (xs : List ModITermId) : Prop where
  valid : d.modITerms.Valid
  nets : d.modITermNets.Within d.modITerms d.modNets
  gone : ∀ x ∈ xs, ∀ t, d.modITerms.find? x = some t → t.modInst ∉ d.modInsts.ids

theorem ModOrphans.drop {x : ModITermId} {xs : List ModITermId} (h : d.ModOrphans (x :: xs)) :
    (d.dropModITerm x).ModOrphans xs where
  valid := h.valid.erase x
  nets := h.nets.eraseTerm x
  gone y hy t ht := h.gone y (List.mem_cons_of_mem x hy) t (Table.sub_erase _ x ht)

theorem ModOrphans.discard {x : ModITermId} {xs : List ModITermId} (h : d.ModOrphans (x :: xs)) :
    discardModITerm d.records x = (d.dropModITerm x).records := by
  have hmodInsts : d.modInsts.view (d.dropModITerm x).modInstRecord =
      d.modInsts.view (d.detachModITerm x).modInstRecord := by
    refine Table.view_congr fun i hi a => ?_
    have hnames : (d.modITerms.erase x).names (fun t => t.modInst = i) (·.name) =
        d.modITerms.names (fun t => t.modInst = i) (·.name) :=
      h.valid.namesOf_erase_of_ne _ fun t ht heq => h.gone x List.mem_cons_self t ht (heq ▸ hi)
    show Records.ModInst.mk .. = Records.ModInst.mk ..
    rw [dropModITerm, hnames]
    rfl
  have hmodITerms : (d.detachModITerm x).records.modITerms.erase x =
      (d.modITerms.erase x).view (d.detachModITerm x).modITermRecord := Table.erase_view ..
  have hdetached : Link.modITermNet.disconnect x d.records = (d.detachModITerm x).records :=
    (shows_modITermNets d).detach h.nets x
  rw [discardModITerm, hdetached]
  show { (d.detachModITerm x).records with
    modITerms := (d.detachModITerm x).records.modITerms.erase x
    modInsts := d.modInsts.view (d.detachModITerm x).modInstRecord } = _
  rw [hmodITerms, ← hmodInsts]
  rfl

theorem ModOrphans.discardAll {xs : List ModITermId} (h : d.ModOrphans xs) :
    xs.foldl discardModITerm d.records = records { d with
      modITerms := d.modITerms.eraseAll xs
      modITermNets := d.modITermNets.detachAll xs } := by
  induction xs generalizing d with
  | nil => rfl
  | cons x xs ih => exact (congrArg (xs.foldl discardModITerm ·) h.discard).trans (ih h.drop)

theorem modify_discardModITerms {α : Type} {z : Slot Block α} (hmodITerms : z.Apart .modITerms)
    (hmodNets : z.Apart .modNets) (f : α → α) (xs : List ModITermId) (b : Block) :
    z.modify f (xs.foldl discardModITerm b) = xs.foldl discardModITerm (z.modify f b) := by
  refine (List.foldl_hom (z.modify f) fun b t => ?_).symm
  rw [discardModITerm, ← Link.modify_disconnect (l := .modITermNet) hmodITerms hmodNets,
    ← hmodITerms.modify_comm]
  rfl

theorem erase_modInst_records (h : d.WellFormed) {id : ModInstId} {i : ModInst}
    (hi : d.modInsts.find? id = some i) : { d.records with
      modInsts := (d.modInsts.erase id).view d.modInstRecord
      modules := (d.records.modules.modify i.parent fun m =>
        { m with modInsts := m.modInsts.erase i.name }).modify i.master fun m =>
          { m with modInst? := none } } =
    records { d with modInsts := d.modInsts.erase id } := by
  have hmodules : d.modules.view (moduleRecord { d with modInsts := d.modInsts.erase id }) =
      (d.records.modules.modify i.parent fun m =>
        { m with modInsts := m.modInsts.erase i.name }).modify i.master fun m =>
          { m with modInst? := none } := by
    refine Eq.trans ?_ (congrArg (Table.modify · i.master _) (Table.modify_view ..).symm)
    rw [Table.modify_view]
    congr 1
    funext x m
    have hnames : (d.modInsts.erase id).names (fun i => i.parent = x) (·.name) =
        if x = i.parent then (d.modInsts.names (fun i => i.parent = x) (·.name)).erase i.name
        else d.modInsts.names (fun i => i.parent = x) (·.name) :=
      h.modInsts.namesOf_erase hi
        (fun _ _ hb hown hname => h.modInstNames hb hi (Prod.ext hown hname)) x
    have hinstance : (d.modInsts.erase id).firstWhere? (fun i => i.master = x) =
        if x = i.master then none else d.instanceOf? x :=
      h.modInsts.firstWhere?_erase (·.master) hi (fun _ _ hb hkey => h.oneInstance hb hi hkey) x
    simp only [moduleRecord, instanceOf?, hnames, hinstance]
    split <;> split <;> rfl
  rw [← hmodules]
  rfl

theorem destroyModInst_carries (h : d.WellFormed) (id : ModInstId) :
    Carries records d (Block.destroyModInst id) (return ((), ← d.destroyModInst id)) := by
  refine .done <| Records.takeOut_carries Slot.modInsts rfl fun i hi => ?_
  have horphans : ModOrphans { d with modInsts := d.modInsts.erase id }
      (d.modITerms.idsWhere fun t => t.modInst = id) := by
    refine ⟨h.modITerms, h.modITermNets, fun x hx t ht hin => ?_⟩
    have hown : t.modInst = id := of_decide_eq_true ((h.modITerms.mem_idsWhere ht).1 hx)
    exact (Table.mem_ids_erase.1 hin).2 hown
  have hvalues : (d.modInstRecord id i).modITerms.values =
      d.modITerms.idsWhere fun t => t.modInst = id := Table.values_names ..
  have hloop (b : Block) : ((d.modInstRecord id i).modITerms.values.forM fun t => do
        InPlace.write (Link.modITermNet.disconnect t)
        InPlace.write (Slot.modITerms.modify (·.erase t)) : InPlace Block Unit).exec b =
      (.ok (), (d.modITerms.idsWhere fun t => t.modInst = id).foldl discardModITerm b) := by
    rw [hvalues]
    exact InPlace.exec_forM_write (fun _ _ => rfl) _ b
  rw [InPlace.exec_bind, hloop]
  show (Except.ok (), Slot.modules.modify (·.modify i.master fun m => { m with modInst? := none })
    (Slot.modules.modify (·.modify i.parent fun m => { m with modInsts := m.modInsts.erase i.name })
      (List.foldl discardModITerm _ _))) = _
  rw [modify_discardModITerms {} {}, modify_discardModITerms {} {}]
  have hgone := erase_modInst_records h hi
  exact congrArg (Prod.mk _)
    ((congrArg (List.foldl discardModITerm · _) hgone).trans horphans.discardAll)

end Design
end DesignView
