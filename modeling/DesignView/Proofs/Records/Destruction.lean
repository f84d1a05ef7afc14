import DesignView.Proofs.Physical.Destruction
import DesignView.Proofs.Records.Store

/-!
Destruction in records. An object that is destroyed goes from its table with the terminals that it
owns. Their names go from the maps of names, and they themselves from every field and every list
that refers to them. All that is left stays in its order, and nothing else is written.
-/

namespace DesignView

namespace Table

variable {k : Kind} {α β γ : Type}

theorem eraseAll_view (t : Table k α) (f : Id k → α → β) (gone : List (Id k)) :
    (t.view f).eraseAll gone = (t.eraseAll gone).view f := by
  induction gone generalizing t with
  | nil => rfl
  | cons x gone ih =>
    show ((t.view f).erase x).eraseAll gone = _
    rw [erase_view, ih]
    rfl

theorem view_eraseAll {t : Table k α} {f f' : Id k → α → β} {w : β → β} {gone : List (Id k)}
    (h : ∀ x ∉ gone, ∀ a, f' x a = w (f x a)) :
    (t.eraseAll gone).view f' = ((t.view f).eraseAll gone).view fun _ => w := by
  rw [eraseAll_view, view_view]
  refine view_congr fun x hx a => h x (fun hgone => ?_) a
  obtain ⟨a, ha⟩ := mem_ids_iff.1 hx
  rw [find?_eraseAll, if_pos hgone] at ha
  cases ha

theorem names_eraseAll (t : Table k α) (gone : List (Id k)) (p : α → Bool) (name : α → γ) :
    (t.eraseAll gone).names p name = (t.names p name).filter fun _ id => id ∉ gone := by
  rw [names, select_eraseAll, names, OrderedMap.filter, List.filter_map]
  rfl

end Table

namespace Records

open Design (Gone Target)

variable (g : Gone)

def Inst.without (i : Inst) : Inst :=
  { i with iterms := i.iterms.filter fun _ t => t ∉ g.iterms }

def ITerm.without (t : ITerm) : ITerm :=
  { t with net? := t.net?.filter (· ∉ g.nets), modNet? := t.modNet?.filter (· ∉ g.modNets) }

def BTerm.without (t : BTerm) : BTerm :=
  { t with net? := t.net?.filter (· ∉ g.nets), modNet? := t.modNet?.filter (· ∉ g.modNets) }

def Net.without (n : Net) : Net :=
  { n with iterms := n.iterms.filter (· ∉ g.iterms), bterms := n.bterms.filter (· ∉ g.bterms) }

def Module.without (m : Module) : Module := { m with
  modInst? := m.modInst?.filter (· ∉ g.modInsts)
  insts := m.insts.filter (· ∉ g.insts)
  modInsts := m.modInsts.filter fun _ i => i ∉ g.modInsts
  modBTerms := m.modBTerms.filter fun _ t => t ∉ g.modBTerms
  modNets := m.modNets.filter fun _ n => n ∉ g.modNets }

def ModInst.without (i : ModInst) : ModInst :=
  { i with modITerms := i.modITerms.filter fun _ t => t ∉ g.modITerms }

def ModITerm.without (t : ModITerm) : ModITerm :=
  { t with modNet? := t.modNet?.filter (· ∉ g.modNets) }

def ModBTerm.without (t : ModBTerm) : ModBTerm :=
  { t with modNet? := t.modNet?.filter (· ∉ g.modNets) }

def ModNet.without (n : ModNet) : ModNet := { n with
  iterms := n.iterms.filter (· ∉ g.iterms)
  bterms := n.bterms.filter (· ∉ g.bterms)
  modITerms := n.modITerms.filter (· ∉ g.modITerms)
  modBTerms := n.modBTerms.filter (· ∉ g.modBTerms) }

def Block.without (b : Block) : Block := { b with
  insts := (b.insts.eraseAll g.insts).view fun _ => Inst.without g
  instNames := b.instNames.filter fun _ i => i ∉ g.insts
  iterms := (b.iterms.eraseAll g.iterms).view fun _ => ITerm.without g
  bterms := (b.bterms.eraseAll g.bterms).view fun _ => BTerm.without g
  btermNames := b.btermNames.filter fun _ t => t ∉ g.bterms
  nets := (b.nets.eraseAll g.nets).view fun _ => Net.without g
  netNames := b.netNames.filter fun _ n => n ∉ g.nets
  modules := b.modules.view fun _ => Module.without g
  modInsts := (b.modInsts.eraseAll g.modInsts).view fun _ => ModInst.without g
  modITerms := (b.modITerms.eraseAll g.modITerms).view fun _ => ModITerm.without g
  modBTerms := (b.modBTerms.eraseAll g.modBTerms).view fun _ => ModBTerm.without g
  modNets := (b.modNets.eraseAll g.modNets).view fun _ => ModNet.without g }

/-- What goes with an object: the terminals that its map of names has, if it is an instance. -/
def Block.taken (b : Block) : Target → Gone
  | .inst id => { insts := [id], iterms := ((b.insts.find? id).map (·.iterms.values)).getD [] }
  | .net id => { nets := [id] }
  | .bterm id => { bterms := [id] }
  | .modInst id =>
    { modInsts := [id], modITerms := ((b.modInsts.find? id).map (·.modITerms.values)).getD [] }
  | .modITerm id => { modITerms := [id] }
  | .modBTerm id => { modBTerms := [id] }
  | .modNet id => { modNets := [id] }

end Records

namespace Design

variable {d d' : Design} {g : Gone} {t : Target}

theorem WellFormed.records_without (h : d.WellFormed) (h' : (d.without g).WellFormed) :
    (d.without g).records = d.records.without g := by
  have hloses := h.losesOnly h'
  have hinsts : (d.without g).records.insts = (d.records.without g).insts := by
    refine Table.view_eraseAll fun x _ a => ?_
    show Records.Inst.mk .. = Records.Inst.mk ..
    rw [Records.Inst.mk.injEq]
    exact ⟨rfl, rfl, rfl, Table.names_eraseAll ..⟩
  have hiterms : (d.without g).records.iterms = (d.records.without g).iterms := by
    refine Table.view_eraseAll fun x hx a => ?_
    show Records.ITerm.mk .. = Records.ITerm.mk ..
    rw [Records.ITerm.mk.injEq]
    exact ⟨rfl, rfl, rfl, (hloses.itermNets.netOf x).trans (if_neg hx),
      (hloses.itermModNets.netOf x).trans (if_neg hx)⟩
  have hbterms : (d.without g).records.bterms = (d.records.without g).bterms := by
    refine Table.view_eraseAll fun x hx a => ?_
    show Records.BTerm.mk .. = Records.BTerm.mk ..
    rw [Records.BTerm.mk.injEq]
    exact ⟨rfl, (hloses.btermNets.netOf x).trans (if_neg hx),
      (hloses.btermModNets.netOf x).trans (if_neg hx), rfl, rfl⟩
  have hnets : (d.without g).records.nets = (d.records.without g).nets := by
    refine Table.view_eraseAll fun x hx a => ?_
    show Records.Net.mk .. = Records.Net.mk ..
    rw [Records.Net.mk.injEq]
    exact ⟨rfl, rfl, rfl, (hloses.itermNets.members x).trans (if_neg hx),
      (hloses.btermNets.members x).trans (if_neg hx)⟩
  have hmodules : (d.without g).records.modules = (d.records.without g).modules := by
    refine Eq.trans (Table.view_congr fun x _ a => ?_)
      (Table.view_view d.modules d.moduleRecord fun _ => Records.Module.without g).symm
    show Records.Module.mk .. = Records.Module.mk ..
    rw [Records.Module.mk.injEq]
    exact ⟨rfl, hloses.instances.kept x, hloses.instsIn x, Table.names_eraseAll ..,
      Table.names_eraseAll .., Table.names_eraseAll ..⟩
  have hmodInsts : (d.without g).records.modInsts = (d.records.without g).modInsts := by
    refine Table.view_eraseAll fun x _ a => ?_
    show Records.ModInst.mk .. = Records.ModInst.mk ..
    rw [Records.ModInst.mk.injEq]
    exact ⟨rfl, rfl, rfl, Table.names_eraseAll ..⟩
  have hmodITerms : (d.without g).records.modITerms = (d.records.without g).modITerms := by
    refine Table.view_eraseAll fun x hx a => ?_
    show Records.ModITerm.mk .. = Records.ModITerm.mk ..
    rw [Records.ModITerm.mk.injEq]
    exact ⟨rfl, rfl, (hloses.modITermNets.netOf x).trans (if_neg hx)⟩
  have hmodBTerms : (d.without g).records.modBTerms = (d.records.without g).modBTerms := by
    refine Table.view_eraseAll fun x hx a => ?_
    show Records.ModBTerm.mk .. = Records.ModBTerm.mk ..
    rw [Records.ModBTerm.mk.injEq]
    exact ⟨rfl, rfl, (hloses.modBTermNets.netOf x).trans (if_neg hx), rfl, rfl⟩
  have hmodNets : (d.without g).records.modNets = (d.records.without g).modNets := by
    refine Table.view_eraseAll fun x hx a => ?_
    show Records.ModNet.mk .. = Records.ModNet.mk ..
    rw [Records.ModNet.mk.injEq]
    exact ⟨rfl, rfl, (hloses.itermModNets.members x).trans (if_neg hx),
      (hloses.btermModNets.members x).trans (if_neg hx),
      (hloses.modITermNets.members x).trans (if_neg hx),
      (hloses.modBTermNets.members x).trans (if_neg hx)⟩
  show Records.Block.mk .. = Records.Block.mk ..
  rw [Records.Block.mk.injEq]
  exact ⟨rfl, rfl, hinsts, Table.names_eraseAll .., hiterms, hbterms, Table.names_eraseAll ..,
    hnets, Table.names_eraseAll .., hmodules, rfl, hmodInsts, hmodITerms, hmodBTerms, hmodNets, rfl⟩

theorem taken_records (ht : d.Has t) : d.records.taken t = d.taken t := by
  cases t with
  | inst id =>
    obtain ⟨i, hi⟩ := Table.mem_ids_iff.1 ht
    have hfind : d.records.insts.find? id = some (d.instRecord id i) :=
      (Table.find?_view ..).trans (congrArg (Option.map _) hi)
    show Gone.mk .. = Gone.mk ..
    rw [hfind]
    exact congrArg (fun xs => Gone.mk [id] xs [] [] [] [] [] []) (Table.values_names ..)
  | modInst id =>
    obtain ⟨i, hi⟩ := Table.mem_ids_iff.1 ht
    have hfind : d.records.modInsts.find? id = some (d.modInstRecord id i) :=
      (Table.find?_view ..).trans (congrArg (Option.map _) hi)
    show Gone.mk .. = Gone.mk ..
    rw [hfind]
    exact congrArg (fun xs => Gone.mk [] [] [] [] [id] xs [] []) (Table.values_names ..)
  | _ => rfl

def Target.request : Target → Request Unit
  | .inst id => .destroyInst id
  | .net id => .destroyNet id
  | .bterm id => .destroyBTerm id
  | .modInst id => .destroyModInst id
  | .modITerm id => .destroyModITerm id
  | .modBTerm id => .destroyModBTerm id
  | .modNet id => .destroyModNet id

theorem Target.outcome_request {db : Database} (hd : db.design? = some d)
    (e : d.destroy t = .ok d') :
    t.request.outcome db = .ok ((), { db with design? := some d' }) := by
  have hedit (f : Design → Except Refusal Design) (hf : f d = .ok d') :
      (db.edit fun d => return ((), ← f d)) = .ok ((), { db with design? := some d' }) := by
    rw [Database.edit, Database.design_eq_ok.2 hd]
    show ((f d >>= _) >>= _) = _
    rw [hf]
    rfl
  cases t with
  | inst id => exact hedit (·.destroyInst id) e
  | net id => exact hedit (·.destroyNet id) e
  | bterm id => exact hedit (·.destroyBTerm id) e
  | modInst id => exact hedit (·.destroyModInst id) e
  | modITerm id => exact hedit (·.destroyModITerm id) e
  | modBTerm id => exact hedit (·.destroyModBTerm id) e
  | modNet id => exact hedit (·.destroyModNet id) e

end Design

theorem Database.WellFormed.exec_destroy {db : Database} (h : db.WellFormed) {d : Design}
    (hd : db.design? = some d) {t : Design.Target} (ht : d.Has t) :
    (Records.Store.program t.request).exec db.records =
      (.ok (), { db.records with block? := some (d.records.without (d.records.taken t)) }) := by
  have hw : d.WellFormed := h.design hd
  have hdone := Design.destroy_eq ht
  rw [t.request.carries h, Design.Target.outcome_request hd hdone, Design.taken_records ht,
    ← hw.records_without (hw.destroy hdone)]
  rfl

/-- Destroying an object that is there takes away the object and the terminals that it owns, and
changes nothing else; the module of a destroyed instance can be instantiated again. The writes to
the records take the object out of every map of names, every field and every list, and do no more.
-/
theorem Database.Reachable.destruction_local {db : Database} (h : db.Reachable) {d : Design}
    (hd : db.design? = some d) {t : Design.Target} (ht : d.Has t) :
    (∃ d', d.destroy t = .ok d' ∧ d.LosesOnly (d.taken t) d' ∧
      ∀ id i, t = .modInst id → d.modInsts.find? id = some i → ∀ parent ∈ d.modules.ids, ∀ name,
        d'.modInstNamed? parent name = none →
          ∃ made, d'.createModInst parent i.master name = .ok made) ∧
    ∀ ops, Operation.runAll ops = db →
      ∃ b, (Records.Store.runAll ops).block? = some b ∧
        (Records.Store.program t.request).exec (Records.Store.runAll ops) = (.ok (),
          { Records.Store.runAll ops with block? := some (b.without (b.taken t)) }) := by
  refine ⟨h.destroy_losesOnly hd ht, ?_⟩
  rintro ops rfl
  rw [Records.Store.runAll_records]
  exact ⟨d.records, congrArg (Option.map Design.records) hd, h.wellFormed.exec_destroy hd ht⟩

theorem Database.destruction_local_modInst : ∃ ops d d' b,
    (Operation.runAll ops).design? = some d ∧ d.Has (.modInst ⟨1⟩) ∧
    (d.destroy (.modInst ⟨1⟩) = .ok d' ∧ d.LosesOnly (d.taken (.modInst ⟨1⟩)) d') ∧
    d.modITermNets.members ⟨1⟩ = [⟨1⟩, ⟨2⟩] ∧ d'.modITermNets.members ⟨1⟩ = [⟨2⟩] ∧
    (d'.modBTermsOf ⟨2⟩).map (·.1) = [⟨1⟩] ∧
    (∃ made, d'.createModInst ⟨3⟩ ⟨2⟩ "a" = .ok made) ∧
    (Records.Store.runAll ops).block? = some b ∧
    (Records.Store.program (.destroyModInst ⟨1⟩)).exec (Records.Store.runAll ops) = (.ok (),
      { Records.Store.runAll ops with block? := some (b.without (b.taken (.modInst ⟨1⟩))) }) ∧
    (b.modNets.find? ⟨1⟩).map (·.modITerms) = some [⟨1⟩, ⟨2⟩] ∧
    ((b.without (b.taken (.modInst ⟨1⟩))).modNets.find? ⟨1⟩).map (·.modITerms) = some [⟨2⟩] := by
  have hops : ∃ ops d d', (Operation.runAll ops).design? = some d ∧ d.Has (.modInst ⟨1⟩) ∧
      d.destroy (.modInst ⟨1⟩) = .ok d' ∧ d.modInsts.find? ⟨1⟩ = some ⟨"a", ⟨1⟩, ⟨2⟩⟩ ∧
      (⟨3⟩ : ModuleId) ∈ d.modules.ids ∧ d'.modInstNamed? ⟨3⟩ "a" = none ∧
      d.modITermNets.members ⟨1⟩ = [⟨1⟩, ⟨2⟩] ∧ d'.modITermNets.members ⟨1⟩ = [⟨2⟩] ∧
      (d'.modBTermsOf ⟨2⟩).map (·.1) = [⟨1⟩] ∧
      ∀ b, (Records.Store.runAll ops).block? = some b →
        (b.modNets.find? ⟨1⟩).map (·.modITerms) = some [⟨1⟩, ⟨2⟩] ∧
        ((b.without (b.taken (.modInst ⟨1⟩))).modNets.find? ⟨1⟩).map (·.modITerms) =
          some [⟨2⟩] := by
    refine ⟨[.request (.createDesign "top"), .request (.createModule "A"),
      .request (.createModule "B"), .request (.createModBTerm ⟨2⟩ "p"),
      .request (.createModInst ⟨1⟩ ⟨2⟩ "a"), .request (.createModInst ⟨1⟩ ⟨3⟩ "b"),
      .request (.createModITerm ⟨1⟩ "p"), .request (.createModITerm ⟨2⟩ "p"),
      .request (.createModNet ⟨1⟩ "n"), .adjust (.attachModITerm ⟨1⟩ ⟨1⟩),
      .adjust (.attachModITerm ⟨2⟩ ⟨1⟩)],
      _, _, rfl, List.mem_cons_self, rfl, rfl, by decide, rfl, rfl, rfl, rfl, ?_⟩
    rintro b ⟨⟩
    exact ⟨rfl, rfl⟩
  obtain ⟨ops, d, d', hd, ht, hdone, hi, hparent, hname, hbefore, hafter, hkeeps, hb⟩ := hops
  obtain ⟨⟨e, he, hloses, hagain⟩, hrecords⟩ :=
    (Operation.runAll_reachable ops).destruction_local hd ht
  obtain rfl : e = d' := Except.ok.inj (he.symm.trans hdone)
  obtain ⟨b, hblock, hexec⟩ := hrecords ops rfl
  exact ⟨ops, d, e, b, hd, ht, ⟨hdone, hloses⟩, hbefore, hafter, hkeeps,
    hagain _ _ rfl hi _ hparent _ hname, hblock, hexec, hb b hblock⟩

end DesignView
