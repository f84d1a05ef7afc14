import DesignView.Proofs.Physical.Integrity
import DesignView.Proofs.Physical.TwoEnds

/-!
Destruction is local. An object that is destroyed takes the terminals that it owns with it, and
their names. Everything else stays as it is and in its order, but for references to what is gone.
-/

namespace DesignView

namespace Table

variable {k : Kind} {α γ : Type} {t t' : Table k α} {key : α → γ} {gone : List (Id k)}

structure Loses (t : Table k α) (gone : List (Id k)) (t' : Table k α) : Prop where
  entries : t'.entries = t.entries.filter fun e => e.1 ∉ gone

theorem loses_eraseAll (t : Table k α) (gone : List (Id k)) : t.Loses gone (t.eraseAll gone) :=
  ⟨t.entries_eraseAll gone⟩

theorem Indexed.distinct {find : γ → Option (Id k)} (h : t.Indexed key find) : t.Distinct key := by
  intro x y a b hx hy hkey
  have hfx : find (key a) = some x := (h.exact _ x).2 ⟨a, hx, rfl⟩
  have hfy : find (key a) = some y := (h.exact _ y).2 ⟨b, hy, hkey.symm⟩
  exact Option.some.inj (hfx.symm.trans hfy)

def NamedBy (t : Table k α) (key : α → γ) (names : OrderedMap γ (Id k)) : Prop :=
  names.entries = t.entries.map fun e => (key e.2, e.1)

section

variable [DecidableEq γ]

def unname (t : Table k α) (key : α → γ) (gone : List (Id k)) (names : OrderedMap γ (Id k)) :
    OrderedMap γ (Id k) :=
  (gone.filterMap fun id => (t.find? id).map key).foldl OrderedMap.erase names

theorem Distinct.namedBy_unname (h : t.Distinct key) (ht : t.Valid) {names : OrderedMap γ (Id k)}
    (hn : t.NamedBy key names) (gone : List (Id k)) :
    (t.eraseAll gone).NamedBy key (t.unname key gone names) := by
  have hnames : t.unname key gone names =
      names.filter fun c _ => c ∉ gone.filterMap fun id => (t.find? id).map key :=
    OrderedMap.foldl_filter_ne (fun c (_ : Id k) => c) _ names
  rw [NamedBy, hnames, entries_eraseAll]
  show names.entries.filter _ = _
  rw [hn, List.filter_map]
  refine congrArg (List.map _) (List.filter_congr fun e he => ?_)
  have hfind : t.find? e.1 = some e.2 := ht.find?_eq_some_iff.2 he
  simp only [Function.comp_apply, List.mem_filterMap, Option.map_eq_some_iff, decide_eq_decide,
    not_iff_not]
  constructor
  · rintro ⟨id, hid, a, ha, hkey⟩
    rwa [h hfind ha hkey.symm]
  · intro hid
    exact ⟨e.1, hid, e.2, hfind, rfl⟩

/-- The look-up leads to what is left as it did before, and the names of what is gone are free.
Names that are kept beside the table are still those of its objects once the names of what is gone
are erased. -/
structure Forgets (t : Table k α) (key : α → γ) (gone : List (Id k)) (t' : Table k α)
    (find find' : γ → Option (Id k)) : Prop where
  kept : ∀ c, find' c = (find c).filter (· ∉ gone)
  freed : ∀ ⦃id a⦄, t.find? id = some a → id ∈ gone → find' (key a) = none
  beside : ∀ names, t.NamedBy key names → t'.NamedBy key (t.unname key gone names)

theorem Indexed.forgets {find find' : γ → Option (Id k)} (h : t.Indexed key find) (ht : t.Valid)
    (h' : (t.eraseAll gone).Indexed key find') :
    t.Forgets key gone (t.eraseAll gone) find find' := by
  have hkept (c : γ) : find' c = (find c).filter (· ∉ gone) := by
    ext id
    simp only [h'.exact, find?_eraseAll, Option.filter_eq_some_iff, h.exact]
    by_cases hid : id ∈ gone <;> simp [hid]
  refine ⟨hkept, fun id a ha hid => ?_, fun names hn => h.distinct.namedBy_unname ht hn gone⟩
  have hfind : find (key a) = some id := (h.exact (key a) id).2 ⟨a, ha, rfl⟩
  rw [hkept, hfind]
  simp [hid]

end

end Table

namespace Attachments

variable {t n : Kind}

/-- The terminals in `xs` and the nets in `ys` are gone. Any other terminal is on the net that it
was on, unless this is gone, and any other net lists the terminals that it listed, in their order
and without those that are gone. Writing both ends one after the other comes to the same. -/
structure Loses (a : Attachments t n) (xs : List (Id t)) (ys : List (Id n))
    (a' : Attachments t n) : Prop where
  netOf : ∀ x, a'.netOf x = if x ∈ xs then none else (a.netOf x).filter (· ∉ ys)
  members : ∀ y, a'.members y = if y ∈ ys then [] else (a.members y).filter (· ∉ xs)
  ends : a'.ends = ys.foldl TwoEnds.dropNet (xs.foldl TwoEnds.disconnect a.ends)

def without (a : Attachments t n) (xs : List (Id t)) (ys : List (Id n)) : Attachments t n :=
  ys.foldl clearNet (a.detachAll xs)

theorem without_eq (a : Attachments t n) (xs : List (Id t)) (ys : List (Id n)) :
    a.without xs ys = a.filter fun x y => y ∉ ys && x ∉ xs := by
  have hxs : a.detachAll xs = a.filter fun x _ => x ∉ xs :=
    OrderedMap.foldl_filter_ne (fun x _ => x) xs a
  have hys (b : Attachments t n) : ys.foldl clearNet b = b.filter fun _ y => y ∉ ys :=
    OrderedMap.foldl_filter_ne (fun _ y => y) ys b
  rw [without, hxs, hys]
  simp only [OrderedMap.filter, List.filter_filter]

theorem loses_without {a : Attachments t n} (h : a.keys.Nodup) (xs : List (Id t))
    (ys : List (Id n)) : a.Loses xs ys (a.without xs ys) where
  netOf x := by
    rw [without_eq]
    show (a.filter _).find? x = _
    rw [OrderedMap.find?_filter h, netOf]
    by_cases hx : x ∈ xs <;> simp [hx]
  members y := by
    rw [without_eq, members_filter]
    by_cases hy : y ∈ ys <;> simp [hy]
  ends := by
    have hrun := (ends_run h (.disconnect xs :: ys.map .dropNet)).2
    rw [List.foldl_cons, List.foldl_cons, List.foldl_map, List.foldl_map] at hrun
    exact hrun

end Attachments

namespace Design

structure Gone where
  insts : List InstId := []
  iterms : List ITermId := []
  bterms : List BTermId := []
  nets : List NetId := []
  modInsts : List ModInstId := []
  modITerms : List ModITermId := []
  modBTerms : List ModBTermId := []
  modNets : List ModNetId := []

inductive Target
  | inst (id : InstId)
  | net (id : NetId)
  | bterm (id : BTermId)
  | modInst (id : ModInstId)
  | modITerm (id : ModITermId)
  | modBTerm (id : ModBTermId)
  | modNet (id : ModNetId)

variable (d : Design)

def Has : Target → Prop
  | .inst id => id ∈ d.insts.ids
  | .net id => id ∈ d.nets.ids
  | .bterm id => id ∈ d.bterms.ids
  | .modInst id => id ∈ d.modInsts.ids
  | .modITerm id => id ∈ d.modITerms.ids
  | .modBTerm id => id ∈ d.modBTerms.ids
  | .modNet id => id ∈ d.modNets.ids

def destroy : Target → Except Refusal Design
  | .inst id => d.destroyInst id
  | .net id => d.destroyNet id
  | .bterm id => d.destroyBTerm id
  | .modInst id => d.destroyModInst id
  | .modITerm id => d.destroyModITerm id
  | .modBTerm id => d.destroyModBTerm id
  | .modNet id => d.destroyModNet id

/-- The object itself and, if it is an instance, the terminals that it owns. -/
def taken : Target → Gone
  | .inst id => { insts := [id], iterms := (d.itermsOf id).map (·.1) }
  | .net id => { nets := [id] }
  | .bterm id => { bterms := [id] }
  | .modInst id => { modInsts := [id], modITerms := (d.modITermsOf id).map (·.1) }
  | .modITerm id => { modITerms := [id] }
  | .modBTerm id => { modBTerms := [id] }
  | .modNet id => { modNets := [id] }

/-- The design is left without the objects in `g`. What is left keeps its attributes, its owner, its
place in every list and its name, and whatever referred to `g` no longer does. -/
structure LosesOnly (g : Gone) (d' : Design) : Prop where
  name : d'.name = d.name
  topModule : d'.topModule = d.topModule
  flags : d'.flags = d.flags
  modules : d'.modules = d.modules
  insts : d.insts.Loses g.insts d'.insts
  iterms : d.iterms.Loses g.iterms d'.iterms
  bterms : d.bterms.Loses g.bterms d'.bterms
  nets : d.nets.Loses g.nets d'.nets
  modInsts : d.modInsts.Loses g.modInsts d'.modInsts
  modITerms : d.modITerms.Loses g.modITerms d'.modITerms
  modBTerms : d.modBTerms.Loses g.modBTerms d'.modBTerms
  modNets : d.modNets.Loses g.modNets d'.modNets
  itermNets : d.itermNets.Loses g.iterms g.nets d'.itermNets
  itermModNets : d.itermModNets.Loses g.iterms g.modNets d'.itermModNets
  btermNets : d.btermNets.Loses g.bterms g.nets d'.btermNets
  btermModNets : d.btermModNets.Loses g.bterms g.modNets d'.btermModNets
  modITermNets : d.modITermNets.Loses g.modITerms g.modNets d'.modITermNets
  modBTermNets : d.modBTermNets.Loses g.modBTerms g.modNets d'.modBTermNets
  itermsOf : ∀ i, d'.itermsOf i = (d.itermsOf i).filter fun e => e.1 ∉ g.iterms
  instsIn : ∀ m, d'.instsIn m = (d.instsIn m).filter (· ∉ g.insts)
  modInstsIn : ∀ m, d'.modInstsIn m = (d.modInstsIn m).filter (· ∉ g.modInsts)
  modNetsIn : ∀ m, d'.modNetsIn m = (d.modNetsIn m).filter fun e => e.1 ∉ g.modNets
  modBTermsOf : ∀ m, d'.modBTermsOf m = (d.modBTermsOf m).filter fun e => e.1 ∉ g.modBTerms
  modITermsOf : ∀ i, d'.modITermsOf i = (d.modITermsOf i).filter fun e => e.1 ∉ g.modITerms
  instNames : d.insts.Forgets (·.name) g.insts d'.insts d.instNamed? d'.instNamed?
  btermNames : d.bterms.Forgets (·.name) g.bterms d'.bterms d.btermNamed? d'.btermNamed?
  netNames : d.nets.Forgets (·.name) g.nets d'.nets d.netNamed? d'.netNamed?
  moduleNames : ∀ name, d'.moduleNamed? name = d.moduleNamed? name
  modInstNames : d.modInsts.Forgets (fun i => (i.parent, i.name)) g.modInsts d'.modInsts
    (fun c => d.modInstNamed? c.1 c.2) fun c => d'.modInstNamed? c.1 c.2
  modBTermNames : d.modBTerms.Forgets (fun t => (t.module, t.name)) g.modBTerms d'.modBTerms
    (fun c => d.modBTermNamed? c.1 c.2) fun c => d'.modBTermNamed? c.1 c.2
  modNetNames : d.modNets.Forgets (fun n => (n.module, n.name)) g.modNets d'.modNets
    (fun c => d.modNetNamed? c.1 c.2) fun c => d'.modNetNamed? c.1 c.2
  itermNames : d.iterms.Forgets (fun t => (t.inst, t.name)) g.iterms d'.iterms
    (fun c => d.itermNamed? c.1 c.2) fun c => d'.itermNamed? c.1 c.2
  modITermNames : d.modITerms.Forgets (fun t => (t.modInst, t.name)) g.modITerms d'.modITerms
    (fun c => d.modITermNamed? c.1 c.2) fun c => d'.modITermNamed? c.1 c.2
  instances : d.modInsts.Forgets (·.master) g.modInsts d'.modInsts d.instanceOf? d'.instanceOf?

def without (g : Gone) : Design := { d with
  insts := d.insts.eraseAll g.insts
  iterms := d.iterms.eraseAll g.iterms
  bterms := d.bterms.eraseAll g.bterms
  nets := d.nets.eraseAll g.nets
  modInsts := d.modInsts.eraseAll g.modInsts
  modITerms := d.modITerms.eraseAll g.modITerms
  modBTerms := d.modBTerms.eraseAll g.modBTerms
  modNets := d.modNets.eraseAll g.modNets
  itermNets := d.itermNets.without g.iterms g.nets
  itermModNets := d.itermModNets.without g.iterms g.modNets
  btermNets := d.btermNets.without g.bterms g.nets
  btermModNets := d.btermModNets.without g.bterms g.modNets
  modITermNets := d.modITermNets.without g.modITerms g.modNets
  modBTermNets := d.modBTermNets.without g.modBTerms g.modNets }

variable {d} {d' : Design} {t : Target}

theorem destroy_eq (ht : d.Has t) : d.destroy t = .ok (d.without (d.taken t)) := by
  have accepted {k : Kind} {α : Type} {s : Table k α} {id : Id k} (h : id ∈ s.ids) (e : Design) :
      (s.requireLive id >>= fun _ => pure e) = .ok e := by
    have hlive : s.requireLive id = .ok () := Table.requireLive_eq_ok.2 h
    rw [hlive]
    rfl
  cases t with
  | inst id => exact accepted ht _
  | net id => exact accepted ht _
  | bterm id => exact accepted ht _
  | modInst id => exact accepted ht _
  | modITerm id => exact accepted ht _
  | modBTerm id => exact accepted ht _
  | modNet id => exact accepted ht _

theorem WellFormed.destroy (h : d.WellFormed) (e : d.destroy t = .ok d') : d'.WellFormed := by
  cases t with
  | inst id => exact h.destroyInst e
  | net id => exact h.destroyNet e
  | bterm id => exact h.destroyBTerm e
  | modInst id => exact h.destroyModInst e
  | modITerm id => exact h.destroyModITerm e
  | modBTerm id => exact h.destroyModBTerm e
  | modNet id => exact h.destroyModNet e

theorem WellFormed.losesOnly {g : Gone} (h : d.WellFormed) (h' : (d.without g).WellFormed) :
    d.LosesOnly g (d.without g) where
  name := rfl
  topModule := rfl
  flags := rfl
  modules := rfl
  insts := Table.loses_eraseAll ..
  iterms := Table.loses_eraseAll ..
  bterms := Table.loses_eraseAll ..
  nets := Table.loses_eraseAll ..
  modInsts := Table.loses_eraseAll ..
  modITerms := Table.loses_eraseAll ..
  modBTerms := Table.loses_eraseAll ..
  modNets := Table.loses_eraseAll ..
  itermNets := Attachments.loses_without h.itermNets.nodup ..
  itermModNets := Attachments.loses_without h.itermModNets.nodup ..
  btermNets := Attachments.loses_without h.btermNets.nodup ..
  btermModNets := Attachments.loses_without h.btermModNets.nodup ..
  modITermNets := Attachments.loses_without h.modITermNets.nodup ..
  modBTermNets := Attachments.loses_without h.modBTermNets.nodup ..
  itermsOf _ := Table.select_eraseAll ..
  instsIn _ := Table.idsWhere_eraseAll ..
  modInstsIn _ := Table.idsWhere_eraseAll ..
  modNetsIn _ := Table.select_eraseAll ..
  modBTermsOf _ := Table.select_eraseAll ..
  modITermsOf _ := Table.select_eraseAll ..
  instNames := h.integrity.instNames.forgets h.insts h'.integrity.instNames
  btermNames := h.integrity.btermNames.forgets h.bterms h'.integrity.btermNames
  netNames := h.integrity.netNames.forgets h.nets h'.integrity.netNames
  moduleNames _ := rfl
  modInstNames := h.integrity.modInstNames.forgets h.modInsts h'.integrity.modInstNames
  modBTermNames := h.integrity.modBTermNames.forgets h.modBTerms h'.integrity.modBTermNames
  modNetNames := h.integrity.modNetNames.forgets h.modNets h'.integrity.modNetNames
  itermNames := h.integrity.itermNames.forgets h.iterms h'.integrity.itermNames
  modITermNames := h.integrity.modITermNames.forgets h.modITerms h'.integrity.modITermNames
  instances := h.integrity.instances.2.forgets h.modInsts h'.integrity.instances.2

end Design

theorem Database.Reachable.destroy_losesOnly {db : Database} (h : db.Reachable) {d : Design}
    (hd : db.design? = some d) {t : Design.Target} (ht : d.Has t) :
    ∃ d', d.destroy t = .ok d' ∧ d.LosesOnly (d.taken t) d' ∧
      ∀ id i, t = .modInst id → d.modInsts.find? id = some i → ∀ parent ∈ d.modules.ids, ∀ name,
        d'.modInstNamed? parent name = none →
          ∃ made, d'.createModInst parent i.master name = .ok made := by
  have hw : d.WellFormed := h.wellFormed.design hd
  obtain ⟨d', hdone, hloses⟩ : ∃ d', d.destroy t = .ok d' ∧ d.LosesOnly (d.taken t) d' :=
    ⟨_, Design.destroy_eq ht, hw.losesOnly (hw.destroy (Design.destroy_eq ht))⟩
  refine ⟨d', hdone, hloses, ?_⟩
  rintro id i rfl hi parent hparent name hname
  have htop : i.master ≠ d'.topModule := hloses.topModule ▸ hw.topFree hi
  have hmaster : i.master ∈ d'.modules.ids := hloses.modules ▸ hw.modInstMaster hi
  have hfree : d'.instanceOf? i.master = none :=
    hloses.instances.freed hi (List.mem_singleton_self id)
  apply Design.exists_createModInst htop _ hmaster hfree hname
  rwa [hloses.modules]

end DesignView
