import DesignView.Network.Reach
import DesignView.Proofs.Catalog.Built
import DesignView.Proofs.Physical.History
import DesignView.Proofs.Physical.Joined

/-!
Sound networks: the database is well-formed, and the catalog knows the boundary terminals of the
modules as the design has them now. In a sound network the questions that a sweep asks about live
pins have answers, and these are what the tables of the design say.
-/

namespace DesignView.Network

structure Sound (n : Network) : Prop where
  db : n.db.WellFormed
  ports : n.catalog.Numbered n.timing.length
  boundaryKeys : n.catalog.boundaries.keys.Nodup
  boundaries : ∀ ⦃d⦄, n.design? = some d → ∀ m name,
    n.catalog.boundary? m name = d.modBTermNamed? m name

theorem fetch_of_mem {k : Kind} {α : Type} {t : Table k α} {id : Id k} (h : id ∈ t.ids) :
    ∃ a, t.find? id = some a ∧ t.fetch id = .ok a := by
  obtain ⟨a, ha⟩ := Table.mem_ids_iff.1 h
  exact ⟨a, ha, Table.fetch_eq_ok.2 ha⟩

variable {n : Network} {d : Design} {p : Pin}

theorem Sound.innerOf_ok (h : n.Sound) (hd : n.design? = some d) {t : ModITermId}
    (ht : t ∈ d.modITerms.ids) : ∃ r, n.innerOf t = .ok r ∧ ∀ b, r = some b ↔ d.Opposite t b := by
  have hwf := h.db.design hd
  obtain ⟨outer, houter, hfetch⟩ := fetch_of_mem ht
  obtain ⟨i, hi, hfetchi⟩ := fetch_of_mem (hwf.modITermModInst houter)
  refine ⟨n.catalog.boundary? i.master outer.name, ?_, fun b => ?_⟩
  · simp only [innerOf, hd, Design.modITerm, Design.modInst, hfetch]
    exact bind_eq_ok.2 ⟨outer, rfl, bind_eq_ok.2 ⟨i, hfetchi, rfl⟩⟩
  · rw [h.boundaries hd, Design.modBTermNamed?,
      hwf.modBTermNames.firstIn?_eq_some_iff hwf.modBTerms]
    constructor
    · rintro ⟨inner, hinner, hm, hname⟩
      exact ⟨outer, inner, i, houter, hinner, hi, hm.symm, hname.symm⟩
    · rintro ⟨outer', inner, i', houter', hinner, hi', hm, hname⟩
      obtain rfl : outer = outer' := Option.some.inj (houter.symm.trans houter')
      obtain rfl : i = i' := Option.some.inj (hi.symm.trans hi')
      exact ⟨inner, hinner, hm.symm, hname.symm⟩

theorem Sound.outerOf_ok (h : n.Sound) (hd : n.design? = some d) {b : ModBTermId}
    (hb : b ∈ d.modBTerms.ids) : ∃ r, n.outerOf b = .ok r ∧ ∀ t, r = some t ↔ d.Opposite t b := by
  have hwf := h.db.design hd
  obtain ⟨inner, hinner, hfetch⟩ := fetch_of_mem hb
  refine ⟨(d.instanceOf? inner.module).bind fun i => d.modITermNamed? i inner.name, ?_,
    fun t => ?_⟩
  · simp only [outerOf, hd, Design.modBTerm, hfetch]
    rfl
  · simp only [Option.bind_eq_some_iff, Design.instanceOf?, Design.modITermNamed?,
      hwf.oneInstance.firstWhere?_eq_some_iff hwf.modInsts,
      hwf.modITermNames.firstIn?_eq_some_iff hwf.modITerms]
    constructor
    · rintro ⟨_, ⟨i, hi, hm⟩, outer, houter, rfl, hname⟩
      exact ⟨outer, inner, i, houter, hinner, hi, hm, hname⟩
    · rintro ⟨outer, inner', i, houter, hinner', hi, hm, hname⟩
      obtain rfl : inner = inner' := Option.some.inj (hinner.symm.trans hinner')
      exact ⟨outer.modInst, ⟨i, hi, hm⟩, outer, houter, rfl, hname⟩

theorem Sound.facing_ok (h : n.Sound) (hd : n.design? = some d) (hp : d.Live p) :
    ∃ r, n.facing p = .ok r ∧ ∀ q, r = some q ↔ d.Faces p q := by
  cases p with
  | flat t | boundary t => exact ⟨none, rfl, fun q => by simp [Design.Faces]⟩
  | module t =>
    obtain ⟨r, hr, hiff⟩ := h.innerOf_ok hd hp
    refine ⟨r.map .moduleBoundary, bind_eq_ok.2 ⟨r, hr, rfl⟩, fun q => ?_⟩
    cases q <;> simp [Design.Faces, Option.map_eq_some_iff, hiff]
  | moduleBoundary b =>
    obtain ⟨r, hr, hiff⟩ := h.outerOf_ok hd hp
    refine ⟨r.map .module, bind_eq_ok.2 ⟨r, hr, rfl⟩, fun q => ?_⟩
    cases q <;> simp [Design.Faces, Option.map_eq_some_iff, hiff]

theorem netOf_ok (hd : n.design? = some d) (hp : d.Live p) (hh : p.isHierarchical = true) :
    ∃ r, n.netOf p = .ok r ∧ ∀ x, r = some x ↔ d.On p x := by
  cases p with
  | flat | boundary => cases hh
  | module t =>
    obtain ⟨a, -, hfetch⟩ := fetch_of_mem hp
    refine ⟨(d.modITermNets.netOf t).map .module, ?_, fun x => ?_⟩
    · simp only [netOf, hd, Design.modITerm, hfetch]
      rfl
    · cases x <;> simp [Design.On, Design.flatNet?, Design.moduleNet?, Option.map_eq_some_iff]
  | moduleBoundary t =>
    obtain ⟨a, -, hfetch⟩ := fetch_of_mem hp
    refine ⟨(d.modBTermNets.netOf t).map .module, ?_, fun x => ?_⟩
    · simp only [netOf, hd, Design.modBTerm, hfetch]
      rfl
    · cases x <;> simp [Design.On, Design.flatNet?, Design.moduleNet?, Option.map_eq_some_iff]

theorem memberships_ok (hd : n.design? = some d) (hp : d.Live p) :
    ∃ xs, n.memberships p = .ok xs ∧ ∀ x, x ∈ xs ↔ d.On p x := by
  have hboth (x : Net) : x ∈ (d.flatNet? p).toList.map Net.flat ++
      (d.moduleNet? p).toList.map Net.module ↔ d.On p x := by
    cases x <;> simp [Design.On]
  refine ⟨_, ?_, hboth⟩
  cases p
  all_goals
    obtain ⟨a, -, hfetch⟩ := fetch_of_mem hp
    simp only [memberships, hd, Design.iterm, Design.bterm, Design.modITerm, Design.modBTerm,
      hfetch]
    rfl

theorem memberships_live {xs : List Net} (hd : n.design? = some d)
    (e : n.memberships p = .ok xs) : d.Live p := by
  cases p
  all_goals
    simp only [memberships, hd] at e
    obtain ⟨a, ha, -⟩ := bind_eq_ok.1 e
    exact Table.mem_ids_of_find? (Table.fetch_eq_ok.1 ha)

theorem mem_listedOn_iff (hd : n.design? = some d) (hwf : d.WellFormed) {x : Net} :
    p ∈ n.listedOn x ↔ d.On p x := by
  cases x with
  | flat x =>
    cases p <;> simp [listedOn, hd, Design.On, Design.flatNet?,
      Attachments.mem_members hwf.itermNets.nodup, Attachments.mem_members hwf.btermNets.nodup]
  | module x =>
    cases p <;> simp [listedOn, hd, Design.On, Design.moduleNet?,
      Attachments.mem_members hwf.itermModNets.nodup,
      Attachments.mem_members hwf.btermModNets.nodup,
      Attachments.mem_members hwf.modITermNets.nodup,
      Attachments.mem_members hwf.modBTermNets.nodup]

theorem Sound.mem_listedOn (h : n.Sound) (hd : n.design? = some d) {x : Net} :
    p ∈ n.listedOn x ↔ d.On p x := mem_listedOn_iff hd (h.db.design hd)

theorem mem_nets (hd : n.design? = some d) {x : Net} : x ∈ n.nets ↔ d.LiveNet x := by
  cases x <;> simp [nets, hd, Design.LiveNet]

theorem Sound.typesOf_ok (h : n.Sound) (hd : n.design? = some d) (hp : d.Live p) :
    ∃ types?, n.typesOf p = .ok types? := by
  cases p with
  | flat t =>
    obtain ⟨a, -, hfetch⟩ := fetch_of_mem hp
    have hdb : n.db.design? = some d := hd
    simp only [typesOf, hd, Database.itermTypes?, hdb, Design.iterm, hfetch]
    exact ⟨_, rfl⟩
  | boundary t =>
    obtain ⟨a, -, hfetch⟩ := fetch_of_mem hp
    simp only [typesOf, hd, Design.bterm, hfetch]
    exact ⟨_, rfl⟩
  | module t =>
    obtain ⟨r, hr, hiff⟩ := h.innerOf_ok hd hp
    simp only [typesOf, hd, hr]
    cases r with
    | none => exact ⟨_, rfl⟩
    | some b =>
      obtain ⟨_, inner, _, -, hinner, -⟩ := (hiff b).1 rfl
      obtain ⟨a, -, hfetch⟩ := fetch_of_mem (Table.mem_ids_of_find? hinner)
      exact ⟨_, bind_eq_ok.2 ⟨some b, rfl, bind_eq_ok.2 ⟨a, hfetch, rfl⟩⟩⟩
  | moduleBoundary t =>
    obtain ⟨a, -, hfetch⟩ := fetch_of_mem hp
    simp only [typesOf, hd, Design.modBTerm, hfetch]
    exact ⟨_, rfl⟩

theorem Sound.isSupply_ok (h : n.Sound) (hd : n.design? = some d) (hp : d.Live p) :
    ∃ b, n.isSupply p = .ok b := by
  obtain ⟨types?, e⟩ := h.typesOf_ok hd hp
  exact ⟨_, bind_eq_ok.2 ⟨types?, e, rfl⟩⟩

theorem isSignal_eq_ok {b : Bool} : n.isSignal p = .ok b ↔ n.isSupply p = .ok !b := by
  constructor
  · intro e
    obtain ⟨s, hs, e⟩ := bind_eq_ok.1 e
    rw [hs, ← pure_eq_ok.1 e, Bool.not_not]
  · intro e
    exact bind_eq_ok.2 ⟨!b, e, pure_eq_ok.2 b.not_not⟩

theorem Sound.isSignal_ok (h : n.Sound) (hd : n.design? = some d) (hp : d.Live p) :
    ∃ b, n.isSignal p = .ok b := by
  obtain ⟨s, hs⟩ := h.isSupply_ok hd hp
  exact ⟨!s, isSignal_eq_ok.2 (by rw [Bool.not_not, hs])⟩

end DesignView.Network
