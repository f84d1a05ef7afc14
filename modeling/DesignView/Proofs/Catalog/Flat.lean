import DesignView.Proofs.Catalog.Part

/-!
Flat catalogs: no group has a group among its members, as long as ports are grouped by the names of
bits alone. In a flat catalog, what a link of a cell does is settled by the cell and its ports,
whatever else there is.
-/

namespace DesignView

namespace Catalog

open Graft (bare)

variable {c c' : Catalog} {x z : CellId} {p : PortId}

/-- No member of a group has members. -/
def Flat (c : Catalog) : Prop := ∀ ⦃p q⦄, c.ports.find? p = some q → ∀ r ∈ q.shape.members,
  ∀ ⦃q'⦄, c.ports.find? r = some q' → q'.shape.members = []

theorem flat_empty : ({} : Catalog).Flat := fun p q hq => by cases hq

namespace Flat

theorem of_bare (h : c.Flat) (hbare : bare.catalog c' = bare.catalog c) : c'.Flat := by
  intro p q hq r hr q' hq'
  obtain ⟨q₀, hq₀, hsame⟩ := exists_port_of_bare hbare hq
  obtain ⟨q₀', hq₀', hsame'⟩ := exists_port_of_bare hbare hq'
  have hshape : q.shape = q₀.shape := by rw [hsame]
  have hshape' : q'.shape = q₀'.shape := by rw [hsame']
  exact hshape' ▸ h hq₀ r (hshape ▸ hr) hq₀'

theorem addPort (h : c.Flat) (x : CellId) (name : String) (source : PortSource)
    (direction : PortDirection) : (c.addPort x name source direction).2.Flat := by
  intro p q hq r hr q' hq'
  rw [find?_addPort] at hq hq'
  split at hq
  · cases hq
    cases hr
  · split at hq'
    · cases hq'
      rfl
    · exact h hq r hr hq'

theorem buildCell (h : c.Flat) (library : LibraryId) (name : String) (source : CellSource)
    (ps : List PortSpec) : (c.buildCell library name source ps).Flat := by
  have hcell : (c.addCell library name source).2.Flat := h
  exact List.foldlRecOn (motive := Flat) ps _ hcell fun c hc s _ => hc.addPort ..

theorem groups {name : String} {members : List PortId} (h : c.Flat) (hi : c.Intact)
    (hscalar : ∀ p ∈ members, ∃ q, c.ports.find? p = some q ∧ q.shape = .scalar)
    (g : c.Groups x name members c') : c'.Flat := by
  intro p q hq r hr q' hq'
  by_cases hp : p = ⟨c.count + 1⟩
  · obtain ⟨direction, shape, hmembers, -, hgroup⟩ := g.group
    cases hgroup.symm.trans (hp ▸ hq)
    obtain ⟨q₀, hq₀, hshape⟩ := hscalar r (hmembers ▸ hr)
    obtain ⟨s, hs, hkept⟩ := g.kept hi.tidy hq₀
    cases hs.symm.trans hq'
    rcases hkept with rfl | ⟨-, i, rfl⟩
    · exact congrArg PortShape.members hshape
    · rfl
  · obtain ⟨q₀, hq₀⟩ := g.origin hp hq
    obtain ⟨s, hs, hkept⟩ := g.kept hi.tidy hq₀
    cases hs.symm.trans hq
    rcases hkept with rfl | ⟨-, i, rfl⟩
    · -- A member of an old group is an old port.
      obtain ⟨l, hl, -⟩ := hi.refs hq₀ (PortShape.mem_refs_of_members hr)
      obtain ⟨r₀, hr₀, -⟩ := Option.map_eq_some_iff.1 hl
      obtain ⟨s, hs, hkept⟩ := g.kept hi.tidy hr₀
      cases hs.symm.trans hq'
      rcases hkept with rfl | ⟨-, i, rfl⟩
      · exact h hq₀ r hr hr₀
      · rfl
    · cases hr

theorem groupBuses (h : c.Flat) (hi : c.Intact) (x : CellId) (msbFirst : String → Bool) :
    (c.groupBuses x msbFirst).1.Flat := by
  have hboth : (c.groupBuses x msbFirst).1.Intact ∧ (c.groupBuses x msbFirst).1.Flat :=
    groupBuses_induct (motive := fun c' => c'.Intact ∧ c'.Flat) msbFirst hi.tidy ⟨hi, h⟩
      fun _ _ _ _ _ hc hscalar g => ⟨hc.1.groups g, hc.2.groups hc.1 hscalar g⟩
  exact hboth.2

end Flat

structure SameAt (c : Catalog) (x : CellId) (c' : Catalog) : Prop where
  cell : c'.cells.find? x = c.cells.find? x
  ports : ∀ p q, q.cell = x → (c'.ports.find? p = some q ↔ c.ports.find? p = some q)

theorem Beside.sameAt (h : c.Beside z c') (hx : x ≠ z) : c.SameAt x c' :=
  ⟨h.cells x hx, fun p q hq => h.ports p q (hq ▸ hx)⟩

namespace SameAt

theorem refl (c : Catalog) (x : CellId) : c.SameAt x c := ⟨rfl, fun _ _ _ => Iff.rfl⟩

theorem topPorts (h : c.SameAt x c') : c'.topPorts x = c.topPorts x := by
  rw [Catalog.topPorts, h.cell, Catalog.topPorts]

theorem port?_of_owns (h : c.SameAt x c') (hp : c.Owns x p) :
    c'.ports.find? p = c.ports.find? p := by
  obtain ⟨l, hl, hcell⟩ := hp
  obtain ⟨q, hq, rfl⟩ := Option.map_eq_some_iff.1 hl
  rw [hq]
  exact (h.ports p q hcell).2 hq

theorem expand (h : c.SameAt x c') (hi : c.Intact) (hf : c.Flat) (hp : c.Owns x p) (depth : Nat) :
    c'.expand (depth + 2) p = c.expand 2 p := by
  have hport := h.port?_of_owns hp
  unfold Catalog.expand
  rw [hport]
  cases hq : c.ports.find? p with
  | none => rfl
  | some q =>
    dsimp only
    split
    · rfl
    · refine List.flatMap_congr fun r hr => ?_
      have hcell : q.cell = x := Beside.cell_of_owns hp hq
      have howns : c.Owns x r := hcell ▸ hi.refs hq (PortShape.mem_refs_of_members hr)
      unfold Catalog.expand
      rw [h.port?_of_owns howns]
      cases hr' : c.ports.find? r with
      | none => rfl
      | some q' =>
        dsimp only
        rw [if_pos (hf hq r hr hr'), if_pos (hf hq r hr hr')]

theorem bitsOf_eq (h : c.SameAt x c') (hi : c.Intact) (hf : c.Flat) :
    c'.bitsOf x = (c.topPorts x).flatMap (c.expand 2) := by
  rw [Catalog.bitsOf, h.topPorts]
  refine List.flatMap_congr fun p hp => ?_
  have howns : c.Owns x p := hi.owns_topPorts hp
  obtain ⟨depth, hdepth⟩ : ∃ depth, c'.ports.size = depth + 1 := by
    obtain ⟨l, hl, -⟩ := id howns
    obtain ⟨q, hq, -⟩ := Option.map_eq_some_iff.1 hl
    have hmem := OrderedMap.mem_of_find? ((h.port?_of_owns howns).trans hq)
    exact Nat.exists_eq_succ_of_ne_zero (List.length_pos_of_mem hmem).ne'
  rw [hdepth]
  exact h.expand hi hf howns depth

theorem bitsOf (h : c.SameAt x c') (hi : c.Intact) (hf : c.Flat) : c'.bitsOf x = c.bitsOf x :=
  (h.bitsOf_eq hi hf).trans ((refl c x).bitsOf_eq hi hf).symm

theorem linkedPorts (h : c.SameAt x c') (hi : c.Intact) (hf : c.Flat) :
    c'.linkedPorts x = c.linkedPorts x := by
  rw [Catalog.linkedPorts, Catalog.linkedPorts, h.bitsOf hi hf, h.topPorts]
  congr 1
  refine List.filter_congr fun p hp => ?_
  rw [port?, port?, h.port?_of_owns (hi.owns_topPorts hp)]

theorem mismatches (h : c.SameAt x c') (hi : c.Intact) (hi' : c'.Intact) (hf : c.Flat)
    (library : String) (timing : TimingCell) :
    c'.mismatches x library timing = c.mismatches x library timing := by
  have hunmatched : ∀ p ∈ c.bitsOf x,
      c'.unmatchedPort? library timing p = c.unmatchedPort? library timing p := by
    intro p hp
    rw [unmatchedPort?, unmatchedPort?, port?, port?, h.port?_of_owns (hi.owns_bitsOf hp)]
  have hnamed (name : String) :
      (c'.portNamed? x name).isNone = (c.portNamed? x name).isNone := by
    rw [Bool.eq_iff_iff, Option.isNone_iff_eq_none, Option.isNone_iff_eq_none,
      portNamed?_eq_none_iff hi'.tidy.ports.nodup, portNamed?_eq_none_iff hi.tidy.ports.nodup]
    have hlabel (p : PortId) (l : PortLabel) (hl : l.cell = x) :
        c'.portLabel? p = some l ↔ c.portLabel? p = some l := by
      simp only [portLabel?, Option.map_eq_some_iff]
      exact exists_congr fun q => and_congr_left fun hq =>
        h.ports p q ((congrArg PortLabel.cell hq).trans hl)
    exact ⟨fun hall p l hl hx => hall p l ((hlabel p l hx).2 hl) hx,
      fun hall p l hl hx => hall p l ((hlabel p l hx).1 hl) hx⟩
  simp only [Catalog.mismatches, h.bitsOf hi hf, hnamed, List.filterMap_congr hunmatched]

end SameAt

theorem port?_linkPort (c : Catalog) (id : TimingId) (timing : TimingCell) (r p : PortId) :
    (c.linkPort id timing r).ports.find? p = (c.ports.find? p).map fun q =>
      if p = r ∧ (timing.port? q.name).isSome = true then
        { q with timing := some ⟨id, timing.name, q.name⟩ } else q := by
  unfold linkPort port?
  by_cases hp : p = r
  · subst hp
    cases hq : c.ports.find? p with
    | none => exact hq
    | some q =>
      dsimp only
      split
      · next hname =>
        have hset : (c.setPortTiming p ⟨id, timing.name, q.name⟩).ports.find? p =
            if p = p then (c.ports.find? p).map fun q' =>
              { q' with timing := some ⟨id, timing.name, q.name⟩ } else c.ports.find? p :=
          OrderedMap.find?_modify ..
        rw [hset, if_pos rfl, hq, Option.map_some, Option.map_some, if_pos ⟨rfl, hname⟩]
      · next hname => rw [hq, Option.map_some, if_neg fun h => hname h.2]
  · have hsame : (c.ports.find? p).map (fun q =>
        if p = r ∧ (timing.port? q.name).isSome = true then
          { q with timing := some ⟨id, timing.name, q.name⟩ } else q) = c.ports.find? p := by
      simp only [hp, false_and, if_false, Option.map_id']
    rw [hsame]
    split
    · rfl
    · split
      · exact (OrderedMap.find?_modify ..).trans (if_neg hp)
      · rfl

theorem port?_link (c : Catalog) (x : CellId) (id : TimingId) (library : String)
    (timing : TimingCell) (p : PortId) : (c.link x id library timing).1.ports.find? p =
      (c.ports.find? p).map fun q =>
        if p ∈ c.linkedPorts x ∧ (timing.port? q.name).isSome = true then
          { q with timing := some ⟨id, timing.name, q.name⟩ } else q := by
  have hfold (ps : List PortId) (c : Catalog) :
      (ps.foldl (fun c r => c.linkPort id timing r) c).ports.find? p =
        (c.ports.find? p).map fun q =>
          if p ∈ ps ∧ (timing.port? q.name).isSome = true then
            { q with timing := some ⟨id, timing.name, q.name⟩ } else q := by
    induction ps generalizing c with
    | nil => simp
    | cons r ps ih =>
      rw [List.foldl_cons, ih, port?_linkPort, Option.map_map]
      refine congrArg (Option.map · _) (funext fun q => ?_)
      by_cases hname : (timing.port? q.name).isSome = true
      · by_cases hp : p = r <;> by_cases hps : p ∈ ps <;> simp [hp, hps, hname]
      · simp [hname]
  exact hfold (c.linkedPorts x) (c.setCellTiming x ⟨id, timing.name⟩)

theorem exists_port_of_link {id : TimingId} {library : String} {timing : TimingCell} {q' : Port}
    (h : (c.link x id library timing).1.ports.find? p = some q') :
    ∃ q ref, c.ports.find? p = some q ∧ q' = { q with timing := ref } := by
  rw [port?_link] at h
  obtain ⟨q, hq, rfl⟩ := Option.map_eq_some_iff.1 h
  refine ⟨q, ?_⟩
  split
  · exact ⟨_, hq, rfl⟩
  · exact ⟨q.timing, hq, rfl⟩

theorem cells_link (c : Catalog) (x : CellId) (id : TimingId) (library : String)
    (timing : TimingCell) : (c.link x id library timing).1.cells =
      c.cells.modify x fun y => { y with timing := some ⟨id, timing.name⟩ } := by
  refine List.foldlRecOn (motive := fun c' : Catalog => c'.cells =
    c.cells.modify x fun y => { y with timing := some ⟨id, timing.name⟩ }) _ _ rfl
    fun c' hc' p _ => ?_
  unfold linkPort
  split
  · exact hc'
  · split <;> exact hc'

theorem linkedPorts_bare (c : Catalog) (x : CellId) :
    (bare.catalog c).linkedPorts x = c.linkedPorts x := by
  rw [linkedPorts, linkedPorts, bitsOf_bare, topPorts_bare]
  congr 1
  refine List.filter_congr fun p _ => ?_
  rw [port?, port?, port?_bare, Option.any_map]

theorem linkedPorts_link (c : Catalog) (z : CellId) (id : TimingId) (library : String)
    (timing : TimingCell) (x : CellId) :
    (c.link z id library timing).1.linkedPorts x = c.linkedPorts x := by
  rw [← linkedPorts_bare, Graft.catalog_link (g := bare) rfl, linkedPorts_bare]

/-- A cell is the same in both catalogs, and so is what a link of it looks at and what it
reports. -/
structure AlikeAt (c : Catalog) (x : CellId) (c' : Catalog) : Prop extends c.SameAt x c' where
  linkedPorts : c'.linkedPorts x = c.linkedPorts x
  mismatches : ∀ library timing, c'.mismatches x library timing = c.mismatches x library timing

theorem SameAt.alikeAt (h : c.SameAt x c') (hi : c.Intact) (hi' : c'.Intact) (hf : c.Flat) :
    c.AlikeAt x c' := ⟨h, h.linkedPorts hi hf, h.mismatches hi hi' hf⟩

theorem SameAt.alikeAt_of_bare (h : c.SameAt x c') (hbare : bare.catalog c' = bare.catalog c) :
    c.AlikeAt x c' := by
  refine ⟨h, ?_, fun library timing => ?_⟩
  · rw [← linkedPorts_bare, hbare, linkedPorts_bare]
  · rw [← mismatches_bare, hbare, mismatches_bare]

theorem AlikeAt.link (hi : c.Intact) (hx : x ≠ z) (id : TimingId) (library : String)
    (timing : TimingCell) : c.AlikeAt x (c.link z id library timing).1 :=
  ((Beside.link hi z id library timing).sameAt hx).alikeAt_of_bare (Graft.catalog_link rfl ..)

def Unlinked (c : Catalog) (x : CellId) : Prop :=
  ∀ ⦃p q⦄, c.ports.find? p = some q → q.cell = x → q.timing = none

theorem unlinked_buildCell (hi : c.Intact) (library : LibraryId) (name : String)
    (source : CellSource) (ps : List PortSpec) :
    (c.buildCell library name source ps).Unlinked ⟨c.count + 1⟩ := by
  have hcell : (c.addCell library name source).2.Unlinked ⟨c.count + 1⟩ := by
    intro p q hq hx
    obtain ⟨k, hk⟩ := hi.owned (portLabel?_of_find? hq)
    have hk : c.cellLabel? q.cell = some k := hk
    cases (hx ▸ hi.tidy.cellLabel?_next).symm.trans hk
  refine List.foldlRecOn (motive := fun c' : Catalog => c'.Unlinked ⟨c.count + 1⟩) ps _ hcell
    fun c' hc' s _ p q hq hx => ?_
  rw [find?_addPort] at hq
  split at hq
  · cases hq
    rfl
  · exact hc' hq hx

theorem Unlinked.groupBuses (h : c.Unlinked x) (ht : c.Tidy) (z : CellId)
    (msbFirst : String → Bool) : (c.groupBuses z msbFirst).1.Unlinked x := by
  refine groupBuses_induct (motive := fun c' => c'.Unlinked x) msbFirst ht h
    fun c c' name members ht hc _ g p q hq hx => ?_
  by_cases hp : p = ⟨c.count + 1⟩
  · obtain ⟨direction, shape, -, -, hgroup⟩ := g.group
    cases hgroup.symm.trans (hp ▸ hq)
    rfl
  · obtain ⟨q₀, hq₀⟩ := g.origin hp hq
    obtain ⟨s, hs, -⟩ := g.kept ht hq₀
    cases hs.symm.trans hq
    have htiming : q₀.timing = none := hc hq₀ hx
    exact htiming

structure Grows (c c' : Catalog) : Prop where
  intact : c'.Intact
  flat : c'.Flat
  beside : c.Beside ⟨c.count + 1⟩ c'
  cell : ∃ y, c'.cells.find? ⟨c.count + 1⟩ = some y ∧ y.timing = none
  unlinked : c'.Unlinked ⟨c.count + 1⟩

theorem Intact.grows (hi : c.Intact) (hf : c.Flat) (library : LibraryId) (name : String)
    (source : CellSource) {ps : List PortSpec}
    (hi' : (c.buildCell library name source ps).Intact) (msbFirst : String → Bool) :
    c.Grows ((c.buildCell library name source ps).groupBuses ⟨c.count + 1⟩ msbFirst).1 where
  intact := hi'.groupBuses ..
  flat := (hf.buildCell ..).groupBuses hi' ..
  beside := (Beside.buildCell hi.tidy ..).trans (.groupBuses hi' ..)
  cell := by
    have hface := (SameCells.groupBuses (c.buildCell library name source ps) ⟨c.count + 1⟩
      msbFirst).faces ⟨c.count + 1⟩
    rw [face?_buildCell, if_pos rfl] at hface
    obtain ⟨y, hy, hyface⟩ := exists_of_face? hface
    have htiming : y.face.timing = none := by rw [hyface]
    exact ⟨y, hy, htiming⟩
  unlinked := (unlinked_buildCell hi library name source ps).groupBuses hi'.tidy ..

end Catalog

theorem Graft.sameAt (g : Graft) (e : Catalog) {x : CellId} (hx : x ∈ g.base.cells.keys) :
    g.base.SameAt x (g.catalog e) := by
  refine ⟨OrderedMap.find?_graft_of_mem hx, fun p q hq => ?_⟩
  by_cases hp : p ∈ g.base.ports.keys
  · have hfind : (g.catalog e).ports.find? p = g.base.ports.find? p :=
      OrderedMap.find?_graft_of_mem hp
    rw [hfind]
  · constructor
    · intro h
      rcases List.mem_append.1 (OrderedMap.mem_of_find? h) with hin | hin
      · exact absurd (OrderedMap.mem_keys_of_mem hin) hp
      · obtain ⟨a, -, heq⟩ := List.mem_map.1 hin
        cases heq
        have hcell : g.cellId a.2.cell = x := hq
        exact absurd (hcell ▸ hx) (g.cellId_not_mem a.2.cell)
    · intro h
      exact absurd (OrderedMap.mem_keys_iff.2 ⟨q, h⟩) hp

theorem Graft.unlinked_of_not_mem (g : Graft) (hg : g.links = false) (e : Catalog) {x : CellId}
    {y : Cell} (hout : x ∉ g.base.cells.keys) (hx : (g.catalog e).cells.find? x = some y) :
    y.timing = none ∧ (g.catalog e).Unlinked x := by
  have hlinks : g.shift.links = false := hg
  refine ⟨?_, fun p q hq hcell => ?_⟩
  · rcases List.mem_append.1 (OrderedMap.mem_of_find? hx) with hin | hin
    · exact absurd (OrderedMap.mem_keys_of_mem hin) hout
    · obtain ⟨a, -, heq⟩ := List.mem_map.1 hin
      cases heq
      simp [Shift.cell, hlinks]
  · rcases List.mem_append.1 (OrderedMap.mem_of_find? hq) with hin | hin
    · have hq := OrderedMap.find?_of_mem g.intact.tidy.ports.nodup hin
      obtain ⟨k, hk⟩ := g.intact.owned (Catalog.portLabel?_of_find? hq)
      obtain ⟨y', hy', -⟩ := Option.map_eq_some_iff.1 hk
      have hcell : q.label.cell = x := hcell
      exact absurd (OrderedMap.mem_keys_iff.2 ⟨y', hy'⟩) (hcell ▸ hout)
    · obtain ⟨a, -, heq⟩ := List.mem_map.1 hin
      cases heq
      simp [Shift.port, hlinks]

end DesignView
