import DesignView.Proofs.Catalog.Building
import DesignView.Proofs.Catalog.Flat
import DesignView.Proofs.Catalog.FreshCell

/-!
Links of ports. The ports of a cell are not linked before the cell is. A link of the cell links its
ports by their names, but of the groups just those at the top level of the cell. A load puts no
group into another one, so in a cell that it builds all ports are linked.
-/

namespace DesignView.Catalog

variable {c c' : Catalog} {x : CellId} {y : Cell} {p : PortId} {q : Port}
variable {timing : List TimingLibrary} {id : TimingId} {t : TimingCell}

theorem Unlinked.mono (h : c.Unlinked x) (hports : ∀ ⦃p q'⦄, c'.ports.find? p = some q' →
    q'.cell = x → q'.timing = none ∨ ∃ q, c.ports.find? p = some q ∧ q.cell = q'.cell ∧
      q.timing = q'.timing) : c'.Unlinked x := by
  intro p q' hq' hx
  rcases hports hq' hx with hnone | ⟨q, hq, hcell, htiming⟩
  · exact hnone
  · rw [← htiming, h hq (hcell.trans hx)]

theorem Unlinked.of_find? (h : c.Unlinked x) (hports : ∀ ⦃p q⦄, c'.ports.find? p = some q →
    q.cell = x → c.ports.find? p = some q) : c'.Unlinked x :=
  h.mono fun _ _ hq' hx => .inr ⟨_, hports hq' hx, rfl, rfl⟩

theorem Unlinked.beside {z : CellId} (h : c.Unlinked x) (hbeside : c.Beside z c') (hx : x ≠ z) :
    c'.Unlinked x :=
  h.of_find? fun p q hq hcell => (hbeside.ports p q (hcell ▸ hx)).1 hq

def LinksFollow (c : Catalog) : Prop :=
  ∀ ⦃x y⦄, c.face? x = some y → y.timing = none → c.Unlinked x

theorem Step.linksFollow (s : c.Step c') (hi : c.Intact) (h : c.LinksFollow) :
    c'.LinksFollow := by
  intro x y hy hfree
  -- Where no cell changes, it is to be seen that no port of the cell is linked then.
  have same (hsame : c.SameCells c') (hports : ∀ ⦃p q'⦄, c'.ports.find? p = some q' → q'.cell = x →
      q'.timing = none ∨ ∃ q, c.ports.find? p = some q ∧ q.cell = q'.cell ∧
        q.timing = q'.timing) : c'.Unlinked x :=
    (h ((hsame.faces x).symm.trans hy) hfree).mono hports
  cases s with
  | addLibrary | recordAll | setBoundaries | forgetBoundary => exact h hy hfree
  | removeLibrary id =>
    rw [face?, hi.tidy.cells_removeLibrary] at hy
    obtain ⟨z, hz, rfl⟩ := Option.map_eq_some_iff.1 hy
    refine (h (face?_of_find? (Option.filter_eq_some_iff.1 hz).1) hfree).of_find? fun p q hq _ => ?_
    rw [hi.tidy.ports_removeLibrary, Option.filter_eq_some_iff] at hq
    exact hq.1
  | buildCell library name source =>
    rw [face?_buildCell] at hy
    split at hy
    · next hx => exact hx ▸ unlinked_buildCell hi library name source _
    · next hx => exact (h hy hfree).beside (.buildCell hi.tidy library name source _) hx
  | addPort =>
    refine same (.addPort ..) fun p q' hq' _ => ?_
    rw [find?_addPort] at hq'
    split at hq'
    · cases hq'
      exact .inl rfl
    · exact .inr ⟨q', hq', rfl, rfl⟩
  | setDirection port direction =>
    refine same (.setPorts ..) fun p q' hq' _ => ?_
    rw [find?_setDirection] at hq'
    split at hq'
    · obtain ⟨q, hq, rfl⟩ := Option.map_eq_some_iff.1 hq'
      exact .inr ⟨q, hq, rfl, rfl⟩
    · exact .inr ⟨q', hq', rfl, rfl⟩
  | groupBuses cell msbFirst =>
    exact (h (((SameCells.groupBuses c cell msbFirst).faces x).symm.trans hy) hfree).groupBuses
      hi.tidy cell msbFirst
  | bundle e =>
    refine same (.bundle e) fun p q' hq' _ => ?_
    rcases bundle_eq_ok e with rfl | ⟨-, -, -, rfl⟩
    · exact .inr ⟨q', hq', rfl, rfl⟩
    · rw [find?_addGroup] at hq'
      split at hq'
      · cases hq'
        exact .inl rfl
      · exact .inr ⟨q', hq', rfl, rfl⟩
  | link cell id library t =>
    rw [(SameCells.link c cell id library t).faces, face?_setCellTiming] at hy
    split at hy
    · obtain ⟨z, -, rfl⟩ := Option.map_eq_some_iff.1 hy
      cases hfree
    · next hx => exact (h hy hfree).beside (.link hi cell id library t) hx

theorem Reachable.linksFollow (h : c.Reachable) : c.LinksFollow := by
  induction h with
  | refl =>
    intro x y hy
    cases hy
  | tail hrun s ih => exact s.linksFollow (Reachable.intact hrun) ih

theorem Reachable.unlinked (h : c.Reachable) (hx : c.cells.find? x = some y)
    (hfree : y.timing = none) : c.Unlinked x := h.linksFollow (face?_of_find? hx) hfree

/-- The cell is linked to a timing cell, and its ports are to the ports there of their names: all
ports at the top level, and of the ports in groups those that are no groups themselves. -/
structure LinkedTo (c : Catalog) (x : CellId) (y : Cell) (id : TimingId) (t : TimingCell) :
    Prop where
  cell : y.timing = some ⟨id, t.name⟩
  ports : ∀ ⦃p q⦄, c.ports.find? p = some q → q.cell = x → q.timing =
    if (p ∈ y.ports ∨ q.source ≠ .group) ∧ (t.port? q.name).isSome = true then
      some ⟨id, t.name, q.name⟩ else none

theorem Forest.mem_linkedPorts_iff (h : c.Forest x) (ht : c.Tidy) (hq : c.ports.find? p = some q)
    (hx : q.cell = x) : p ∈ c.linkedPorts x ↔ p ∈ c.topPorts x ∨ q.source ≠ .group := by
  have hbits : p ∈ c.bitsOf x ↔ q.source ≠ .group := by
    rw [h.mem_bitsOf_iff ht]
    constructor
    · rintro ⟨n, hn, -, hsource⟩
      cases (node?_of_find? hq).symm.trans hn
      exact hsource
    · exact fun hsource => ⟨q.node, node?_of_find? hq, hx, hsource⟩
  have hgroup : q.source = .group ↔ q.shape.members ≠ [] := h.groups (node?_of_find? hq) hx
  rw [linkedPorts, List.mem_append, List.mem_filter, hbits, port?, hq, Option.any_some,
    decide_eq_true_iff, ← hgroup]
  by_cases hsource : q.source = .group
  · simp [hsource]
  · simp [hsource]

theorem LinkedTo.of_find? (h : c.LinkedTo x y id t) (hports : ∀ ⦃p q⦄,
    c'.ports.find? p = some q → q.cell = x → c.ports.find? p = some q) : c'.LinkedTo x y id t :=
  ⟨h.cell, fun _ _ hq hx => h.ports (hports hq hx) hx⟩

theorem linkedTo_link (hforest : c.Forest x) (ht : c.Tidy) (hx : c.cells.find? x = some y)
    (hfree : c.Unlinked x) (library : String) : (c.link x id library t).1.LinkedTo x
      { y with timing := some ⟨id, t.name⟩ } id t := by
  refine ⟨rfl, fun p q' hq' hcell => ?_⟩
  rw [port?_link] at hq'
  obtain ⟨q, hq, rfl⟩ := Option.map_eq_some_iff.1 hq'
  have hqx : q.cell = x := by
    split at hcell <;> exact hcell
  have htop : c.topPorts x = y.ports := by
    rw [topPorts_eq, hx]
    rfl
  have hin := hforest.mem_linkedPorts_iff ht hq hqx
  rw [htop] at hin
  simp only [hin]
  split
  · rfl
  · exact hfree hq hqx

def LinksAll (c : Catalog) (x : CellId) (id : TimingId) (t : TimingCell) : Prop :=
  ∀ ⦃p q⦄, c.ports.find? p = some q → q.cell = x →
    (q.timing = some ⟨id, t.name, q.name⟩ ↔ (t.port? q.name).isSome = true)

theorem LinkedTo.linksAll_iff (h : c.LinkedTo x y id t) : c.LinksAll x id t ↔ ∀ ⦃p q⦄,
    c.ports.find? p = some q → q.cell = x → q.source = .group → p ∉ y.ports →
      t.port? q.name = none := by
  constructor
  · intro hall p q hq hx hsource hout
    by_contra hname
    have hlinked := (hall hq hx).2 (Option.isSome_iff_ne_none.2 hname)
    rw [h.ports hq hx, if_neg fun hin => hin.1.elim hout (absurd hsource)] at hlinked
    cases hlinked
  · intro hnested p q hq hx
    rw [h.ports hq hx]
    by_cases hin : p ∈ y.ports ∨ q.source ≠ .group
    · simp [hin, Option.isSome_iff_ne_none]
    · obtain ⟨hout, hsource⟩ := not_or.1 hin
      simp [hin, hnested hq hx (not_not.1 hsource) hout]

/-- The cell and its ports are not linked, or they are linked to the cell of its name in one of the
timing libraries. -/
def Settled (c : Catalog) (timing : List TimingLibrary) (x : CellId) (y : Cell) : Prop :=
  y.timing = none ∧ c.Unlinked x ∨ ∃ id library t, timing[id.index]? = some library ∧
    library.cell? y.name = some t ∧ c.LinkedTo x y id t

theorem Settled.of_find? (h : c.Settled timing x y) (hports : ∀ ⦃p q⦄,
    c'.ports.find? p = some q → q.cell = x → c.ports.find? p = some q) :
    c'.Settled timing x y := by
  rcases h with ⟨hfree, hnone⟩ | ⟨id, library, t, hlibrary, ht, hlinked⟩
  · exact .inl ⟨hfree, hnone.of_find? hports⟩
  · exact .inr ⟨id, library, t, hlibrary, ht, hlinked.of_find? hports⟩

theorem Build.settled (s : Build timing c c') (hc : c.Reachable)
    (h : ∀ y, c.cells.find? x = some y → c.Settled timing x y) (y : Cell)
    (hx : c'.cells.find? x = some y) : c'.Settled timing x y := by
  have hi := hc.intact
  have beside (hsame : c.SameAt x c') : c'.Settled timing x y :=
    (h y (hsame.cell.symm.trans hx)).of_find? fun p q hq hcell => (hsame.ports p q hcell).1 hq
  cases s with
  | addLibrary | recordAll | setBoundaries => exact beside ⟨rfl, fun _ _ _ => .rfl⟩
  | removeLibrary id =>
    rw [hi.tidy.cells_removeLibrary, Option.filter_eq_some_iff] at hx
    refine (h y hx.1).of_find? fun p q hq _ => ?_
    rw [hi.tidy.ports_removeLibrary, Option.filter_eq_some_iff] at hq
    exact hq.1
  | buildCell library name source =>
    by_cases hnew : x = ⟨c.count + 1⟩
    · subst hnew
      obtain ⟨z, hz, hface⟩ := exists_of_face? ((face?_buildCell ..).trans (if_pos rfl))
      cases hz.symm.trans hx
      have hfree : y.face.timing = none := by rw [hface]
      exact .inl ⟨hfree, unlinked_buildCell hi library name source _⟩
    · exact beside ((Beside.buildCell hi.tidy library name source _).sameAt hnew)
  | @groupBuses cell z hz hfree msbFirst =>
    by_cases hcell : x = cell
    · subst hcell
      have hface := (SameCells.groupBuses c x msbFirst).faces x
      rw [hz, face?_of_find? hx] at hface
      have hfree' : y.face.timing = none := (Option.some.inj hface) ▸ hfree
      exact .inl ⟨hfree', (hc.linksFollow hz hfree).groupBuses hi.tidy x msbFirst⟩
    · exact beside ((Beside.groupBuses hi cell msbFirst).sameAt hcell)
  | @link cell z id library t hz hfree hlibrary ht =>
    by_cases hcell : x = cell
    · subst hcell
      rw [cells_link, OrderedMap.find?_modify, if_pos rfl, hz] at hx
      cases hx
      exact .inr ⟨id, library, t, hlibrary, ht, linkedTo_link (hc.planted x) hi.tidy hz
        (hc.unlinked hz hfree) library.name⟩
    · exact beside ((Beside.link hi cell id library.name t).sameAt hcell)

theorem Builds.settled (h : Builds timing c c') (hc : c.Reachable)
    (hfree : ∀ y, c.cells.find? x = some y → y.timing = none) (hx : c'.cells.find? x = some y) :
    c'.Settled timing x y :=
  h.induct (motive := fun c' => ∀ y, c'.cells.find? x = some y → c'.Settled timing x y) hc
    (fun y hx => .inl ⟨hfree y hx, hc.unlinked hx (hfree y hx)⟩)
    (fun _ _ ha s ih => s.settled ha ih) y hx

def GroupsAtTop (c : Catalog) (x : CellId) : Prop :=
  ∀ ⦃p q⦄, c.ports.find? p = some q → q.cell = x → q.source = .group → p ∈ c.topPorts x

theorem GroupsAtTop.of_find? (h : c.GroupsAtTop x) (htop : c'.topPorts x = c.topPorts x)
    (hports : ∀ ⦃p q⦄, c'.ports.find? p = some q → q.cell = x → c.ports.find? p = some q) :
    c'.GroupsAtTop x := by
  intro p q hq hx hsource
  rw [htop]
  exact h (hports hq hx) hx hsource

theorem Fresh.groupsAtTop {ps : List PortSpec} (h : c.Fresh x ps) : c.GroupsAtTop x :=
  fun _ _ hq hx _ => h.all hq hx

theorem GroupsAtTop.groupBuses (h : c.GroupsAtTop x) (hi : c.Intact) (hc : c.Planted)
    (msbFirst : String → Bool) : (c.groupBuses x msbFirst).1.GroupsAtTop x := by
  obtain ⟨made, -, hlayout⟩ := hi.tidy.groupBuses_layout (hc x).rootsOnce msbFirst
  intro p q hq hx hsource
  by_contra hout
  have hforest := hc.groupBuses hi.tidy x msbFirst x
  obtain ⟨g, n, hn, hgx, hmem⟩ := (hforest.placed (node?_of_find? hq) hx).resolve_left hout
  obtain ⟨r, hr, rfl⟩ := Option.map_eq_some_iff.1 hn
  have hmem : p ∈ r.shape.members := hmem
  cases hold : c.ports.find? g with
  | none =>
    obtain ⟨bus, hmade⟩ := hlayout.only hr hold
    obtain ⟨r', bits, hr', hbus⟩ := hlayout.bus hmade
    cases hr.symm.trans hr'
    obtain ⟨_, _, -, -, hshape⟩ := hbus.shape
    rw [hshape] at hmem
    obtain ⟨⟨i, p⟩, hb, rfl⟩ := List.mem_map.1 hmem
    obtain ⟨q₀, hq₀, hscalar, -⟩ := bit?_eq_some.1 ((hbus.mem i p).1 hb).bit
    obtain ⟨shape, hkept⟩ := hlayout.kept hq₀
    cases hq.symm.trans hkept
    have hgroup : q₀.shape.members ≠ [] := ((hc x).groups (node?_of_find? hq₀) hx).1 hsource
    rw [hscalar] at hgroup
    exact hgroup rfl
  | some r₀ =>
    have hr' := hlayout.port hold
    cases hr.symm.trans hr'
    cases hplace : c.place? (c.topPorts x) made g with
    | some b =>
      rw [hplace] at hmem
      cases hmem
    | none =>
      -- The port was inside of the same group before, and cannot have been at the top level.
      rw [hplace] at hmem
      have hinside : c.Inside x p g := ⟨r₀.node, node?_of_find? hold, hgx, hmem⟩
      obtain ⟨l, hl, -⟩ := hi.refs hold (PortShape.mem_refs_of_members hmem)
      obtain ⟨q₀, hq₀, -⟩ := Option.map_eq_some_iff.1 hl
      obtain ⟨shape, hkept⟩ := hlayout.kept hq₀
      cases hq.symm.trans hkept
      exact (hc x).apart hinside (h hq₀ hx hsource)

theorem Build.groupsAtTop (s : Build timing c c') (hc : c.Reachable) (h : c.GroupsAtTop x) :
    c'.GroupsAtTop x := by
  have hi := hc.intact
  have beside (hsame : c.SameAt x c') : c'.GroupsAtTop x :=
    h.of_find? hsame.topPorts fun p q hq hcell => (hsame.ports p q hcell).1 hq
  cases s with
  | addLibrary | recordAll | setBoundaries => exact beside ⟨rfl, fun _ _ _ => .rfl⟩
  | removeLibrary id =>
    intro p q hq hx hsource
    have hi' := hi.removeLibrary id
    -- A port that stays is in a cell that stays.
    obtain ⟨l, hl⟩ := hi'.owned (portLabel?_of_find? hq)
    obtain ⟨y, hy, -⟩ := Option.map_eq_some_iff.1 hl
    have hy : (c.removeLibrary id).cells.find? x = some y := hx ▸ hy
    rw [topPorts_eq, hy]
    rw [hi.tidy.cells_removeLibrary, Option.filter_eq_some_iff] at hy
    rw [hi.tidy.ports_removeLibrary, Option.filter_eq_some_iff] at hq
    have htop := h hq.1 hx hsource
    rw [topPorts_eq, hy.1] at htop
    exact htop
  | buildCell library name source =>
    by_cases hnew : x = ⟨c.count + 1⟩
    · exact hnew ▸ (hi.fresh_buildCell library name source _).groupsAtTop
    · exact beside ((Beside.buildCell hi.tidy library name source _).sameAt hnew)
  | @groupBuses cell _ _ _ msbFirst =>
    by_cases hcell : x = cell
    · subst hcell
      exact h.groupBuses hi hc.planted msbFirst
    · exact beside ((Beside.groupBuses hi cell msbFirst).sameAt hcell)
  | @link cell _ id library t _ _ _ _ =>
    intro p q' hq' hx hsource
    obtain ⟨q, _, hq, rfl⟩ := exists_port_of_link hq'
    have hsame : (c.link cell id library.name t).1.topPorts x = c.topPorts x := by
      rw [topPorts_eq, topPorts_eq, cells_link, OrderedMap.find?_modify]
      split <;> cases c.cells.find? x <;> rfl
    rw [hsame]
    exact h hq hx hsource

theorem Builds.groupsAtTop (h : Builds timing c c') (hc : c.Reachable)
    (hnew : c.cells.find? x = none) : c'.GroupsAtTop x := by
  refine h.induct (motive := fun c' => c'.GroupsAtTop x) hc (fun p q hq hx => ?_)
    fun _ _ ha s ih => s.groupsAtTop ha ih
  have hnone : c.cellLabel? x = none := congrArg (Option.map Cell.label) hnew
  exact absurd ⟨q.label, portLabel?_of_find? hq, hx⟩ (hc.intact.not_owns hnone)

end DesignView.Catalog
