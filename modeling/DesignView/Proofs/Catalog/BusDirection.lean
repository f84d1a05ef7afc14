import DesignView.Proofs.Catalog.Building
import DesignView.Proofs.Catalog.Flat
import DesignView.Proofs.Catalog.FreshCell

/-!
Buses that stray: they have another direction than the common one of their bits. A bus is made with
the common direction, and nothing that loads do changes the direction of a port, so no bus strays by
a load. A bus can only stray if it or one of its bits is given a direction later.
-/

namespace DesignView.Catalog

variable {c c' : Catalog} {x : CellId} {p g t : PortId} {q : Port} {d e : PortDirection}
variable {ports members : List PortId} {timing : List TimingLibrary}

/-- The bus has another direction than the common one of its bits. -/
def Strays (c : Catalog) (g : PortId) : Prop :=
  ∃ q members, c.IsBus g q members ∧ ¬c.CommonDirection members q.direction

def AtTop (c : Catalog) (p : PortId) : Prop :=
  ∃ q, c.ports.find? p = some q ∧ ∃ l, c.cellLabel? q.cell = some l ∧ l.source = .design

theorem commonDirection_iff_of_eq (h : ∀ p ∈ ports,
    (c'.ports.find? p).map (·.direction) = (c.ports.find? p).map (·.direction)) :
    c'.CommonDirection ports d ↔ c.CommonDirection ports d := by
  have hshares (d : PortDirection) : c'.Shares ports d ↔ c.Shares ports d := by
    refine forall₂_congr fun p hp => ?_
    have hsome (c : Catalog) : (∃ q, c.ports.find? p = some q ∧ q.direction = d) ↔
        (c.ports.find? p).map (·.direction) = some d := Option.map_eq_some_iff.symm
    rw [hsome, hsome, h p hp]
  simp only [CommonDirection, hshares]

theorem Intact.owns_member (hi : c.Intact) (h : c.IsBus g q members) (hp : p ∈ members) :
    c.Owns q.cell p := by
  obtain ⟨hq, first, last, hshape⟩ := h
  refine hi.refs hq (PortShape.mem_refs_of_members ?_)
  rw [hshape]
  exact hp

theorem Intact.find?_member (hi : c.Intact) (h : c.IsBus g q members) (hp : p ∈ members) :
    ∃ r, c.ports.find? p = some r ∧ r.cell = q.cell := by
  obtain ⟨l, hl, hcell⟩ := hi.owns_member h hp
  obtain ⟨r, hr, rfl⟩ := Option.map_eq_some_iff.1 hl
  exact ⟨r, hr, hcell⟩

/-- A port that stays keeps its direction and stays the bus that it is, its cell stays what it is,
and no new bus strays. -/
structure Steady (c c' : Catalog) : Prop where
  intact : c'.Intact
  direction : ∀ ⦃p q q'⦄, c.ports.find? p = some q → c'.ports.find? p = some q' →
    q'.cell = q.cell ∧ q'.direction = q.direction
  bus : ∀ ⦃p q q' members⦄, c.ports.find? p = some q → c'.ports.find? p = some q' →
    (c'.IsBus p q' members ↔ c.IsBus p q members)
  fresh : ∀ ⦃p q members⦄, c.ports.find? p = none → c'.IsBus p q members →
    c'.CommonDirection members q.direction
  label : ∀ ⦃x l l'⦄, c.cellLabel? x = some l → c'.cellLabel? x = some l' → l' = l

namespace Steady

theorem strays_iff (h : c.Steady c') (hi : c.Intact) (hstored : ∃ q, c'.ports.find? g = some q) :
    c'.Strays g ↔ c.Strays g := by
  obtain ⟨q', hq'⟩ := hstored
  cases hq : c.ports.find? g with
  | none =>
    refine iff_of_false ?_ ?_
    · rintro ⟨r, members, hbus, hdirection⟩
      exact hdirection (h.fresh hq hbus)
    · rintro ⟨r, members, hbus, -⟩
      cases hq.symm.trans hbus.1
  | some q =>
    have hcommon {members : List PortId} (hbus' : c'.IsBus g q' members) :
        c'.CommonDirection members q'.direction ↔ c.CommonDirection members q.direction := by
      have hbus := (h.bus hq hq').1 hbus'
      rw [(h.direction hq hq').2, commonDirection_iff_of_eq fun p hp => ?_]
      obtain ⟨r, hr, -⟩ := hi.find?_member hbus hp
      obtain ⟨r', hr', -⟩ := h.intact.find?_member hbus' hp
      rw [hr, hr', Option.map_some, Option.map_some, (h.direction hr hr').2]
    constructor
    · rintro ⟨r, members, hbus', hdirection⟩
      cases hq'.symm.trans hbus'.1
      exact ⟨q, members, (h.bus hq hq').1 hbus', mt (hcommon hbus').2 hdirection⟩
    · rintro ⟨r, members, hbus, hdirection⟩
      cases hq.symm.trans hbus.1
      have hbus' := (h.bus hq hq').2 hbus
      exact ⟨q', members, hbus', mt (hcommon hbus').1 hdirection⟩

theorem strays (h : c.Steady c') (hi : c.Intact) (hstrays : c'.Strays g) : c.Strays g := by
  obtain ⟨q, members, hbus, -⟩ := id hstrays
  exact (h.strays_iff hi ⟨q, hbus.1⟩).1 hstrays

theorem strays_iff_of_gains {newCell : CellLabel → Prop} {newPort : PortLabel → Prop}
    (h : c.Steady c') (hi : c.Intact) (hgains : c.Gains newCell newPort c') :
    c'.Strays g ↔ c.Strays g := by
  refine ⟨h.strays hi, fun hstrays => ?_⟩
  obtain ⟨q, members, hbus, -⟩ := id hstrays
  obtain ⟨q', hq', -⟩ :=
    Option.map_eq_some_iff.1 (hgains.keptPorts (portLabel?_of_find? hbus.1))
  exact (h.strays_iff hi ⟨q', hq'⟩).2 hstrays

theorem atTop (h : c.Steady c') (htop : c.AtTop p) (hstored : ∃ q, c'.ports.find? p = some q) :
    c'.AtTop p := by
  obtain ⟨q, hq, l, hl, hsource⟩ := htop
  obtain ⟨q', hq'⟩ := hstored
  obtain ⟨l', hl'⟩ := h.intact.owned (portLabel?_of_find? hq')
  have hcell : q'.label.cell = q.cell := (h.direction hq hq').1
  rw [hcell] at hl'
  refine ⟨q', hq', l', (h.direction hq hq').1.symm ▸ hl', ?_⟩
  rw [h.label hl hl', hsource]

theorem of_find? (hi' : c'.Intact)
    (hports : ∀ ⦃p q⦄, c'.ports.find? p = some q → c.ports.find? p = some q)
    (hlabels : ∀ ⦃x l⦄, c'.cellLabel? x = some l → c.cellLabel? x = some l) : c.Steady c' where
  intact := hi'
  direction p q q' hq hq' := by
    cases (hports hq').symm.trans hq
    exact ⟨rfl, rfl⟩
  bus p q q' members hq hq' := by
    cases (hports hq').symm.trans hq
    exact and_congr_left fun _ => iff_of_true hq' hq
  fresh p q members hq hbus := by cases hq.symm.trans (hports hbus.1)
  label x l l' hl hl' := by
    cases (hlabels hl').symm.trans hl
    rfl

theorem of_kept (hi' : c'.Intact)
    (hports : ∀ ⦃p q⦄, c.ports.find? p = some q → c'.ports.find? p = some q)
    (hnew : ∀ ⦃p q members⦄, c.ports.find? p = none → ¬c'.IsBus p q members)
    (hlabels : ∀ ⦃x l⦄, c.cellLabel? x = some l → c'.cellLabel? x = some l) : c.Steady c' where
  intact := hi'
  direction p q q' hq hq' := by
    cases (hports hq).symm.trans hq'
    exact ⟨rfl, rfl⟩
  bus p q q' members hq hq' := by
    cases (hports hq).symm.trans hq'
    exact and_congr_left fun _ => iff_of_true hq' hq
  fresh p q members hq hbus := absurd hbus (hnew hq)
  label x l l' hl hl' := by
    cases (hlabels hl).symm.trans hl'
    rfl

theorem buildCell (hi : c.Intact) (library : LibraryId) (name : String) (source : CellSource)
    {ps : List PortSpec} (hi' : (c.buildCell library name source ps).Intact) :
    c.Steady (c.buildCell library name source ps) := by
  have hbeside := Beside.buildCell hi.tidy library name source ps
  refine of_kept hi' (fun p q hq => ?_) (fun p q members hnone hbus => ?_) fun x l hl => ?_
  · refine (hbeside.ports p q ?_).2 hq
    rintro hx
    exact hi.not_owns hi.tidy.cellLabel?_next ⟨q.label, portLabel?_of_find? hq, hx⟩
  · by_cases hx : q.cell = ⟨c.count + 1⟩
    · -- The ports of the new cell are scalar.
      have hfresh := hi.fresh_buildCell library name source ps
      obtain ⟨s, -, hs⟩ := hfresh.of_mem (hfresh.all hbus.1 hx)
      cases hs.symm.trans hbus.1
      obtain ⟨first, last, hshape⟩ := hbus.2
      cases hshape
    · cases hnone.symm.trans ((hbeside.ports p q hx).1 hbus.1)
  · rw [cellLabel?_buildCell, if_neg]
    · exact hl
    · rintro rfl
      cases hi.tidy.cellLabel?_next.symm.trans hl

theorem addPort (hi : c.Intact) (x : CellId) (name : String) (source : PortSource)
    (direction : PortDirection) (hi' : (c.addPort x name source direction).2.Intact) :
    c.Steady (c.addPort x name source direction).2 := by
  refine of_kept hi' (fun p q hq => ?_) (fun p q members hnone hbus => ?_) fun z l hl => ?_
  · rw [find?_addPort, if_neg]
    · exact hq
    · rintro rfl
      cases (hi.tidy.ports.find?_fresh rfl).symm.trans hq
  · obtain ⟨hq, first, last, hshape⟩ := hbus
    rw [find?_addPort] at hq
    split at hq
    · cases hq
      cases hshape
    · cases hnone.symm.trans hq
  · rw [cellLabel?_addPort]
    exact hl

theorem addBundle (hi : c.Intact) (x : CellId) (name : String) (members : List PortId)
    (hi' : (c.addGroup x name (.bundle members)).2.Intact) :
    c.Steady (c.addGroup x name (.bundle members)).2 := by
  refine of_kept hi' (fun p q hq => ?_) (fun p q members' hnone hbus => ?_) fun z l hl => ?_
  · rw [find?_addGroup, if_neg]
    · exact hq
    · rintro rfl
      cases (hi.tidy.ports.find?_fresh rfl).symm.trans hq
  · obtain ⟨hq, first, last, hshape⟩ := hbus
    rw [find?_addGroup] at hq
    split at hq
    · cases hq
      cases hshape
    · cases hnone.symm.trans hq
  · exact (cellLabel?_of_head? (head?_of_face? ((SameCells.addGroup ..).faces z))).trans hl

theorem bundle (hi : c.Intact) {name : String} {r : Option PortId}
    (e : c.bundle x name members = .ok (r, c')) : c.Steady c' := by
  have hi' := hi.bundle e
  rcases bundle_eq_ok e with rfl | ⟨-, -, -, rfl⟩
  · exact of_find? hi' (fun _ _ => id) fun _ _ => id
  · exact addBundle hi x name members hi'

theorem groupBuses (hi : c.Intact) (hnodup : (c.topPorts x).Nodup) (msbFirst : String → Bool) :
    c.Steady (c.groupBuses x msbFirst).1 := by
  obtain ⟨made, -, hlayout⟩ := hi.tidy.groupBuses_layout hnodup msbFirst
  have hport {p : PortId} {q q' : Port} (hq : c.ports.find? p = some q)
      (hq' : (c.groupBuses x msbFirst).1.ports.find? p = some q') :
      ∃ shape, q' = { q with shape } ∧
        ∀ first last members, shape = .bus first last members ↔
          q.shape = .bus first last members := by
    have hsame := (hlayout.port hq).symm.trans hq'
    refine ⟨_, (Option.some.inj hsame).symm, fun first last members => ?_⟩
    cases hplace : c.place? (c.topPorts x) made p with
    | none => exact Iff.rfl
    | some b =>
      obtain ⟨bus, -, hfirst⟩ := place?_eq_some.1 hplace
      obtain ⟨q₀, hq₀, hscalar, -⟩ := bit?_eq_some.1 hfirst.bit
      cases hq₀.symm.trans hq
      rw [hscalar]
      exact iff_of_false nofun nofun
  refine ⟨hi.groupBuses x msbFirst, fun p q q' hq hq' => ?_, fun p q q' members hq hq' => ?_,
    fun g q members hnone hbus => ?_, fun z l l' hl hl' => ?_⟩
  · obtain ⟨shape, rfl, -⟩ := hport hq hq'
    exact ⟨rfl, rfl⟩
  · obtain ⟨shape, rfl, hshape⟩ := hport hq hq'
    simp only [IsBus, hq, hq', hshape, true_and]
  · obtain ⟨bus, hmade⟩ := hlayout.only hbus.1 hnone
    obtain ⟨q₀, bits, hq₀, hmadeBus⟩ := hlayout.bus hmade
    cases hq₀.symm.trans hbus.1
    obtain ⟨first, last, hshape⟩ := hbus.2
    obtain ⟨_, _, -, -, hmadeShape⟩ := hmadeBus.shape
    cases hmadeShape.symm.trans hshape
    -- The bits were there when the bus was made.
    refine (commonDirection_iff_of_eq fun p hp => ?_).2 hmadeBus.direction
    obtain ⟨⟨i, p⟩, hb, rfl⟩ := List.mem_map.1 hp
    obtain ⟨q₁, hq₁⟩ := ((hmadeBus.mem i p).1 hb).stored
    obtain ⟨shape, hq₁'⟩ := hlayout.kept hq₁
    rw [hq₁, hq₁', Option.map_some, Option.map_some]
  · have hlabel : (c.groupBuses x msbFirst).1.cellLabel? z = c.cellLabel? z :=
      cellLabel?_of_head? (head?_of_face? ((SameCells.groupBuses ..).faces z))
    cases hl.symm.trans (hlabel.symm.trans hl')
    rfl

theorem link (hi : c.Intact) (x : CellId) (id : TimingId) (library : String) (t : TimingCell) :
    c.Steady (c.link x id library t).1 := by
  have hport {p : PortId} {q q' : Port} (hq : c.ports.find? p = some q)
      (hq' : (c.link x id library t).1.ports.find? p = some q') :
      ∃ timing, q' = { q with timing } := by
    obtain ⟨q₀, timing, hq₀, rfl⟩ := exists_port_of_link hq'
    exact ⟨timing, by rw [Option.some.inj (hq₀.symm.trans hq)]⟩
  refine ⟨hi.link x id library t, fun p q q' hq hq' => ?_, fun p q q' members hq hq' => ?_,
    fun p q members hnone hbus => ?_, fun z l l' hl hl' => ?_⟩
  · obtain ⟨timing, rfl⟩ := hport hq hq'
    exact ⟨rfl, rfl⟩
  · obtain ⟨timing, rfl⟩ := hport hq hq'
    simp only [IsBus, hq, hq', true_and]
  · rw [IsBus, port?_link, hnone] at hbus
    cases hbus.1
  · cases hl.symm.trans ((cellLabel?_of_head? (head?_link ..)).symm.trans hl')
    rfl

end Steady

theorem Build.steady (s : Build timing c c') (h : c.Reachable) : c.Steady c' := by
  have hi := h.intact
  have hi' := s.step.intact hi
  cases s with
  | addLibrary | recordAll | setBoundaries => exact .of_find? hi' (fun _ _ => id) fun _ _ => id
  | removeLibrary id =>
    refine .of_find? hi' (fun p q hq => ?_) fun x l hl => ?_
    · rw [hi.tidy.ports_removeLibrary, Option.filter_eq_some_iff] at hq
      exact hq.1
    · exact (hi.tidy.cellLabel?_removeLibrary.1 hl).1
  | buildCell library name source => exact .buildCell hi library name source hi'
  | groupBuses _ _ msbFirst => exact .groupBuses hi (h.planted _).rootsOnce msbFirst
  | link => exact .link hi ..

theorem Builds.strays (h : Builds timing c c') (hc : c.Reachable) (hstrays : c'.Strays g) :
    c.Strays g :=
  h.induct (motive := fun c' => c'.Strays g → c.Strays g) hc id
    (fun _ _ ha s ih hb => ih ((s.steady ha).strays ha.intact hb)) hstrays

theorem AtTop.setDirection (h : c.AtTop p) : (c.setDirection t d).AtTop p := by
  obtain ⟨q, hq, l, hl, hsource⟩ := h
  by_cases hp : p = t
  · refine ⟨{ q with direction := d }, ?_, l, hl, hsource⟩
    rw [find?_setDirection, if_pos hp, hq]
    rfl
  · exact ⟨q, by rw [find?_setDirection, if_neg hp, hq], l, hl, hsource⟩

theorem isBus_setDirection : (c.setDirection t d).IsBus g q members ↔
    ∃ q₀, c.IsBus g q₀ members ∧ q = if g = t then { q₀ with direction := d } else q₀ := by
  simp only [IsBus, find?_setDirection]
  constructor
  · rintro ⟨hq, hshape⟩
    split at hq
    · next hg =>
      obtain ⟨q₀, hq₀, rfl⟩ := Option.map_eq_some_iff.1 hq
      exact ⟨q₀, ⟨hq₀, hshape⟩, (if_pos hg).symm⟩
    · next hg => exact ⟨q, ⟨hq, hshape⟩, (if_neg hg).symm⟩
  · rintro ⟨q₀, ⟨hq₀, hshape⟩, rfl⟩
    rw [hq₀]
    split
    · exact ⟨rfl, hshape⟩
    · exact ⟨rfl, hshape⟩

theorem shares_setDirection_of_mem (hp : p ∈ ports) (hq : c.ports.find? p = some q) :
    (c.setDirection p d).Shares ports e ↔ d = e ∧ c.Shares (ports.filter (· ≠ p)) e := by
  have hself : (c.setDirection p d).ports.find? p = some { q with direction := d } := by
    rw [find?_setDirection, if_pos rfl, hq, Option.map_some]
  constructor
  · intro h
    obtain ⟨q', hq', rfl⟩ := h p hp
    cases hself.symm.trans hq'
    refine ⟨rfl, fun r hr => ?_⟩
    obtain ⟨hr, hne⟩ := List.mem_filter.1 hr
    obtain ⟨q₁, hq₁, hd⟩ := h r hr
    rw [find?_setDirection, if_neg (of_decide_eq_true hne)] at hq₁
    exact ⟨q₁, hq₁, hd⟩
  · rintro ⟨rfl, h⟩ r hr
    by_cases hrp : r = p
    · subst hrp
      exact ⟨_, hself, rfl⟩
    · obtain ⟨q₁, hq₁, hd⟩ := h r (List.mem_filter.2 ⟨hr, decide_eq_true hrp⟩)
      exact ⟨q₁, by rw [find?_setDirection, if_neg hrp, hq₁], hd⟩

/-- Once the port `t` has the direction `d`, the ports have `e` in common: that is `d` if the others
share it. -/
def CommonOnce (c : Catalog) (ports : List PortId) (t : PortId) (d e : PortDirection) : Prop :=
  c.Shares (ports.filter (· ≠ t)) d ∧ e = d ∨
    ¬c.Shares (ports.filter (· ≠ t)) d ∧ e = .unknown

theorem commonDirection_setDirection_of_mem (hp : p ∈ ports) (hq : c.ports.find? p = some q) :
    (c.setDirection p d).CommonDirection ports e ↔ c.CommonOnce ports p d e := by
  simp only [CommonDirection, CommonOnce, shares_setDirection_of_mem hp hq]
  constructor
  · rintro (⟨rfl, hshares⟩ | ⟨rfl, hnone⟩)
    · exact .inl ⟨hshares, rfl⟩
    · exact .inr ⟨fun hshares => hnone d ⟨rfl, hshares⟩, rfl⟩
  · rintro (⟨hshares, rfl⟩ | ⟨hnone, rfl⟩)
    · exact .inl ⟨rfl, hshares⟩
    · refine .inr ⟨rfl, fun d' hd' => hnone ?_⟩
      rw [hd'.1]
      exact hd'.2

theorem commonDirection_setDirection_of_not_mem (hp : p ∉ ports) :
    (c.setDirection p d).CommonDirection ports e ↔ c.CommonDirection ports e := by
  refine commonDirection_iff_of_eq fun r hr => ?_
  rw [find?_setDirection, if_neg]
  rintro rfl
  exact hp hr

theorem Planted.not_mem_self (h : c.Planted) (hbus : c.IsBus g q members) : g ∉ members := by
  obtain ⟨hq, first, last, hshape⟩ := hbus
  intro hg
  have hinside : c.Inside q.cell g g := ⟨q.node, node?_of_find? hq, rfl, by rwa [Port.node, hshape]⟩
  exact absurd ((h q.cell).inside hinside).1 (Nat.lt_irrefl _)

/-- A port is given a direction: if it is a bus, this has to be the common one of the bits, and if
it is a bit, the bus has to have the direction that is common then. -/
theorem Planted.strays_setDirection (h : c.Planted) (hi : c.Intact) :
    (c.setDirection t d).Strays g ↔ ∃ q members, c.IsBus g q members ∧
      (t = g ∧ ¬c.CommonDirection members d ∨
        t ∈ members ∧ ¬c.CommonOnce members t d q.direction ∨
        t ≠ g ∧ t ∉ members ∧ ¬c.CommonDirection members q.direction) := by
  have hcase {q : Port} {members : List PortId} (hbus : c.IsBus g q members) :
      ¬(c.setDirection t d).CommonDirection members
          (if g = t then { q with direction := d } else q).direction ↔
        t = g ∧ ¬c.CommonDirection members d ∨
        t ∈ members ∧ ¬c.CommonOnce members t d q.direction ∨
        t ≠ g ∧ t ∉ members ∧ ¬c.CommonDirection members q.direction := by
    by_cases hg : g = t
    · have hself : t ∉ members := hg ▸ h.not_mem_self hbus
      rw [if_pos hg, commonDirection_setDirection_of_not_mem hself]
      simp [hg, hself]
    · rw [if_neg hg]
      by_cases hmem : t ∈ members
      · obtain ⟨r, hr, -⟩ := hi.find?_member hbus hmem
        rw [commonDirection_setDirection_of_mem hmem hr]
        simp [Ne.symm hg, hmem]
      · rw [commonDirection_setDirection_of_not_mem hmem]
        simp [Ne.symm hg, hmem]
  constructor
  · rintro ⟨q', members, hbus', hdirection⟩
    obtain ⟨q, hbus, rfl⟩ := isBus_setDirection.1 hbus'
    exact ⟨q, members, hbus, (hcase hbus).1 hdirection⟩
  · rintro ⟨q, members, hbus, hdirection⟩
    exact ⟨_, members, isBus_setDirection.2 ⟨q, hbus, rfl⟩, (hcase hbus).2 hdirection⟩

end DesignView.Catalog
