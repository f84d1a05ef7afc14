import DesignView.Proofs.Catalog.BusLayout
import DesignView.Proofs.Catalog.Face
import DesignView.Proofs.Catalog.History

/-!
The buses of a cell that was just built. Its ports are scalar ports in the order they were given in;
of their names alone it is known which buses are made, and no port is lost in them.
-/

namespace DesignView

def PortSpec.port (s : PortSpec) (x : CellId) : Port :=
  { name := s.name, cell := x, source := s.source, direction := s.direction }

namespace Catalog

variable {c c' : Catalog} {x : CellId} {ps : List PortSpec} {p g : PortId} {bus : String}
variable {made : String → Option PortId} {msbFirst : String → Bool} {repeated : List PortId}

structure Fresh (c : Catalog) (x : CellId) (ps : List PortSpec) : Prop where
  ports : (c.topPorts x).map c.ports.find? = ps.map fun s => some (s.port x)
  once : (c.topPorts x).Nodup
  all : ∀ ⦃p q⦄, c.ports.find? p = some q → q.cell = x → p ∈ c.topPorts x

namespace Fresh

theorem of_mem (h : c.Fresh x ps) (hp : p ∈ c.topPorts x) :
    ∃ s ∈ ps, c.ports.find? p = some (s.port x) := by
  have hmem : c.ports.find? p ∈ ps.map fun s => some (s.port x) :=
    h.ports ▸ List.mem_map_of_mem hp
  obtain ⟨s, hs, hfind⟩ := List.mem_map.1 hmem
  exact ⟨s, hs, hfind.symm⟩

theorem exists_mem (h : c.Fresh x ps) {s : PortSpec} (hs : s ∈ ps) :
    ∃ p ∈ c.topPorts x, c.ports.find? p = some (s.port x) := by
  have hmem : some (s.port x) ∈ (c.topPorts x).map c.ports.find? :=
    h.ports ▸ List.mem_map_of_mem hs
  exact List.mem_map.1 hmem

theorem addPort (h : c.Fresh x ps) (ht : c.Tidy) {y : Cell} (hy : c.cells.find? x = some y)
    (s : PortSpec) : (c.addPort x s.name s.source s.direction).2.Fresh x (ps ++ [s]) := by
  have htop := topPorts_addPort hy s.name s.source s.direction
  have hfind (p : PortId) : (c.addPort x s.name s.source s.direction).2.ports.find? p =
      if p = ⟨c.count + 1⟩ then some (s.port x) else c.ports.find? p := find?_addPort ..
  have hfresh : (⟨c.count + 1⟩ : PortId) ∉ c.topPorts x := by
    intro hp
    obtain ⟨s, -, hs⟩ := h.of_mem hp
    cases (ht.ports.find?_fresh rfl).symm.trans hs
  have hold : (c.topPorts x).map (c.addPort x s.name s.source s.direction).2.ports.find? =
      (c.topPorts x).map c.ports.find? := by
    refine List.map_congr_left fun p hp => ?_
    rw [hfind, if_neg]
    rintro rfl
    exact hfresh hp
  refine ⟨?_, ?_, fun p q hq hx => ?_⟩
  · rw [htop, List.map_append, hold, h.ports, List.map_append, List.map_singleton, hfind,
      if_pos rfl]
    rfl
  · rw [htop]
    refine List.nodup_append.2 ⟨h.once, List.nodup_singleton _, fun a ha b hb => ?_⟩
    rw [List.mem_singleton.1 hb]
    rintro rfl
    exact hfresh ha
  · rw [htop, List.mem_append, List.mem_singleton]
    rw [hfind] at hq
    split at hq
    · next hp => exact .inr hp
    · exact .inl (h.all hq hx)

theorem addPorts (h : c.Fresh x ps) (ht : c.Tidy) {y : Cell} (hy : c.cells.find? x = some y)
    (qs : List PortSpec) : (c.addPorts x qs).Fresh x (ps ++ qs) := by
  induction qs generalizing c ps y with
  | nil =>
    rw [List.append_nil]
    exact h
  | cons s qs ih =>
    have hrest := ih (h.addPort ht hy s) (ht.tidy_addPort ..) (find?_cells_addPort hy ..)
    rw [List.append_assoc] at hrest
    exact hrest

end Fresh

theorem Intact.fresh_buildCell (hi : c.Intact) (library : LibraryId) (name : String)
    (source : CellSource) (ps : List PortSpec) :
    (c.buildCell library name source ps).Fresh ⟨c.count + 1⟩ ps := by
  have hy := find?_cells_addCell c library name source
  have htop : (c.addCell library name source).2.topPorts ⟨c.count + 1⟩ = [] := by
    rw [topPorts_eq, hy]
    rfl
  have hempty : (c.addCell library name source).2.Fresh ⟨c.count + 1⟩ [] := by
    refine ⟨by rw [htop]; rfl, htop ▸ List.nodup_nil, fun p q hq hx => ?_⟩
    have howns : c.Owns ⟨c.count + 1⟩ p := ⟨q.label, portLabel?_of_find? hq, hx⟩
    exact absurd howns (hi.not_owns hi.tidy.cellLabel?_next)
  exact hempty.addPorts (hi.tidy.tidy_addCell ..) hy ps

namespace Fresh

theorem due_iff (h : c.Fresh x ps) (ht : c.Tidy) : c.Due x bus ↔
    (∃ s ∈ ps, ∃ i, BitName.parse? s.name = some (bus, i)) ∧ ∀ s ∈ ps, s.name ≠ bus := by
  refine and_congr ⟨?_, ?_⟩ ?_
  · rintro ⟨p, hp, i, hbit⟩
    obtain ⟨s, hs, hfind⟩ := h.of_mem hp
    obtain ⟨q, hq, -, hparse⟩ := bit?_eq_some.1 hbit
    obtain rfl := Option.some.inj (hfind.symm.trans hq)
    exact ⟨s, hs, i, hparse⟩
  · rintro ⟨s, hs, i, hparse⟩
    obtain ⟨p, hp, hfind⟩ := h.exists_mem hs
    exact ⟨p, hp, i, bit?_eq_some.2 ⟨_, hfind, rfl, hparse⟩⟩
  · rw [portNamed?_eq_none_iff ht.ports.nodup]
    constructor
    · intro hall s hs
      obtain ⟨p, -, hfind⟩ := h.exists_mem hs
      exact hall p _ (portLabel?_of_find? hfind) rfl
    · intro hall p l hl hx
      obtain ⟨q, hq, rfl⟩ := Option.map_eq_some_iff.1 hl
      obtain ⟨s, hs, hfind⟩ := h.of_mem (h.all hq hx)
      obtain rfl := Option.some.inj (hfind.symm.trans hq)
      exact hall s hs

theorem cases (h : c.Fresh x ps) (l : c.BusLayout x msbFirst made c' repeated) {q : Port}
    (hq : c'.ports.find? p = some q) (hx : q.cell = x) :
    (p ∈ c.topPorts x ∧ q.shape.members = [] ∧ q.shape.isBus = false ∧
      ∃ s ∈ ps, q.source = s.source) ∨
    ∃ bus bits, made bus = some p ∧ c.BusPort x (msbFirst bus) bus bits q := by
  cases hold : c.ports.find? p with
  | some q₀ =>
    have hq₀ := l.port hold
    obtain rfl := Option.some.inj (hq₀.symm.trans hq)
    have hp : p ∈ c.topPorts x := h.all hold hx
    obtain ⟨s, hs, hfind⟩ := h.of_mem hp
    obtain rfl := Option.some.inj (hfind.symm.trans hold)
    refine .inl ⟨hp, ?_, ?_, s, hs, rfl⟩ <;> dsimp only <;> split <;> rfl
  | none =>
    obtain ⟨bus, hmade⟩ := l.only hq hold
    obtain ⟨q', bits, hq', hbus⟩ := l.bus hmade
    obtain rfl := Option.some.inj (hq'.symm.trans hq)
    exact .inr ⟨bus, bits, hmade, hbus⟩

theorem made_iff (h : c.Fresh x ps) (l : c.BusLayout x msbFirst made c' repeated) :
    made bus = some g ↔ ∃ q, c'.ports.find? g = some q ∧ q.cell = x ∧ q.name = bus ∧
      q.shape.isBus = true := by
  constructor
  · intro hmade
    obtain ⟨q, bits, hq, hbus⟩ := l.bus hmade
    obtain ⟨first, last, -, -, hshape⟩ := hbus.shape
    exact ⟨q, hq, hbus.cell, hbus.name, hshape ▸ rfl⟩
  · rintro ⟨q, hq, hx, hname, hisBus⟩
    rcases h.cases l hq hx with ⟨-, -, hnot, -⟩ | ⟨bus', bits, hmade, hbus⟩
    · cases hnot.symm.trans hisBus
    · rw [← hname, hbus.name]
      exact hmade

theorem perm_bitsOf (h : c.Fresh x ps) (l : c.BusLayout x msbFirst made c' repeated)
    (hf : c'.Forest x) (ht : c'.Tidy) (hports : ∀ s ∈ ps, s.source ≠ .group) :
    (c'.bitsOf x).Perm (c.topPorts x) := by
  have hnodup : (c'.bitsOf x).Nodup := (hf.bitsOf_nodup_iff ht).2 fun g n hn hx hnot => by
    obtain ⟨q, hq, rfl⟩ := Option.map_eq_some_iff.1 hn
    rcases h.cases l hq hx with ⟨-, hnil, -⟩ | ⟨bus, bits, -, hbus⟩
    · rw [Port.node, hnil]
      exact List.nodup_nil
    · obtain ⟨first, last, -, -, hshape⟩ := hbus.shape
      rw [Port.node, hshape] at hnot
      cases hnot
  refine (List.perm_ext_iff_of_nodup hnodup h.once).2 fun p => ?_
  rw [hf.mem_bitsOf_iff ht]
  constructor
  · rintro ⟨n, hn, hx, hsource⟩
    obtain ⟨q, hq, rfl⟩ := Option.map_eq_some_iff.1 hn
    rcases h.cases l hq hx with ⟨hp, -⟩ | ⟨bus, bits, -, hbus⟩
    · exact hp
    · exact absurd hbus.source hsource
  · intro hp
    obtain ⟨s, hs, hfind⟩ := h.of_mem hp
    exact ⟨_, node?_of_find? (l.port hfind), rfl, hports s hs⟩

end Fresh

/-- A cell is built of ports that are no groups. Its buses are the ones that some port is named
after, unless a port has their name; they are laid out in place of their bits, and the bits of the
cell are the ports it was built of. -/
theorem Reachable.groupBuses_exact (h : c.Reachable) (library : LibraryId) (name : String)
    (source : CellSource) (ps : List PortSpec) (hports : ∀ s ∈ ps, s.source ≠ .group)
    (msbFirst : String → Bool) :
    let built := c.buildCell library name source ps
    let x : CellId := ⟨c.count + 1⟩
    let grouped := built.groupBuses x msbFirst
    (built.topPorts x).map built.ports.find? = ps.map (fun s => some (s.port x)) ∧
    (∃ made : String → Option PortId,
      (∀ bus g, made bus = some g ↔ ∃ q, grouped.1.ports.find? g = some q ∧ q.cell = x ∧
        q.name = bus ∧ q.shape.isBus = true) ∧
      (∀ bus, made bus ≠ none ↔
        (∃ s ∈ ps, ∃ i, BitName.parse? s.name = some (bus, i)) ∧ ∀ s ∈ ps, s.name ≠ bus) ∧
      built.BusLayout x msbFirst made grouped.1 grouped.2) ∧
    ∃ bits, grouped.1.portBits x = .ok bits ∧ bits.Perm (built.topPorts x) := by
  intro built x grouped
  have hi : c.Intact := h.intact
  have hfresh : built.Fresh x ps := hi.fresh_buildCell library name source ps
  have ht : built.Tidy := hi.tidy.buildCell library name source ps
  have hp : built.Planted := h.planted.buildCell hi library name source hports
  obtain ⟨made, hdue, l⟩ := ht.groupBuses_layout hfresh.once msbFirst
  have hgains : built.Gains (fun _ => False) (fun l => l.source = .group) grouped.1 :=
    ht.groupBuses x msbFirst
  obtain ⟨y, hy, -⟩ := Option.map_eq_some_iff.1 (hgains.keptCells (x := x)
    ((cellLabel?_buildCell c library name source ps x).trans (if_pos rfl)))
  refine ⟨hfresh.ports, ⟨made, fun bus g => hfresh.made_iff l, fun bus => ?_, l⟩, _, ?_,
    hfresh.perm_bitsOf l (hp.groupBuses ht x msbFirst x) hgains.tidy hports⟩
  · exact (hdue bus).trans (hfresh.due_iff ht)
  · rw [portBits, cell_eq_ok.2 hy]
    rfl

theorem groupBuses_exact_mixed :
    let built := (({} : Catalog).addLibrary "top" .design).2.buildCell ⟨1⟩ "top" .design
      (["x[1]", "y<0>", "x<0>", "x<1>", "b[0]", "b", "x[1][0]"].map fun name =>
        ⟨name, .design, .input⟩)
    let grouped := built.groupBuses ⟨2⟩ (· = "x")
    ∃ made : String → Option PortId, made "x" ≠ none ∧ made "y" ≠ none ∧ made "b" = none ∧
      made "x[1]" = none ∧ built.BusLayout ⟨2⟩ (· = "x") made grouped.1 grouped.2 := by
  intro built grouped
  have hc : (({} : Catalog).addLibrary "top" .design).2.Reachable := .single (.addLibrary ..)
  obtain ⟨-, ⟨made, -, hdue, hlayout⟩, -⟩ := hc.groupBuses_exact ⟨1⟩ "top" .design
    (["x[1]", "y<0>", "x<0>", "x<1>", "b[0]", "b", "x[1][0]"].map fun name =>
      ⟨name, .design, .input⟩) (by simp) (· = "x")
  have hx : BitName.parse? "x[1]" = some ("x", 1) := by decide
  have hy : BitName.parse? "y<0>" = some ("y", 0) := by decide
  refine ⟨made, (hdue "x").2 ⟨⟨⟨_, .design, .input⟩, by simp, 1, hx⟩, by simp⟩,
    (hdue "y").2 ⟨⟨⟨_, .design, .input⟩, by simp, 0, hy⟩, by simp⟩, ?_, ?_, hlayout⟩
  · by_contra h
    exact ((hdue "b").1 h).2 ⟨"b", .design, .input⟩ (by simp) rfl
  · by_contra h
    exact ((hdue "x[1]").1 h).2 ⟨"x[1]", .design, .input⟩ (by simp) rfl

end Catalog
end DesignView
