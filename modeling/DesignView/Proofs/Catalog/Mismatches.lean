import DesignView.Proofs.Catalog.Flat
import DesignView.Proofs.Catalog.FreshCell
import DesignView.Proofs.Timing

/-!
The mismatches of a cell. A link of the cell reports each port that is missing on either side, once;
the grouping of its ports reports each port that repeats a bit of a bus.
-/

namespace DesignView

def Mismatch.cell : Mismatch → String
  | missingTimingPort _ cell _ | missingPhysicalPort _ cell _ | duplicateBusBit cell _ => cell

namespace Catalog

open Graft (bare)

variable {c c' c'' : Catalog} {x : CellId} {p : PortId} {name port library : String}
variable {t : TimingCell} {cause : Mismatch}

/-- What is missing between a cell, by its name, and a timing cell of a library. Supplies may be
missing from either, and a supply pin of the timing cell stands for a port of its name. -/
def Lacks (c : Catalog) (x : CellId) (name library : String) (t : TimingCell) : Mismatch → Prop
  | .missingTimingPort l cell port => l = library ∧ cell = name ∧ ∃ p q,
      c.ports.find? p = some q ∧ q.cell = x ∧ q.source ≠ .group ∧ q.name = port ∧
        q.direction.isSupply = false ∧ t.port? port = none ∧ t.supplyPin? port = none
  | .missingPhysicalPort l cell port => l = library ∧ cell = name ∧
      (∃ direction, t.port? port = some direction ∧ direction.isSupply = false) ∧
        ∀ p q, c.ports.find? p = some q → q.cell = x → q.name ≠ port
  | .duplicateBusBit _ _ => False

theorem unmatchedPort?_eq_some : c.unmatchedPort? library t p = some cause ↔
    ∃ q, c.ports.find? p = some q ∧ q.direction.isSupply = false ∧ t.port? q.name = none ∧
      t.supplyPin? q.name = none ∧ cause = .missingTimingPort library t.name q.name := by
  unfold unmatchedPort? port?
  cases c.ports.find? p with
  | none => simp
  | some q =>
    simp only [Option.ite_none_left_eq_some, Bool.or_eq_true, not_or, Bool.not_eq_true,
      Option.isSome_eq_false_iff, Option.isNone_iff_eq_none, Option.some.injEq, exists_eq_left']
    grind

theorem mem_unmatched_iff (hf : c.Forest x) (ht : c.Tidy) :
    cause ∈ (c.bitsOf x).filterMap (c.unmatchedPort? library t) ↔ ∃ p q,
      c.ports.find? p = some q ∧ q.cell = x ∧ q.source ≠ .group ∧ q.direction.isSupply = false ∧
        t.port? q.name = none ∧ t.supplyPin? q.name = none ∧
        cause = .missingTimingPort library t.name q.name := by
  rw [List.mem_filterMap]
  refine exists_congr fun p => ?_
  rw [hf.mem_bitsOf_iff ht, unmatchedPort?_eq_some]
  constructor
  · rintro ⟨⟨n, hn, hx, hsource⟩, q, hq, hdue⟩
    cases (node?_of_find? hq).symm.trans hn
    exact ⟨q, hq, hx, hsource, hdue⟩
  · rintro ⟨q, hq, hx, hsource, hdue⟩
    exact ⟨⟨q.node, node?_of_find? hq, hx, hsource⟩, q, hq, hdue⟩

theorem mem_unclaimed_iff (ht : c.Tidy) (hkeys : t.ports.keys.Nodup) :
    cause ∈ (t.ports.entries.filter fun e =>
      !e.2.isSupply && (c.portNamed? x e.1).isNone).map
        (fun e => Mismatch.missingPhysicalPort library t.name e.1) ↔ ∃ name direction,
      t.port? name = some direction ∧ direction.isSupply = false ∧
        (∀ p q, c.ports.find? p = some q → q.cell = x → q.name ≠ name) ∧
        cause = .missingPhysicalPort library t.name name := by
  have hnone (name : String) : (c.portNamed? x name).isNone = true ↔
      ∀ p q, c.ports.find? p = some q → q.cell = x → q.name ≠ name := by
    rw [Option.isNone_iff_eq_none, portNamed?_eq_none_iff ht.ports.nodup]
    constructor
    · exact fun h p q hq hx => h p q.label (portLabel?_of_find? hq) hx
    · intro h p l hl hx
      obtain ⟨q, hq, rfl⟩ := Option.map_eq_some_iff.1 hl
      exact h p q hq hx
  simp only [List.mem_map, List.mem_filter, Bool.and_eq_true, Bool.not_eq_true', hnone]
  constructor
  · rintro ⟨⟨name, direction⟩, ⟨hport, hsupply, hall⟩, rfl⟩
    exact ⟨name, direction, OrderedMap.find?_of_mem hkeys hport, hsupply, hall, rfl⟩
  · rintro ⟨name, direction, hport, hsupply, hall, rfl⟩
    exact ⟨(name, direction), ⟨OrderedMap.mem_of_find? hport, hsupply, hall⟩, rfl⟩

theorem mem_mismatches_iff (hf : c.Forest x) (ht : c.Tidy) (hkeys : t.ports.keys.Nodup) :
    cause ∈ c.mismatches x library t ↔ c.Lacks x t.name library t cause := by
  rw [mismatches, List.mem_append, mem_unmatched_iff hf ht, mem_unclaimed_iff ht hkeys]
  constructor
  · rintro (⟨p, q, hq, hx, hsource, hsupply, hport, hpin, rfl⟩ |
      ⟨name, direction, hport, hsupply, hnone, rfl⟩)
    · exact ⟨rfl, rfl, p, q, hq, hx, hsource, rfl, hsupply, hport, hpin⟩
    · exact ⟨rfl, rfl, ⟨direction, hport, hsupply⟩, hnone⟩
  · intro hlacks
    cases cause with
    | missingTimingPort l cell port =>
      obtain ⟨rfl, rfl, p, q, hq, hx, hsource, rfl, hsupply, hport, hpin⟩ := hlacks
      exact .inl ⟨p, q, hq, hx, hsource, hsupply, hport, hpin, rfl⟩
    | missingPhysicalPort l cell port =>
      obtain ⟨rfl, rfl, ⟨direction, hport, hsupply⟩, hnone⟩ := hlacks
      exact .inr ⟨port, direction, hport, hsupply, hnone, rfl⟩
    | duplicateBusBit => exact hlacks.elim

theorem nodup_mismatches (hi : c.Intact) (hbits : (c.bitsOf x).Nodup)
    (hkeys : t.ports.keys.Nodup) : (c.mismatches x library t).Nodup := by
  refine List.nodup_append.2 ⟨?_, ?_, fun a ha b hb hab => ?_⟩
  · -- Ports of the cell have different names.
    refine List.pairwise_filterMap.2 (hbits.imp_of_mem fun hp hp' hne a ha b hb hab => hne ?_)
    obtain ⟨q, hq, -, -, -, rfl⟩ := unmatchedPort?_eq_some.1 ha
    obtain ⟨q', hq', -, -, -, rfl⟩ := unmatchedPort?_eq_some.1 hb
    obtain ⟨-, -, hname⟩ := Mismatch.missingTimingPort.inj hab
    have hcell : q.cell = q'.cell :=
      (Beside.cell_of_owns (hi.owns_bitsOf hp) hq).trans
        (Beside.cell_of_owns (hi.owns_bitsOf hp') hq').symm
    exact hi.names (portLabel?_of_find? hq) (portLabel?_of_find? hq') hcell hname
  · have hnames : (t.ports.entries.map (·.1)).Nodup := hkeys
    refine List.pairwise_map.2 ((List.pairwise_map.1 hnames).sublist List.filter_sublist |>.imp ?_)
    intro e e' hne hsame
    exact hne (Mismatch.missingPhysicalPort.inj hsame).2.2
  · obtain ⟨p, -, hp⟩ := List.mem_filterMap.1 ha
    obtain ⟨q, -, -, -, -, rfl⟩ := unmatchedPort?_eq_some.1 hp
    obtain ⟨e, -, rfl⟩ := List.mem_map.1 hb
    cases hab

/-- A port of the name repeats a bit of a bus: it is named as a bit of the bus, but another port is
the bit of the index. -/
def Repeats (c : Catalog) (x : CellId) (port : String) : Prop :=
  ∃ bus i, BitName.parse? port = some (bus, i) ∧
    (∃ p q, c.ports.find? p = some q ∧ q.cell = x ∧ q.name = port ∧ q.shape = .scalar) ∧
    ∃ g b members, c.IsBus g b members ∧ b.cell = x ∧ b.name = bus ∧
      ∃ r ∈ members, ∃ s, c.ports.find? r = some s ∧ s.cell = x ∧ s.shape = .busBit g i

namespace Fresh

variable {ps : List PortSpec} {msbFirst : String → Bool} {made : String → Option PortId}
variable {repeated : List PortId} (h : c.Fresh x ps) (l : c.BusLayout x msbFirst made c' repeated)
include h l

theorem exists_mem_of_repeats (hr : c'.Repeats x port) :
    ∃ p ∈ repeated, ∃ q, c'.ports.find? p = some q ∧ q.name = port := by
  obtain ⟨bus, i, hparse, ⟨p, q, hq, hx, rfl, hscalar⟩, g, b, members, hbus, hbx, rfl, -⟩ := hr
  have hmade : made b.name = some g := by
    obtain ⟨first, last, hshape⟩ := hbus.2
    exact (h.made_iff l).2 ⟨b, hbus.1, hbx, rfl, by rw [hshape]; rfl⟩
  refine ⟨p, (l.again p).2 ⟨b.name, i, by rw [hmade]; nofun, ?_⟩, q, hq, rfl⟩
  cases hold : c.ports.find? p with
  | none =>
    obtain ⟨bus', hmade'⟩ := l.only hq hold
    obtain ⟨q', bits, hq', hmadeBus⟩ := l.bus hmade'
    cases hq.symm.trans hq'
    obtain ⟨_, _, -, -, hshape⟩ := hmadeBus.shape
    cases hscalar.symm.trans hshape
  | some q₀ =>
    have hq₀ := l.port hold
    cases hq.symm.trans hq₀
    have htop : p ∈ c.topPorts x := h.all hold hx
    obtain ⟨s, -, hs⟩ := h.of_mem htop
    cases hs.symm.trans hold
    refine ⟨htop, bit?_eq_some.2 ⟨_, hold, rfl, hparse⟩, fun hfirst => ?_⟩
    -- The first port of the index would be the bit of the bus.
    rw [place?_eq_some.2 ⟨_, hmade, hfirst⟩] at hscalar
    cases hscalar

theorem repeats_of_mem (hp : p ∈ repeated) {q : Port} (hq : c'.ports.find? p = some q) :
    c'.Repeats x q.name := by
  obtain ⟨bus, i, hmade, htop, hbit, hnot⟩ := (l.again p).1 hp
  obtain ⟨g, hmade⟩ := Option.ne_none_iff_exists'.1 hmade
  obtain ⟨q₀, hq₀, hscalar, hparse⟩ := bit?_eq_some.1 hbit
  obtain ⟨b, bits, hb, hbus⟩ := l.bus hmade
  obtain ⟨first, last, -, -, hshape⟩ := hbus.shape
  have hplace : c.place? (c.topPorts x) made p = none := by
    refine place?_eq_none.2 fun bus' j hfirst => ?_
    cases hbit.symm.trans hfirst.bit
    exact absurd hfirst hnot
  obtain ⟨s, -, hs⟩ := h.of_mem htop
  cases hs.symm.trans hq₀
  have hq' := l.port hq₀
  rw [hplace] at hq'
  cases hq.symm.trans hq'
  -- The bus has another port as its bit of the index.
  obtain ⟨r, hfirst⟩ : ∃ r, c.FirstBit (c.topPorts x) bus i r :=
    Option.isSome_iff_exists.1 (List.find?_isSome.2 ⟨p, htop, decide_eq_true hbit⟩)
  obtain ⟨_, -, hr₀⟩ := h.of_mem hfirst.mem
  have hr := l.port hr₀
  rw [place?_eq_some.2 ⟨bus, hmade, hfirst⟩] at hr
  exact ⟨bus, i, hparse, ⟨p, _, hq, rfl, rfl, rfl⟩, g, b, _, ⟨hb, _, _, hshape⟩, hbus.cell,
    hbus.name, r, List.mem_map.2 ⟨_, (hbus.mem i r).2 hfirst, rfl⟩, _, hr, rfl, rfl⟩

theorem repeats_iff :
    c'.Repeats x port ↔ ∃ p ∈ repeated, ∃ q, c'.ports.find? p = some q ∧ q.name = port := by
  constructor
  · exact h.exists_mem_of_repeats l
  · rintro ⟨p, hp, q, hq, rfl⟩
    exact h.repeats_of_mem l hp hq

end Fresh

theorem Repeats.of_bare (h : c.Repeats x port) (hbare : bare.catalog c = bare.catalog c') :
    c'.Repeats x port := by
  obtain ⟨bus, i, hparse, ⟨p, q, hq, hx, hname, hscalar⟩, g, b, members, ⟨hb, first, last, hshape⟩,
    hbx, hbname, r, hr, s, hs, hsx, hbit⟩ := h
  obtain ⟨q', hq', hqsame⟩ := exists_port_of_bare hbare hq
  obtain ⟨b', hb', hbsame⟩ := exists_port_of_bare hbare hb
  obtain ⟨s', hs', hssame⟩ := exists_port_of_bare hbare hs
  rw [hqsame] at hx hname hscalar
  rw [hbsame] at hshape hbx hbname
  rw [hssame] at hsx hbit
  exact ⟨bus, i, hparse, ⟨p, q', hq', hx, hname, hscalar⟩, g, b', members,
    ⟨hb', first, last, hshape⟩, hbx, hbname, r, hr, s', hs', hsx, hbit⟩

theorem repeats_iff_of_bare (hbare : bare.catalog c = bare.catalog c') :
    c.Repeats x port ↔ c'.Repeats x port :=
  ⟨fun h => h.of_bare hbare, fun h => h.of_bare hbare.symm⟩

namespace SameAt

theorem lacks_iff (h : c.SameAt x c') : c'.Lacks x name library t cause ↔
    c.Lacks x name library t cause := by
  have hport {p : PortId} {q : Port} {motive : Prop} : (c'.ports.find? p = some q ∧ q.cell = x ∧
      motive) ↔ c.ports.find? p = some q ∧ q.cell = x ∧ motive := by
    rw [← and_assoc, ← and_assoc]
    exact and_congr_left fun _ => and_congr_left fun hx => h.ports p q hx
  have hall {p : PortId} {q : Port} {motive : Prop} : (c'.ports.find? p = some q → q.cell = x →
      motive) ↔ (c.ports.find? p = some q → q.cell = x → motive) :=
    ⟨fun hm hq hx => hm ((h.ports p q hx).2 hq) hx, fun hm hq hx => hm ((h.ports p q hx).1 hq) hx⟩
  cases cause with
  | missingTimingPort => simp only [Lacks, hport]
  | missingPhysicalPort => simp only [Lacks, hall]
  | duplicateBusBit => exact Iff.rfl

theorem repeats (h : c.SameAt x c') (hr : c.Repeats x port) : c'.Repeats x port := by
  obtain ⟨bus, i, hparse, ⟨p, q, hq, hx, hdup⟩, g, b, members, ⟨hb, hshape⟩, hbx, hbname, r, hr, s,
    hs, hsx, hbit⟩ := hr
  exact ⟨bus, i, hparse, ⟨p, q, (h.ports p q hx).2 hq, hx, hdup⟩, g, b, members,
    ⟨(h.ports g b hbx).2 hb, hshape⟩, hbx, hbname, r, hr, s, (h.ports r s hsx).2 hs, hsx, hbit⟩

theorem symm (h : c.SameAt x c') : c'.SameAt x c :=
  ⟨h.cell.symm, fun p q hx => (h.ports p q hx).symm⟩

theorem trans (h : c.SameAt x c') (h' : c'.SameAt x c'') : c.SameAt x c'' :=
  ⟨h'.cell.trans h.cell, fun p q hx => (h'.ports p q hx).trans (h.ports p q hx)⟩

theorem repeats_iff (h : c.SameAt x c') : c'.Repeats x port ↔ c.Repeats x port :=
  ⟨h.symm.repeats, h.repeats⟩

end SameAt

theorem Lacks.cell (h : c.Lacks x name library t cause) : cause.cell = name := by
  cases cause with
  | missingTimingPort | missingPhysicalPort => exact h.2.1
  | duplicateBusBit => exact h.elim

end Catalog
end DesignView
