import DesignView.Proofs.Catalog.Planted
import Mathlib.Logic.Function.Basic

/-!
The layout of a cell whose buses are made. Each bus has its bits in order, each port that became a
bit knows its bus and its index, and the list of top-level ports is the old one with each bus at the
place of the first of its bits. One bus after the other is added to the layout.
-/

namespace DesignView.Catalog

variable {c c₁ c₂ : Catalog} {x : CellId} {bus : String} {p g : PortId} {i : Nat} {q : Port}
variable {ports members : List PortId} {made : String → Option PortId}

def Shares (c : Catalog) (ports : List PortId) (d : PortDirection) : Prop :=
  ∀ p ∈ ports, ∃ q, c.ports.find? p = some q ∧ q.direction = d

def CommonDirection (c : Catalog) (ports : List PortId) (d : PortDirection) : Prop :=
  c.Shares ports d ∨ d = .unknown ∧ ∀ d', ¬c.Shares ports d'

theorem commonDirection_spec (hne : ports ≠ [])
    (hstored : ∀ p ∈ ports, ∃ q, c.ports.find? p = some q) :
    c.CommonDirection ports (c.commonDirection ports) := by
  obtain ⟨p, ports, rfl⟩ := List.exists_cons_of_ne_nil hne
  obtain ⟨q, hq⟩ := hstored p List.mem_cons_self
  have hcommon : c.commonDirection (p :: ports) =
      .common (q.direction :: ports.filterMap fun p => (c.port? p).map (·.direction)) := by
    rw [commonDirection, List.filterMap_cons_some]
    rw [port?, hq, Option.map_some]
  have hall : (ports.filterMap fun p => (c.port? p).map (·.direction)).all (· = q.direction) =
      true ↔ c.Shares (p :: ports) q.direction := by
    simp only [List.all_eq_true, List.mem_filterMap, decide_eq_true_eq]
    constructor
    · intro h p' hp'
      rcases List.mem_cons.1 hp' with rfl | hin
      · exact ⟨q, hq, rfl⟩
      · obtain ⟨q', hq'⟩ := hstored p' hp'
        exact ⟨q', hq', h _ ⟨p', hin, congrArg _ hq'⟩⟩
    · rintro h d ⟨p', hin, hd⟩
      obtain ⟨q', hq', hd'⟩ := h p' (List.mem_cons_of_mem p hin)
      rw [port?, hq', Option.map_some] at hd
      exact (Option.some.inj hd).symm.trans hd'
  rw [hcommon, PortDirection.common]
  split
  · next h => exact .inl (hall.1 h)
  · next h =>
    refine .inr ⟨rfl, fun d hd => h (hall.2 ?_)⟩
    obtain ⟨q', hq', rfl⟩ := hd p List.mem_cons_self
    obtain rfl : q = q' := Option.some.inj (hq.symm.trans hq')
    exact hd

theorem commonDirection_congr (h : ∀ p ∈ ports,
    (c₁.ports.find? p).map (·.direction) = (c.ports.find? p).map (·.direction)) :
    c₁.commonDirection ports = c.commonDirection ports := by
  rw [commonDirection, commonDirection]
  exact congrArg _ (List.filterMap_congr h)

/-- The bus that a port is a bit of, with its index: the port is the first one in port order that is
named after a bus and an index, and the bus is made. -/
def place? (c : Catalog) (ports : List PortId) (made : String → Option PortId) (p : PortId) :
    Option (PortId × Nat) :=
  (c.bit? p).bind fun b =>
    if ports.find? (fun r => c.bit? r = some b) = some p then (made b.1).map (·, b.2) else none

/-- What stands at the top level for a port: the first bit of a bus makes room for the bus, and its
other bits are left out. -/
def standIn (c : Catalog) (ports : List PortId) (made : String → Option PortId) (p : PortId) :
    Option PortId :=
  match c.place? ports made p with
  | none => some p
  | some (g, _) =>
    if ports.find? (fun r => (c.place? ports made r).map (·.1) = some g) = some p then some g
    else none

theorem place?_eq_some : c.place? ports made p = some (g, i) ↔
    ∃ bus, made bus = some g ∧ c.FirstBit ports bus i p := by
  unfold place?
  constructor
  · intro h
    obtain ⟨⟨bus, j⟩, -, h⟩ := Option.bind_eq_some_iff.1 h
    obtain ⟨hfirst, h⟩ := Option.ite_none_right_eq_some.1 h
    obtain ⟨g', hmade, h⟩ := Option.map_eq_some_iff.1 h
    cases h
    exact ⟨bus, hmade, hfirst⟩
  · rintro ⟨bus, hmade, hfirst⟩
    have hfind : ports.find? (fun r => c.bit? r = some (bus, i)) = some p := hfirst
    rw [hfirst.bit, Option.bind_some, if_pos hfind, hmade, Option.map_some]

theorem map_place?_eq_some : (c.place? ports made p).map (·.1) = some g ↔
    ∃ bus i, made bus = some g ∧ c.FirstBit ports bus i p := by
  rw [Option.map_eq_some_iff]
  constructor
  · rintro ⟨⟨g, i⟩, h, rfl⟩
    obtain ⟨bus, hmade, hfirst⟩ := place?_eq_some.1 h
    exact ⟨bus, i, hmade, hfirst⟩
  · rintro ⟨bus, i, hmade, hfirst⟩
    exact ⟨(g, i), place?_eq_some.2 ⟨bus, hmade, hfirst⟩, rfl⟩

theorem place?_eq_none : c.place? ports made p = none ↔
    ∀ bus i, c.FirstBit ports bus i p → made bus = none := by
  rw [Option.eq_none_iff_forall_ne_some]
  constructor
  · intro h bus i hfirst
    by_contra hmade
    obtain ⟨g, hmade⟩ := Option.ne_none_iff_exists'.1 hmade
    exact h (g, i) (place?_eq_some.2 ⟨bus, hmade, hfirst⟩)
  · rintro h ⟨g, i⟩ hplace
    obtain ⟨bus, hmade, hfirst⟩ := place?_eq_some.1 hplace
    cases (h bus i hfirst).symm.trans hmade

theorem FirstBit.unique {bus' : String} {j : Nat} (h : c.FirstBit ports bus i p)
    (h' : c.FirstBit ports bus' j p) : bus = bus' ∧ i = j :=
  Prod.mk.inj (Option.some.inj (h.bit.symm.trans h'.bit))

theorem place?_update_of_first (hfirst : c.FirstBit ports bus i p) :
    c.place? ports (Function.update made bus (some g)) p = some (g, i) :=
  place?_eq_some.2 ⟨bus, Function.update_self .., hfirst⟩

theorem place?_update_of_not (hout : ∀ i, ¬c.FirstBit ports bus i p) :
    c.place? ports (Function.update made bus (some g)) p = c.place? ports made p := by
  refine Option.ext fun ⟨g', i⟩ => ?_
  simp only [place?_eq_some]
  refine exists_congr fun bus' => and_congr_left fun hfirst => ?_
  have hne : bus' ≠ bus := by
    rintro rfl
    exact hout i hfirst
  rw [Function.update_of_ne hne]

theorem regroup_filterMap {s s' : PortId → Option PortId} (hnodup : ports.Nodup)
    (hne : ∃ p ∈ ports, p ∈ members)
    (hin : ∀ p ∈ ports, p ∈ members → s p = some p ∧
      s' p = if ports.find? (· ∈ members) = some p then some g else none)
    (hout : ∀ p ∈ ports, p ∉ members → s' p = s p ∧ ∀ t, s p = some t → t ∉ members) :
    regroup (ports.filterMap s) members g = ports.filterMap s' := by
  obtain ⟨p, hp, hmember⟩ := hne
  obtain ⟨m, hfind⟩ : ∃ m, ports.find? (· ∈ members) = some m := by
    rw [← Option.isSome_iff_exists, List.find?_isSome]
    exact ⟨p, hp, decide_eq_true hmember⟩
  -- The list is split where the first member stands: before it nothing changes, and after it the
  -- other members are left out.
  obtain ⟨hm, before, after, hports, hbefore⟩ := List.find?_eq_some_iff_append.1 hfind
  have hm : m ∈ members := of_decide_eq_true hm
  have hbefore (r : PortId) (hr : r ∈ before) : r ∈ ports ∧ r ∉ members := by
    refine ⟨hports ▸ List.mem_append_left _ hr, ?_⟩
    simpa using hbefore r hr
  have hafter (r : PortId) (hr : r ∈ after) : r ∈ ports ∧ m ≠ r := by
    rw [hports] at hnodup
    obtain ⟨hnew, -⟩ := List.nodup_cons.1 (List.nodup_append.1 hnodup).2.1
    refine ⟨hports ▸ List.mem_append_right _ (List.mem_cons_of_mem m hr), ?_⟩
    rintro rfl
    exact hnew hr
  obtain ⟨hsm, hsm'⟩ := hin m (List.mem_of_find?_eq_some hfind) hm
  rw [if_pos hfind] at hsm'
  have hstart : before.filterMap s' = before.filterMap s :=
    List.filterMap_congr fun r hr => (hout r (hbefore r hr).1 (hbefore r hr).2).1
  have hkept : ∀ t ∈ before.filterMap s, decide (t ∉ members) = true := by
    intro t ht
    obtain ⟨r, hr, hrt⟩ := List.mem_filterMap.1 ht
    exact decide_eq_true ((hout r (hbefore r hr).1 (hbefore r hr).2).2 t hrt)
  have hrest : (after.filterMap s).filter (· ∉ members) = after.filterMap s' := by
    rw [List.filter_filterMap]
    refine List.filterMap_congr fun r hr => ?_
    obtain ⟨hr, hne⟩ := hafter r hr
    by_cases hmember : r ∈ members
    · obtain ⟨hs, hs'⟩ := hin r hr hmember
      rw [hs, hs', hfind, if_neg fun h => hne (Option.some.inj h)]
      simp [Option.filter, hmember]
    · obtain ⟨hs', hs⟩ := hout r hr hmember
      rw [hs']
      cases hsr : s r with
      | none => rfl
      | some t => exact Option.filter_some_pos (decide_eq_true (hs t hsr))
  have hdrop : (m :: after.filterMap s).dropWhile (· ∉ members) = m :: after.filterMap s :=
    List.dropWhile_cons_of_neg (by simpa using hm)
  have htake : (m :: after.filterMap s).takeWhile (· ∉ members) = [] :=
    List.takeWhile_cons_of_neg (by simpa using hm)
  have hfilter : (m :: after.filterMap s).filter (· ∉ members) = after.filterMap s' := by
    rw [List.filter_cons_of_neg (by simpa using hm), hrest]
  rw [hports, List.filterMap_append, List.filterMap_cons_some hsm, List.filterMap_append,
    List.filterMap_cons_some hsm', hstart, regroup, List.takeWhile_append_of_pos hkept,
    List.dropWhile_append_of_pos hkept, hdrop, htake, hfilter, List.append_nil]

def IsBus (c : Catalog) (g : PortId) (q : Port) (members : List PortId) : Prop :=
  c.ports.find? g = some q ∧ ∃ first last, q.shape = .bus first last members

structure BusPort (c : Catalog) (x : CellId) (msbFirst : Bool) (bus : String)
    (bits : List (Nat × PortId)) (q : Port) : Prop where
  name : q.name = bus
  cell : q.cell = x
  source : q.source = .group
  mem : ∀ i p, (i, p) ∈ bits ↔ c.FirstBit (c.topPorts x) bus i p
  sorted : bits.Pairwise fun a b => if msbFirst then b.1 < a.1 else a.1 < b.1
  shape : ∃ first last, bits.head? = some first ∧ bits.getLast? = some last ∧
    q.shape = .bus first.1 last.1 (bits.map (·.2))
  direction : c.CommonDirection (bits.map (·.2)) q.direction

/-- The second catalog has the buses `made` of the cell, by name. Ports that were there know the bus
they are bits of and are otherwise the same, no other ports are new, and `repeated` lists the ports
that repeat an index of one of the buses. -/
structure BusLayout (c : Catalog) (x : CellId) (msbFirst : String → Bool)
    (made : String → Option PortId) (c' : Catalog) (repeated : List PortId) : Prop where
  bus : ∀ ⦃bus g⦄, made bus = some g → ∃ q bits, c'.ports.find? g = some q ∧
    c.BusPort x (msbFirst bus) bus bits q
  fresh : ∀ ⦃bus g⦄, made bus = some g → c.ports.find? g = none
  port : ∀ ⦃p q⦄, c.ports.find? p = some q → c'.ports.find? p = some { q with
    shape := match c.place? (c.topPorts x) made p with
      | some (g, i) => .busBit g i
      | none => q.shape }
  only : ∀ ⦃p q⦄, c'.ports.find? p = some q → c.ports.find? p = none → ∃ bus, made bus = some p
  top : c'.topPorts x = (c.topPorts x).filterMap (c.standIn (c.topPorts x) made)
  once : repeated.Nodup
  again : ∀ p, p ∈ repeated ↔ ∃ bus i, made bus ≠ none ∧ p ∈ c.topPorts x ∧
    c.bit? p = some (bus, i) ∧ ¬c.FirstBit (c.topPorts x) bus i p

theorem place?_of_none (c : Catalog) (ports : List PortId) (p : PortId) :
    c.place? ports (fun _ => none) p = none :=
  place?_eq_none.2 fun _ _ _ => rfl

theorem busLayout_none (c : Catalog) (x : CellId) (msbFirst : String → Bool) :
    c.BusLayout x msbFirst (fun _ => none) c [] where
  bus _ _ h := by cases h
  fresh _ _ h := by cases h
  port p q hq := by rw [place?_of_none, hq]
  only p q hq hnone := by cases hnone.symm.trans hq
  top := by
    have hself : c.standIn (c.topPorts x) (fun _ => none) = some := by
      funext p
      rw [standIn, place?_of_none]
    rw [hself, List.filterMap_some]
  once := List.nodup_nil
  again p := by simp

theorem mem_members {msbFirst : Bool} : p ∈ (c.busBits ports msbFirst bus).map (·.2) ↔
    ∃ i, c.FirstBit ports bus i p := by
  rw [List.mem_map]
  constructor
  · rintro ⟨⟨i, p⟩, hb, rfl⟩
    exact ⟨i, mem_busBits.1 hb⟩
  · rintro ⟨i, hfirst⟩
    exact ⟨(i, p), mem_busBits.2 hfirst, rfl⟩

theorem FirstBit.stored (h : c.FirstBit ports bus i p) : ∃ q, c.ports.find? p = some q := by
  obtain ⟨q, hq, -⟩ := bit?_eq_some.1 h.bit
  exact ⟨q, hq⟩

namespace BusLayout

variable {msbFirst : String → Bool} {repeated : List PortId}

theorem kept (h : c.BusLayout x msbFirst made c₁ repeated) (hq : c.ports.find? p = some q) :
    ∃ shape, c₁.ports.find? p = some { q with shape } := ⟨_, h.port hq⟩

theorem find?_next (h : c.BusLayout x msbFirst made c₁ repeated) (ht : c₁.Tidy) :
    c.ports.find? ⟨c₁.count + 1⟩ = none := by
  by_contra hstored
  obtain ⟨q, hq⟩ := Option.ne_none_iff_exists'.1 hstored
  obtain ⟨shape, hshape⟩ := h.kept hq
  cases (ht.ports.find?_fresh rfl).symm.trans hshape

theorem ne_next (h : c.BusLayout x msbFirst made c₁ repeated) (ht : c₁.Tidy)
    (hmade : made bus = some g) : g ≠ ⟨c₁.count + 1⟩ := by
  rintro rfl
  obtain ⟨q, -, hq, -⟩ := h.bus hmade
  cases (ht.ports.find?_fresh rfl).symm.trans hq

theorem not_firstBit (h : c.BusLayout x msbFirst made c₁ repeated) (hmade : made bus = some g)
    (bus' : String) (i : Nat) : ¬c.FirstBit ports bus' i g := by
  intro hfirst
  obtain ⟨q, hq⟩ := hfirst.stored
  cases (h.fresh hmade).symm.trans hq

theorem portNamed?_eq_none (h : c.BusLayout x msbFirst made c₁ repeated) (ht : c.Tidy)
    (ht₁ : c₁.Tidy) (hnone : made bus = none) :
    c₁.portNamed? x bus = none ↔ c.portNamed? x bus = none := by
  rw [portNamed?_eq_none_iff ht₁.ports.nodup, portNamed?_eq_none_iff ht.ports.nodup]
  simp only [portLabel?, Option.map_eq_some_iff]
  constructor
  · rintro hall p - ⟨q, hq, rfl⟩
    obtain ⟨shape, hshape⟩ := h.kept hq
    exact hall p _ ⟨_, hshape, rfl⟩
  · rintro hall p - ⟨q, hq, rfl⟩ hx hname
    -- A port that was not there from the start is a bus that is made.
    cases hold : c.ports.find? p with
    | some q₀ =>
      obtain ⟨shape, hshape⟩ := h.kept hold
      obtain rfl := Option.some.inj (hshape.symm.trans hq)
      exact hall p _ ⟨q₀, hold, rfl⟩ hx hname
    | none =>
      obtain ⟨bus', hmade⟩ := h.only hq hold
      obtain ⟨q', bits, hq', hbus⟩ := h.bus hmade
      obtain rfl := Option.some.inj (hq'.symm.trans hq)
      have hsame : bus' = bus := hbus.name.symm.trans hname
      cases (hsame ▸ hmade).symm.trans hnone

section

variable (h : c.BusLayout x msbFirst made c₁ repeated) (ht : c₁.Tidy) (hnone : made bus = none)
variable (m : c₁.MakesBus x bus (c.busBits (c.topPorts x) (msbFirst bus) bus) c₂)

include h m in
theorem busPort_make : ∃ q bits, c₂.ports.find? ⟨c₁.count + 1⟩ = some q ∧
    c.BusPort x (msbFirst bus) bus bits q := by
  obtain ⟨first, last, hfirst, hlast, hmade⟩ := m.made
  have hstored : ∀ p ∈ (c.busBits (c.topPorts x) (msbFirst bus) bus).map (·.2),
      ∃ q, c.ports.find? p = some q := by
    intro p hp
    obtain ⟨i, hfirst⟩ := mem_members.1 hp
    exact hfirst.stored
  have hsame : ∀ p ∈ (c.busBits (c.topPorts x) (msbFirst bus) bus).map (·.2),
      (c₁.ports.find? p).map (·.direction) = (c.ports.find? p).map (·.direction) := by
    intro p hp
    obtain ⟨q, hq⟩ := hstored p hp
    obtain ⟨shape, hshape⟩ := h.kept hq
    rw [hshape, hq, Option.map_some, Option.map_some]
  refine ⟨_, _, hmade, rfl, rfl, rfl, fun i p => mem_busBits, busBits_pairwise ..,
    ⟨first, last, hfirst, hlast, rfl⟩, ?_⟩
  rw [commonDirection_congr hsame]
  exact commonDirection_spec m.nonempty hstored

include h ht m in
theorem port_make (hq : c.ports.find? p = some q) : c₂.ports.find? p = some { q with
    shape := match c.place? (c.topPorts x) (Function.update made bus (some ⟨c₁.count + 1⟩)) p with
      | some (g, i) => .busBit g i
      | none => q.shape } := by
  by_cases hin : ∃ i, c.FirstBit (c.topPorts x) bus i p
  · obtain ⟨i, hfirst⟩ := hin
    have hbit := m.bit (i, p) (mem_busBits.2 hfirst) _ (h.port hq)
    rw [place?_update_of_first hfirst]
    exact hbit
  · rw [place?_update_of_not (not_exists.1 hin), m.other p (mt mem_members.1 hin), h.port hq]
    rintro rfl
    cases (h.find?_next ht).symm.trans hq

include h ht in
theorem map_place?_next (r : PortId) :
    (c.place? ports (Function.update made bus (some ⟨c₁.count + 1⟩)) r).map (·.1) =
      some ⟨c₁.count + 1⟩ ↔ r ∈ (c.busBits ports (msbFirst bus) bus).map (·.2) := by
  rw [map_place?_eq_some, mem_members]
  constructor
  · rintro ⟨bus', i, hmade, hfirst⟩
    by_cases hbus : bus' = bus
    · exact ⟨i, hbus ▸ hfirst⟩
    · rw [Function.update_of_ne hbus] at hmade
      exact absurd rfl (h.ne_next ht hmade)
  · rintro ⟨i, hfirst⟩
    exact ⟨bus, i, Function.update_self .., hfirst⟩

include hnone in
theorem place?_member (hp : p ∈ (c.busBits ports (msbFirst bus) bus).map (·.2)) :
    c.place? ports made p = none := by
  obtain ⟨i, hfirst⟩ := mem_members.1 hp
  refine place?_eq_none.2 fun bus' j hfirst' => ?_
  rw [(hfirst'.unique hfirst).1]
  exact hnone

include h ht hnone in
theorem standIn_member (hp : p ∈ (c.busBits ports (msbFirst bus) bus).map (·.2)) :
    c.standIn ports made p = some p ∧
    c.standIn ports (Function.update made bus (some ⟨c₁.count + 1⟩)) p =
      if ports.find? (· ∈ (c.busBits ports (msbFirst bus) bus).map (·.2)) = some p then
        some ⟨c₁.count + 1⟩ else none := by
  obtain ⟨i, hfirst⟩ := mem_members.1 hp
  refine ⟨by rw [standIn, place?_member hnone hp], ?_⟩
  rw [standIn, place?_update_of_first hfirst]
  simp only [h.map_place?_next ht]

include h ht hnone in
theorem standIn_other (hp : p ∉ (c.busBits ports (msbFirst bus) bus).map (·.2)) :
    c.standIn ports (Function.update made bus (some ⟨c₁.count + 1⟩)) p = c.standIn ports made p ∧
    ∀ t, c.standIn ports made p = some t → t ∉ (c.busBits ports (msbFirst bus) bus).map (·.2) := by
  rw [standIn, standIn, place?_update_of_not (not_exists.1 (mt mem_members.2 hp))]
  cases hplace : c.place? ports made p with
  | none => exact ⟨rfl, fun t ht => Option.some.inj ht ▸ hp⟩
  | some b =>
    obtain ⟨g, i⟩ := b
    obtain ⟨bus', hmade, hfirst⟩ := place?_eq_some.1 hplace
    -- The port is a bit of an older bus, which has the same ports at its place as before.
    have hsame (r : PortId) :
        (c.place? ports (Function.update made bus (some ⟨c₁.count + 1⟩)) r).map (·.1) = some g ↔
          (c.place? ports made r).map (·.1) = some g := by
      by_cases hr : r ∈ (c.busBits ports (msbFirst bus) bus).map (·.2)
      · rw [(h.map_place?_next ht r).2 hr, place?_member hnone hr]
        exact iff_of_false (fun hg => h.ne_next ht hmade (Option.some.inj hg).symm) nofun
      · rw [place?_update_of_not (not_exists.1 (mt mem_members.2 hr))]
    simp only [hsame, true_and]
    intro t hstand hin
    obtain rfl := Option.some.inj (Option.ite_none_right_eq_some.1 hstand).2
    obtain ⟨j, hbit⟩ := mem_members.1 hin
    exact h.not_firstBit hmade bus j hbit

include h ht hnone m in
theorem top_make (hnodup : (c.topPorts x).Nodup) : c₂.topPorts x = (c.topPorts x).filterMap
    (c.standIn (c.topPorts x) (Function.update made bus (some ⟨c₁.count + 1⟩))) := by
  have hcells : c₂.cells = c₁.cells.modify x fun y => { y with
      ports := regroup y.ports ((c.busBits (c.topPorts x) (msbFirst bus) bus).map (·.2))
        ⟨c₁.count + 1⟩ } := by
    rw [m.frame]
  obtain ⟨p, hp⟩ := List.exists_mem_of_ne_nil _ m.nonempty
  obtain ⟨y, hy, -⟩ := mem_topPorts.1 (m.top p hp)
  obtain ⟨i, hfirst⟩ := mem_members.1 hp
  rw [topPorts_modify_self (f := fun ports => regroup ports _ _) hcells hy, h.top]
  exact regroup_filterMap hnodup ⟨p, hfirst.mem, hp⟩
    (fun _ _ hr => h.standIn_member ht hnone hr) fun _ _ hr => h.standIn_other ht hnone hr

include h ht hnone m in
theorem make (hnodup : (c.topPorts x).Nodup) :
    c.BusLayout x msbFirst (Function.update made bus (some ⟨c₁.count + 1⟩)) c₂
      (repeated ++ c.repeats (c.topPorts x) bus) where
  bus bus' g hmade := by
    by_cases hbus : bus' = bus
    · subst hbus
      rw [Function.update_self] at hmade
      obtain rfl := Option.some.inj hmade
      exact h.busPort_make m
    · rw [Function.update_of_ne hbus] at hmade
      obtain ⟨q, bits, hq, hport⟩ := h.bus hmade
      refine ⟨q, bits, ?_, hport⟩
      rw [m.other g (fun hin => ?_) (h.ne_next ht hmade), hq]
      obtain ⟨i, hfirst⟩ := mem_members.1 hin
      exact h.not_firstBit hmade bus i hfirst
  fresh bus' g hmade := by
    by_cases hbus : bus' = bus
    · rw [hbus, Function.update_self] at hmade
      obtain rfl := Option.some.inj hmade
      exact h.find?_next ht
    · rw [Function.update_of_ne hbus] at hmade
      exact h.fresh hmade
  port p q hq := h.port_make ht m hq
  only p q hq hnew := by
    by_cases hp : p = ⟨c₁.count + 1⟩
    · exact ⟨bus, hp ▸ Function.update_self ..⟩
    · obtain ⟨q₁, hq₁⟩ := m.origin hp hq
      obtain ⟨bus', hmade⟩ := h.only hq₁ hnew
      have hbus : bus' ≠ bus := by
        rintro rfl
        cases hnone.symm.trans hmade
      exact ⟨bus', (Function.update_of_ne hbus ..).trans hmade⟩
  top := h.top_make ht hnone m hnodup
  once := by
    refine List.nodup_append.2 ⟨h.once, repeats_nodup hnodup bus, ?_⟩
    intro p hp r hr hpr
    subst hpr
    obtain ⟨bus', i, hmade, -, hbit, -⟩ := (h.again p).1 hp
    obtain ⟨-, j, hbit', -⟩ := mem_repeats.1 hr
    obtain ⟨rfl, -⟩ := Prod.mk.inj (Option.some.inj (hbit.symm.trans hbit'))
    exact hmade hnone
  again p := by
    rw [List.mem_append, h.again, mem_repeats]
    constructor
    · rintro (⟨bus', i, hmade, hp⟩ | ⟨hp, i, hbit, hfirst⟩)
      · have hbus : bus' ≠ bus := by
          rintro rfl
          exact hmade hnone
        exact ⟨bus', i, by rwa [Function.update_of_ne hbus], hp⟩
      · exact ⟨bus, i, by simp, hp, hbit, hfirst⟩
    · rintro ⟨bus', i, hmade, hp, hbit, hfirst⟩
      by_cases hbus : bus' = bus
      · subst hbus
        exact .inr ⟨hp, i, hbit, hfirst⟩
      · rw [Function.update_of_ne hbus] at hmade
        exact .inl ⟨bus', i, hmade, hp, hbit, hfirst⟩

end

end BusLayout

def Due (c : Catalog) (x : CellId) (bus : String) : Prop :=
  (∃ p ∈ c.topPorts x, ∃ i, c.bit? p = some (bus, i)) ∧ c.portNamed? x bus = none

/-- The grouping of a cell makes the buses that are due. -/
theorem Tidy.groupBuses_layout (ht : c.Tidy) (hnodup : (c.topPorts x).Nodup)
    (msbFirst : String → Bool) : ∃ made : String → Option PortId,
    (∀ bus, made bus ≠ none ↔ c.Due x bus) ∧
      c.BusLayout x msbFirst made (c.groupBuses x msbFirst).1 (c.groupBuses x msbFirst).2 := by
  have hnamed (bus : String) : c.bitsNamed (c.topPorts x) bus ≠ [] ↔
      ∃ p ∈ c.topPorts x, ∃ i, c.bit? p = some (bus, i) := by
    constructor
    · intro hne
      obtain ⟨b, hb⟩ := List.exists_mem_of_ne_nil _ hne
      obtain ⟨hp, hbit⟩ := mem_bitsNamed.1 hb
      exact ⟨b.2, hp, b.1, hbit⟩
    · rintro ⟨p, hp, i, hbit⟩
      exact List.ne_nil_of_mem (mem_bitsNamed.2 ⟨hp, hbit⟩ : (i, p) ∈ _)
  -- Of the names that had their turn, the ones that no port has from the start are made.
  suffices hrun : ∃ done : List String,
      (∀ bus, bus ∈ done ↔ c.bitsNamed (c.topPorts x) bus ≠ []) ∧
      ∃ made : String → Option PortId,
        (∀ bus, made bus ≠ none ↔ bus ∈ done ∧ c.portNamed? x bus = none) ∧
        c.BusLayout x msbFirst made (c.groupBuses x msbFirst).1 (c.groupBuses x msbFirst).2 by
    obtain ⟨done, hdone, made, hmade, hlayout⟩ := hrun
    refine ⟨made, fun bus => ?_, hlayout⟩
    rw [hmade, hdone, hnamed]
    rfl
  refine groupBuses_makes (motive := fun done c' repeated => ∃ made : String → Option PortId,
    (∀ bus, made bus ≠ none ↔ bus ∈ done ∧ c.portNamed? x bus = none) ∧
      c.BusLayout x msbFirst made c' repeated)
    msbFirst ht hnodup ⟨_, by simp, busLayout_none c x msbFirst⟩ ?_ ?_
  · rintro done c₁ repeated bus p - hnew ht₁ hport ⟨made, hmade, h⟩
    have hnone : made bus = none := not_not.1 fun h => hnew ((hmade bus).1 h).1
    have hold : c.portNamed? x bus ≠ none := by
      rw [Ne, ← h.portNamed?_eq_none ht ht₁ hnone, hport]
      nofun
    refine ⟨made, fun bus' => ?_, h⟩
    rw [hmade, List.mem_append, List.mem_singleton]
    refine and_congr_left fun hfree => (or_iff_left ?_).symm
    rintro rfl
    exact hold hfree
  · rintro done c₁ c₂ repeated bus - hnew ht₁ m ⟨made, hmade, h⟩
    have hnone : made bus = none := not_not.1 fun h => hnew ((hmade bus).1 h).1
    refine ⟨_, fun bus' => ?_, h.make ht₁ hnone m hnodup⟩
    rw [List.mem_append, List.mem_singleton]
    by_cases hbus : bus' = bus
    · subst hbus
      rw [Function.update_self]
      exact iff_of_true nofun ⟨.inr rfl, (h.portNamed?_eq_none ht ht₁ hnone).1 m.free⟩
    · rw [Function.update_of_ne hbus, hmade]
      simp [hbus]

end DesignView.Catalog
