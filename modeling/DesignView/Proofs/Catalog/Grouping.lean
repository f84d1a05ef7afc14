import DesignView.Proofs.Catalog.Label
import Mathlib.Data.List.Nodup
import Mathlib.Data.List.TakeWhile

/-!
What grouping does to a catalog. A new group takes the place of ports at the top level of one cell;
bits come to know their bus, and nothing else changes. The buses of a cell are made one after the
other, each of scalar ports that the ones before it have left alone.
-/

namespace DesignView.Catalog

variable {c c' : Catalog} {cell : CellId} {name : String} {members : List PortId}

theorem not_mem_takeWhile {ports members : List PortId} {p : PortId}
    (h : p ∈ ports.takeWhile (· ∉ members)) : p ∉ members :=
  of_decide_eq_true (List.mem_takeWhile_imp (p := fun q => decide (q ∉ members)) h)

theorem mem_regroup {ports members : List PortId} {p g : PortId} :
    p ∈ regroup ports members g ↔ p = g ∨ p ∈ ports ∧ p ∉ members := by
  have hsplit : ports.takeWhile (· ∉ members) ++ ports.dropWhile (· ∉ members) = ports :=
    List.takeWhile_append_dropWhile
  have hmem : p ∈ ports ↔
      p ∈ ports.takeWhile (· ∉ members) ∨ p ∈ ports.dropWhile (· ∉ members) := by
    rw [← List.mem_append, hsplit]
  simp only [regroup, List.mem_append, List.mem_cons, List.mem_filter, decide_eq_true_eq, hmem]
  constructor
  · rintro (h | rfl | ⟨h, hp⟩)
    · exact .inr ⟨.inl h, not_mem_takeWhile h⟩
    · exact .inl rfl
    · exact .inr ⟨.inr h, hp⟩
  · rintro (rfl | ⟨h | h, hp⟩)
    · exact .inr (.inl rfl)
    · exact .inl h
    · exact .inr (.inr ⟨h, hp⟩)

theorem mem_topPorts {p : PortId} :
    p ∈ c.topPorts cell ↔ ∃ x, c.cells.find? cell = some x ∧ p ∈ x.ports := by
  unfold topPorts
  cases c.cells.find? cell with
  | none => simp
  | some x => simp

/-- The second catalog has a new port that groups some top-level ports of the cell. -/
structure Groups (c : Catalog) (cell : CellId) (name : String) (members : List PortId)
    (c' : Catalog) : Prop where
  free : c.portNamed? cell name = none
  nonempty : members ≠ []
  top : ∀ p ∈ members, p ∈ c.topPorts cell
  frame : c' = { c with
    count := c.count + 1
    ports := c'.ports
    cells := c.cells.modify cell fun x =>
      { x with ports := regroup x.ports members ⟨c.count + 1⟩ } }
  keys : c'.ports.keys = c.ports.keys ++ [⟨c.count + 1⟩]
  group : ∃ direction shape, shape.members = members ∧ (∀ bus i, shape ≠ .busBit bus i) ∧
    c'.ports.find? ⟨c.count + 1⟩ = some { name, cell, source := .group, direction, shape }
  member : ∀ p ∈ members, ∀ q, c.ports.find? p = some q → ∃ shape,
    c'.ports.find? p = some { q with shape } ∧
      (shape = q.shape ∨ ∃ i, shape = .busBit ⟨c.count + 1⟩ i)
  other : ∀ p, p ∉ members → p ≠ ⟨c.count + 1⟩ → c'.ports.find? p = c.ports.find? p

namespace Groups

theorem cellAt (h : c.Groups cell name members c') (x : CellId) : c'.cells.find? x =
    if x = cell then (c.cells.find? x).map fun y =>
      { y with ports := regroup y.ports members ⟨c.count + 1⟩ } else c.cells.find? x := by
  have hcells : c'.cells = c.cells.modify cell fun y =>
      { y with ports := regroup y.ports members ⟨c.count + 1⟩ } := by
    rw [h.frame]
  rw [hcells, OrderedMap.find?_modify]

theorem tidy (h : c.Groups cell name members c') (ht : c.Tidy) : c'.Tidy := by
  have hcells := ht.modifyCells cell fun x =>
    { x with ports := regroup x.ports members ⟨c.count + 1⟩ }
  have hports : c'.ports.UpTo PortId.num (c.count + 1) := ht.ports.append rfl h.keys
  rw [h.frame]
  exact ⟨ht.libraries.mono (Nat.le_succ _), hcells, hports, ht.boundaryPorts⟩

theorem kept (h : c.Groups cell name members c') (ht : c.Tidy) {p : PortId} {q : Port}
    (hq : c.ports.find? p = some q) : ∃ shape, c'.ports.find? p = some { q with shape } ∧
      (shape = q.shape ∨ p ∈ members ∧ ∃ i, shape = .busBit ⟨c.count + 1⟩ i) := by
  have hne : p ≠ ⟨c.count + 1⟩ := by
    rintro rfl
    cases (ht.ports.find?_fresh rfl).symm.trans hq
  by_cases hp : p ∈ members
  · obtain ⟨shape, hfind, hshape⟩ := h.member p hp q hq
    exact ⟨shape, hfind, hshape.imp_right fun hi => ⟨hp, hi⟩⟩
  · exact ⟨q.shape, (h.other p hp hne).trans hq, .inl rfl⟩

theorem origin (h : c.Groups cell name members c') {p : PortId} (hne : p ≠ ⟨c.count + 1⟩)
    {q' : Port} (hq' : c'.ports.find? p = some q') : ∃ q, c.ports.find? p = some q := by
  have hkey : p ∈ c'.ports.keys := OrderedMap.mem_keys_iff.2 ⟨q', hq'⟩
  rw [h.keys] at hkey
  rcases List.mem_append.1 hkey with hkey | hkey
  · exact OrderedMap.mem_keys_iff.1 hkey
  · exact absurd (List.mem_singleton.1 hkey) hne

theorem portLabel?_of_ne (h : c.Groups cell name members c') (ht : c.Tidy) {p : PortId}
    (hne : p ≠ ⟨c.count + 1⟩) : c'.portLabel? p = c.portLabel? p := by
  unfold portLabel?
  cases hq : c.ports.find? p with
  | some q =>
    obtain ⟨shape, hq', -⟩ := h.kept ht hq
    rw [hq', Option.map_some, Option.map_some, Port.label, Port.label]
  | none =>
    cases hq' : c'.ports.find? p with
    | none => rfl
    | some q' =>
      obtain ⟨q, hq''⟩ := h.origin hne hq'
      cases hq.symm.trans hq''

theorem portLabel?_mono (h : c.Groups cell name members c') (ht : c.Tidy) ⦃p : PortId⦄
    ⦃l : PortLabel⦄ (hl : c.portLabel? p = some l) : c'.portLabel? p = some l := by
  have hne : p ≠ ⟨c.count + 1⟩ := by
    rintro rfl
    cases ht.portLabel?_next.symm.trans hl
  exact (h.portLabel?_of_ne ht hne).trans hl

theorem cellLabel?_eq (h : c.Groups cell name members c') (x : CellId) :
    c'.cellLabel? x = c.cellLabel? x := by
  rw [cellLabel?, h.cellAt, cellLabel?]
  split
  · rw [Option.map_map]
    rfl
  · rfl

theorem mem_topPorts (h : c.Groups cell name members c') {p : PortId} :
    p ∈ c'.topPorts cell ↔ p = ⟨c.count + 1⟩ ∨ p ∈ c.topPorts cell ∧ p ∉ members := by
  obtain ⟨m, hm⟩ := List.exists_mem_of_ne_nil members h.nonempty
  obtain ⟨x, hx, -⟩ := Catalog.mem_topPorts.1 (h.top m hm)
  have hx' : c'.cells.find? cell =
      some { x with ports := regroup x.ports members ⟨c.count + 1⟩ } := by
    rw [h.cellAt, if_pos rfl, hx, Option.map_some]
  simp only [topPorts, hx, hx']
  exact mem_regroup

end Groups

theorem portNamed?_eq_none_iff (hnodup : c.ports.keys.Nodup) :
    c.portNamed? cell name = none ↔
      ∀ p l, c.portLabel? p = some l → l.cell = cell → l.name ≠ name := by
  constructor
  · intro hnone p l hl hcell hname
    obtain ⟨q, hq, rfl⟩ := Option.map_eq_some_iff.1 hl
    have hp : (decide (q.cell = cell) && decide (q.name = name)) = true := by
      simp [show q.cell = cell from hcell, show q.name = name from hname]
    obtain ⟨k, hk⟩ := OrderedMap.firstKey?_isSome
      (p := fun q : Port => decide (q.cell = cell) && decide (q.name = name)) hq hp
    cases hnone.symm.trans hk
  · intro hall
    cases hp : c.portNamed? cell name with
    | none => rfl
    | some p =>
      obtain ⟨q, hq, hnamed⟩ := OrderedMap.exists_of_firstKey? hnodup hp
      obtain ⟨hcell, hname⟩ : q.cell = cell ∧ q.name = name := by simpa using hnamed
      have hl : c.portLabel? p = some q.label := congrArg (Option.map Port.label) hq
      exact absurd hname (hall p q.label hl hcell)

theorem Tidy.keys_addGroup (ht : c.Tidy) (cell : CellId) (name : String) (shape : PortShape) :
    (c.addGroup cell name shape).2.ports.keys = c.ports.keys ++ [⟨c.count + 1⟩] :=
  (OrderedMap.keys_insert ..).trans (if_neg (ht.ports.fresh rfl))

theorem find?_addGroup (c : Catalog) (cell : CellId) (name : String) (shape : PortShape)
    (p : PortId) : (c.addGroup cell name shape).2.ports.find? p = if p = ⟨c.count + 1⟩ then
      some { name, cell, source := .group, direction := c.commonDirection shape.members, shape }
      else c.ports.find? p := OrderedMap.find?_insert ..

theorem find?_foldl_setShape (bus p : PortId) (bits : List (Nat × PortId)) (c : Catalog) :
    (p ∉ bits.map (·.2) → (bits.foldl (fun c b =>
      c.setShape b.2 (.busBit bus b.1)) c).ports.find? p = c.ports.find? p) ∧
    (p ∈ bits.map (·.2) → ∀ q, c.ports.find? p = some q → ∃ i, (bits.foldl (fun c b =>
      c.setShape b.2 (.busBit bus b.1)) c).ports.find? p =
        some { q with shape := .busBit bus i }) := by
  induction bits generalizing c with
  | nil => exact ⟨fun _ => rfl, fun h => by cases h⟩
  | cons b bits ih =>
    have hone : (c.setShape b.2 (.busBit bus b.1)).ports.find? p = if p = b.2 then
        (c.ports.find? p).map fun q => { q with shape := .busBit bus b.1 }
        else c.ports.find? p := OrderedMap.find?_modify ..
    obtain ⟨hout, hin⟩ := ih (c.setShape b.2 (.busBit bus b.1))
    refine ⟨fun h => ?_, fun h q hq => ?_⟩
    · obtain ⟨hne, hrest⟩ := not_or.1 (mt List.mem_cons.2 h)
      rw [List.foldl_cons, hout hrest, hone, if_neg hne]
    · rw [List.foldl_cons]
      by_cases hrest : p ∈ bits.map (·.2)
      · by_cases hb : p = b.2
        · exact hin hrest { q with shape := .busBit bus b.1 } (by
            rw [hone, if_pos hb, hq, Option.map_some])
        · exact hin hrest q (by rw [hone, if_neg hb, hq])
      · have hb : p = b.2 := (List.mem_cons.1 h).resolve_right hrest
        exact ⟨b.1, by rw [hout hrest, hone, if_pos hb, hq, Option.map_some]⟩

theorem foldl_setShape_eq (bus : PortId) (bits : List (Nat × PortId)) (c : Catalog) :
    bits.foldl (fun c b => c.setShape b.2 (.busBit bus b.1)) c = { c with
      ports := bits.foldl (fun ports b =>
        ports.modify b.2 fun q => { q with shape := .busBit bus b.1 }) c.ports } := by
  induction bits generalizing c with
  | nil => rfl
  | cons b bits ih => exact ih (c.setShape b.2 (.busBit bus b.1))

theorem Tidy.groups_bundle (ht : c.Tidy) (hfree : c.portNamed? cell name = none)
    (hne : members ≠ []) (htop : ∀ p ∈ members, p ∈ c.topPorts cell) :
    c.Groups cell name members (c.addGroup cell name (.bundle members)).2 where
  free := hfree
  nonempty := hne
  top := htop
  frame := rfl
  keys := ht.keys_addGroup ..
  group := ⟨_, .bundle members, rfl, fun _ _ h => PortShape.noConfusion h,
    (find?_addGroup ..).trans (if_pos rfl)⟩
  member p _ q hq := by
    have hne : p ≠ ⟨c.count + 1⟩ := by
      rintro rfl
      cases (ht.ports.find?_fresh rfl).symm.trans hq
    exact ⟨q.shape, (find?_addGroup ..).trans ((if_neg hne).trans hq), .inl rfl⟩
  other p _ hne := (find?_addGroup ..).trans (if_neg hne)

theorem Tidy.groups_bus (ht : c.Tidy) (hfree : c.portNamed? cell name = none)
    {bits : List (Nat × PortId)} (hne : bits ≠ []) (htop : ∀ b ∈ bits, b.2 ∈ c.topPorts cell)
    (hstored : ∀ b ∈ bits, b.2 ∈ c.ports.keys) (first last : Nat) :
    c.Groups cell name (bits.map (·.2))
      (bits.foldl (fun c' b => c'.setShape b.2 (.busBit ⟨c.count + 1⟩ b.1))
        (c.addGroup cell name (.bus first last (bits.map (·.2)))).2) := by
  obtain ⟨shape, hshape⟩ : ∃ s, s = PortShape.bus first last (bits.map (·.2)) := ⟨_, rfl⟩
  have hmembers : shape.members = bits.map (·.2) := by rw [hshape, PortShape.members]
  have hnot : ∀ p ∈ bits.map (·.2), p ≠ ⟨c.count + 1⟩ := by
    rintro p hp rfl
    obtain ⟨b, hb, hp⟩ := List.mem_map.1 hp
    exact ht.ports.fresh (k := ⟨c.count + 1⟩) rfl (hp ▸ hstored b hb)
  have hold (p : PortId) (hne : p ≠ ⟨c.count + 1⟩) :
      (c.addGroup cell name shape).2.ports.find? p = c.ports.find? p :=
    (find?_addGroup ..).trans (if_neg hne)
  have hbits (p : PortId) :=
    find?_foldl_setShape ⟨c.count + 1⟩ p bits (c.addGroup cell name shape).2
  rw [← hshape]
  refine ⟨hfree, mt List.map_eq_nil_iff.1 hne, fun p hp => ?_, ?_, ?_, ?_, ?_, ?_⟩
  · obtain ⟨b, hb, rfl⟩ := List.mem_map.1 hp
    exact htop b hb
  · rw [foldl_setShape_eq, ← hmembers]
    rfl
  · rw [foldl_setShape_eq]
    exact (OrderedMap.keys_foldl_modify (·.2) _ bits _).trans (ht.keys_addGroup ..)
  · have hbus (bus : PortId) (i : Nat) : shape ≠ .busBit bus i := by
      rw [hshape]
      exact PortShape.noConfusion
    refine ⟨c.commonDirection shape.members, shape, hmembers, hbus, ?_⟩
    rw [(hbits _).1 fun hin => hnot _ hin rfl, find?_addGroup, if_pos rfl]
  · intro p hp q hq
    obtain ⟨i, hi⟩ := (hbits p).2 hp q ((hold p (hnot p hp)).trans hq)
    exact ⟨_, hi, .inr ⟨i, rfl⟩⟩
  · intro p hp hne
    exact ((hbits p).1 hp).trans (hold p hne)

theorem mem_of_mem_firstBits {bits : List (Nat × PortId)} {b : Nat × PortId}
    (h : b ∈ firstBits bits) : b ∈ bits := by
  suffices hall : ∀ b ∈ firstBits bits, b ∈ bits from hall b h
  refine List.foldlRecOn (motive := fun kept => ∀ b ∈ kept, b ∈ bits) bits _
    (fun b hb => by cases hb) fun kept hkept a ha b hb => ?_
  split at hb
  · exact hkept b hb
  · rcases List.mem_append.1 hb with hb | hb
    · exact hkept b hb
    · exact List.mem_singleton.1 hb ▸ ha

theorem Tidy.groupBus_cases (ht : c.Tidy) (msbFirst : Bool) {bits : List (Nat × PortId)}
    (htop : ∀ b ∈ bits, b.2 ∈ c.topPorts cell) (hstored : ∀ b ∈ bits, b.2 ∈ c.ports.keys) :
    (c.groupBus cell msbFirst name bits).1 = c ∨ ∃ kept : List (Nat × PortId),
      (∀ b ∈ kept, b ∈ bits) ∧
        c.Groups cell name (kept.map (·.2)) (c.groupBus cell msbFirst name bits).1 := by
  unfold Catalog.groupBus
  split
  · exact .inl rfl
  · next hfree =>
    dsimp only
    split
    · next first last hfirst _ =>
      have hmem (b : Nat × PortId) (hb : b ∈ sortBits msbFirst (firstBits bits)) : b ∈ bits :=
        mem_of_mem_firstBits (List.mem_mergeSort.1 hb)
      have hne : sortBits msbFirst (firstBits bits) ≠ [] := by
        intro hnil
        cases hfirst.symm.trans (congrArg List.head? hnil)
      exact .inr ⟨_, hmem, ht.groups_bus (by simpa using hfree) hne (fun b hb => htop b (hmem b hb))
        (fun b hb => hstored b (hmem b hb)) _ _⟩
    · exact .inl rfl

def BitOf (c : Catalog) (cell : CellId) (bus : String) (p : PortId) : Prop :=
  p ∈ c.topPorts cell ∧ ∃ q i, c.ports.find? p = some q ∧ q.shape = .scalar ∧
    BitName.parse? q.name = some (bus, i)

theorem keys_nodup_bitsByBus (c : Catalog) (cell : CellId) : (c.bitsByBus cell).keys.Nodup := by
  refine List.foldlRecOn (motive := fun buses => OrderedMap.keys buses |>.Nodup) _ _
    List.nodup_nil fun buses hbuses p _ => ?_
  split
  · exact hbuses
  · split
    · exact hbuses
    · split
      · exact hbuses
      · exact OrderedMap.keys_nodup_insert hbuses _ _

theorem bitOf_bitsByBus {e : String × List (Nat × PortId)} (he : e ∈ (c.bitsByBus cell).entries) :
    ∀ b ∈ e.2, c.BitOf cell e.1 b.2 := by
  suffices hall : ∀ e ∈ (c.bitsByBus cell).entries, ∀ b ∈ e.2, c.BitOf cell e.1 b.2 from hall e he
  refine List.foldlRecOn (motive := fun buses : OrderedMap String (List (Nat × PortId)) =>
    ∀ e ∈ buses.entries, ∀ b ∈ e.2, c.BitOf cell e.1 b.2) _ _ (fun e he => by cases he) ?_
  intro buses hbuses p hp e he b hb
  split at he
  · exact hbuses e he b hb
  · next q hq =>
    split at he
    · exact hbuses e he b hb
    · next hscalar =>
      split at he
      · exact hbuses e he b hb
      · next bus i hparse =>
        rcases OrderedMap.mem_insert he with rfl | he
        · rcases List.mem_append.1 hb with hb | hb
          · cases hfind : buses.find? bus with
            | none =>
              rw [hfind] at hb
              cases hb
            | some bits =>
              rw [hfind] at hb
              exact hbuses (bus, bits) (OrderedMap.mem_of_find? hfind) b hb
          · cases List.mem_singleton.1 hb
            exact ⟨hp, q, i, hq, not_not.1 hscalar, hparse⟩
        · exact hbuses e he b hb

theorem BitOf.groups {bus : String} {p : PortId} (h : c.BitOf cell bus p) (hne : bus ≠ name)
    (hbits : ∀ m ∈ members, c.BitOf cell name m) (ht : c.Tidy)
    (g : c.Groups cell name members c') : c'.BitOf cell bus p := by
  obtain ⟨htop, q, i, hq, hscalar, hparse⟩ := h
  have hout : p ∉ members := by
    intro hin
    obtain ⟨-, q', i', hq', -, hparse'⟩ := hbits p hin
    cases hq.symm.trans hq'
    cases hparse.symm.trans hparse'
    exact hne rfl
  obtain ⟨shape, hq', hshape⟩ := g.kept ht hq
  have hsame : shape = q.shape := hshape.resolve_right fun hin => hout hin.1
  exact ⟨g.mem_topPorts.2 (.inr ⟨htop, hout⟩), _, i, hq', hsame.trans hscalar, hparse⟩

theorem Tidy.groupBus_bits (ht : c.Tidy) (msbFirst : Bool) {bits : List (Nat × PortId)}
    (hbits : ∀ b ∈ bits, c.BitOf cell name b.2) :
    (c.groupBus cell msbFirst name bits).1 = c ∨ ∃ kept : List (Nat × PortId),
      (∀ b ∈ kept, b ∈ bits) ∧
        c.Groups cell name (kept.map (·.2)) (c.groupBus cell msbFirst name bits).1 := by
  refine ht.groupBus_cases msbFirst (fun b hb => (hbits b hb).1) fun b hb => ?_
  obtain ⟨-, q, -, hq, -⟩ := hbits b hb
  exact OrderedMap.mem_keys_iff.2 ⟨q, hq⟩

def groupNext (cell : CellId) (msbFirst : String → Bool) (acc : Catalog × List PortId)
    (e : String × List (Nat × PortId)) : Catalog × List PortId :=
  ((acc.1.groupBus cell (msbFirst e.1) e.1 e.2).1,
    acc.2 ++ (acc.1.groupBus cell (msbFirst e.1) e.1 e.2).2)

theorem groupBuses_eq (c : Catalog) (cell : CellId) (msbFirst : String → Bool) :
    c.groupBuses cell msbFirst =
      (c.bitsByBus cell).entries.foldl (groupNext cell msbFirst) (c, []) := rfl

/-- The buses are made one after the other. Until the turn of a bus comes, its bits are scalar ports
at the top level. -/
theorem groupBuses_run {motive : List String → Catalog → List PortId → Prop}
    (msbFirst : String → Bool) (ht : c.Tidy) (hc : motive [] c [])
    (hstep : ∀ done c₁ repeated e, e ∈ (c.bitsByBus cell).entries → e.1 ∉ done → c₁.Tidy →
      (∀ b ∈ e.2, c₁.BitOf cell e.1 b.2) → motive done c₁ repeated →
      motive (done ++ [e.1]) (c₁.groupBus cell (msbFirst e.1) e.1 e.2).1
        (repeated ++ (c₁.groupBus cell (msbFirst e.1) e.1 e.2).2)) :
    motive (c.bitsByBus cell).keys (c.groupBuses cell msbFirst).1
      (c.groupBuses cell msbFirst).2 := by
  suffices hrun : ∀ (es : List (String × List (Nat × PortId))) (done : List String) (c₁ : Catalog)
      (repeated : List PortId), c₁.Tidy → motive done c₁ repeated →
      (∀ e ∈ es, e ∈ (c.bitsByBus cell).entries) → (es.map (·.1)).Nodup →
      (∀ e ∈ es, e.1 ∉ done) → (∀ e ∈ es, ∀ b ∈ e.2, c₁.BitOf cell e.1 b.2) →
      motive (done ++ es.map (·.1)) (es.foldl (groupNext cell msbFirst) (c₁, repeated)).1
        (es.foldl (groupNext cell msbFirst) (c₁, repeated)).2 by
    rw [groupBuses_eq]
    exact hrun _ [] c [] ht hc (fun _ he => he) (keys_nodup_bitsByBus c cell)
      (fun _ _ h => by cases h) fun e he => bitOf_bitsByBus he
  intro es
  induction es with
  | nil =>
    intro done c₁ repeated _ hmotive _ _ _ _
    rw [List.map_nil, List.append_nil]
    exact hmotive
  | cons e es ih =>
    intro done c₁ repeated ht₁ hmotive hes hnodup hdone hbits
    obtain ⟨hnew, hnodup⟩ := List.nodup_cons.1 hnodup
    have he : ∀ b ∈ e.2, c₁.BitOf cell e.1 b.2 := hbits e List.mem_cons_self
    have hone := hstep done c₁ repeated e (hes e List.mem_cons_self) (hdone e List.mem_cons_self)
      ht₁ he hmotive
    have hcases := ht₁.groupBus_bits (msbFirst e.1) he
    rw [List.map_cons, ← List.singleton_append, ← List.append_assoc, List.foldl_cons,
      groupNext]
    generalize c₁.groupBus cell (msbFirst e.1) e.1 e.2 = r at hone hcases ⊢
    obtain ⟨c₂, more⟩ := r
    refine ih _ _ _ ?_ hone (fun e' he' => hes e' (List.mem_cons_of_mem e he')) hnodup
      (fun e' he' => ?_) fun e' he' b hb => ?_
    · rcases hcases with rfl | ⟨kept, -, g⟩
      · exact ht₁
      · exact g.tidy ht₁
    · rw [List.mem_append, List.mem_singleton, not_or]
      exact ⟨hdone e' (List.mem_cons_of_mem e he'),
        fun h => hnew (List.mem_map.2 ⟨e', he', h⟩)⟩
    · have hbit := hbits e' (List.mem_cons_of_mem e he') b hb
      rcases hcases with rfl | ⟨kept, hkept, g⟩
      · exact hbit
      · have hne : e'.1 ≠ e.1 := fun h => hnew (List.mem_map.2 ⟨e', he', h⟩)
        refine hbit.groups hne (fun m hm => ?_) ht₁ g
        obtain ⟨b, hb, rfl⟩ := List.mem_map.1 hm
        exact he b (hkept b hb)

/-- What each new bus keeps, the grouping of a cell keeps. -/
theorem groupBuses_induct {motive : Catalog → Prop} (msbFirst : String → Bool) (ht : c.Tidy)
    (hc : motive c) (hstep : ∀ c c' name members, c.Tidy → motive c →
      (∀ p ∈ members, ∃ q, c.ports.find? p = some q ∧ q.shape = .scalar) →
      c.Groups cell name members c' → motive c') : motive (c.groupBuses cell msbFirst).1 := by
  refine groupBuses_run (motive := fun _ c _ => motive c) msbFirst ht hc
    fun done c₁ repeated e _ _ ht₁ he hmotive => ?_
  rcases ht₁.groupBus_bits (msbFirst e.1) he with hsame | ⟨kept, hkept, g⟩
  · rw [hsame]
    exact hmotive
  · refine hstep _ _ _ _ ht₁ hmotive (fun m hm => ?_) g
    obtain ⟨b, hb, rfl⟩ := List.mem_map.1 hm
    obtain ⟨-, q, -, hq, hscalar, -⟩ := he b (hkept b hb)
    exact ⟨q, hq, hscalar⟩

theorem Tidy.bundle_cases (ht : c.Tidy) {r : Option PortId}
    (e : c.bundle cell name members = .ok (r, c')) : c' = c ∨ c.Groups cell name members c' := by
  rcases bundle_eq_ok e with rfl | ⟨hne, hfree, ⟨y, hy, hall⟩, rfl⟩
  · exact .inl rfl
  · exact .inr (ht.groups_bundle hfree hne fun p hp => mem_topPorts.2 ⟨y, hy, hall p hp⟩)

end DesignView.Catalog
