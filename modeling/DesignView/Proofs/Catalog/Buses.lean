import DesignView.Proofs.Catalog.BusBits

/-!
How the buses of a cell come about. A bus that is made lists the first port of each index; it knows
its outer indices and the common direction of its bits, and each bit knows its bus and its index.
The grouping of a cell makes the buses that some port is named after, but for those whose name the
cell has already.
-/

namespace DesignView.Catalog

variable {c c' : Catalog} {cell : CellId} {bus : String} {bits : List (Nat × PortId)}
variable {b : Nat × PortId} {q : Port}

def laterBits (bits : List (Nat × PortId)) : List (Nat × PortId) :=
  bits.filter fun b => (firstBits bits).all (· ≠ b)

/-- The ports that repeat an index of a bus. -/
def repeats (c : Catalog) (ports : List PortId) (bus : String) : List PortId :=
  (laterBits (c.bitsNamed ports bus)).map (·.2)

theorem mem_laterBits : b ∈ laterBits bits ↔ b ∈ bits ∧ b ∉ firstBits bits := by
  rw [laterBits, List.mem_filter, List.all_eq_true]
  refine and_congr_right fun _ => ⟨fun h hb => ?_, fun h k hk => ?_⟩
  · simpa using h b hb
  · refine decide_eq_true ?_
    rintro rfl
    exact h hk

theorem laterBits_eq (bits : List (Nat × PortId)) :
    laterBits bits = bits.filter (· ∉ firstBits bits) := by
  refine List.filter_congr fun b hb => ?_
  rw [Bool.eq_iff_iff, decide_eq_true_eq]
  exact (and_congr_right_iff.1 (List.mem_filter.symm.trans mem_laterBits)) hb

theorem mem_repeats {ports : List PortId} {p : PortId} : p ∈ c.repeats ports bus ↔
    p ∈ ports ∧ ∃ i, c.bit? p = some (bus, i) ∧ ¬c.FirstBit ports bus i p := by
  simp only [repeats, List.mem_map, mem_laterBits, mem_firstBits]
  constructor
  · rintro ⟨⟨i, p⟩, ⟨hb, hfirst⟩, rfl⟩
    obtain ⟨hp, hbit⟩ := mem_bitsNamed.1 hb
    exact ⟨hp, i, hbit, mt find?_bitsNamed.2 hfirst⟩
  · rintro ⟨hp, i, hbit, hfirst⟩
    exact ⟨(i, p), ⟨mem_bitsNamed.2 ⟨hp, hbit⟩, mt find?_bitsNamed.1 hfirst⟩, rfl⟩

theorem repeats_nodup {ports : List PortId} (hnodup : ports.Nodup) (bus : String) :
    (c.repeats ports bus).Nodup :=
  hnodup.sublist ((List.filter_sublist.map _).trans (bitsNamed_sublist c ports bus))

structure MakesBus (c : Catalog) (cell : CellId) (bus : String) (bits : List (Nat × PortId))
    (c' : Catalog) : Prop extends c.Groups cell bus (bits.map (·.2)) c' where
  nodup : (bits.map (·.2)).Nodup
  scalar : ∀ b ∈ bits, ∃ q, c.ports.find? b.2 = some q ∧ q.shape = .scalar
  made : ∃ first last, bits.head? = some first ∧ bits.getLast? = some last ∧
    c'.ports.find? ⟨c.count + 1⟩ = some
      { name := bus, cell, source := .group
        direction := c.commonDirection (bits.map (·.2))
        shape := .bus first.1 last.1 (bits.map (·.2)) }
  bit : ∀ b ∈ bits, ∀ q, c.ports.find? b.2 = some q →
    c'.ports.find? b.2 = some { q with shape := .busBit ⟨c.count + 1⟩ b.1 }

theorem find?_foldl_setShape_of_mem (bus : PortId) (hnodup : (bits.map (·.2)).Nodup) (hb : b ∈ bits)
    (hq : c.ports.find? b.2 = some q) :
    (bits.foldl (fun c b => c.setShape b.2 (.busBit bus b.1)) c).ports.find? b.2 =
      some { q with shape := .busBit bus b.1 } := by
  induction bits generalizing c q with
  | nil => cases hb
  | cons a bits ih =>
    obtain ⟨hnew, hnodup⟩ := List.nodup_cons.1 hnodup
    have hone : (c.setShape a.2 (.busBit bus a.1)).ports.find? b.2 = if b.2 = a.2 then
        (c.ports.find? b.2).map fun q => { q with shape := .busBit bus a.1 }
        else c.ports.find? b.2 := OrderedMap.find?_modify ..
    rw [List.foldl_cons]
    rcases List.mem_cons.1 hb with rfl | hb
    · rw [(find?_foldl_setShape bus b.2 bits _).1 hnew, hone, if_pos rfl, hq, Option.map_some]
    · have hne : b.2 ≠ a.2 := fun h => hnew (List.mem_map.2 ⟨b, hb, h⟩)
      exact ih hnodup hb (by rw [hone, if_neg hne, hq])

theorem Tidy.makesBus (ht : c.Tidy) (hfree : c.portNamed? cell bus = none)
    (hnodup : (bits.map (·.2)).Nodup) (htop : ∀ b ∈ bits, b.2 ∈ c.topPorts cell)
    (hscalar : ∀ b ∈ bits, ∃ q, c.ports.find? b.2 = some q ∧ q.shape = .scalar)
    {first last : Nat × PortId} (hfirst : bits.head? = some first) (hlast : bits.getLast? = some last) :
    c.MakesBus cell bus bits
      (bits.foldl (fun c' b => c'.setShape b.2 (.busBit ⟨c.count + 1⟩ b.1))
        (c.addGroup cell bus (.bus first.1 last.1 (bits.map (·.2)))).2) := by
  have hne : bits ≠ [] := by
    rintro rfl
    cases hfirst
  have hstored : ∀ b ∈ bits, b.2 ∈ c.ports.keys := by
    intro b hb
    obtain ⟨q, hq, -⟩ := hscalar b hb
    exact OrderedMap.mem_keys_iff.2 ⟨q, hq⟩
  have hnot : ∀ b ∈ bits, b.2 ≠ ⟨c.count + 1⟩ := by
    intro b hb h
    exact ht.ports.fresh (k := ⟨c.count + 1⟩) rfl (h ▸ hstored b hb)
  refine { ht.groups_bus hfree hne htop hstored first.1 last.1 with
    nodup := hnodup, scalar := hscalar, made := ?_, bit := fun b hb q hq => ?_ }
  · refine ⟨first, last, hfirst, hlast, ?_⟩
    rw [(find?_foldl_setShape _ _ bits _).1, find?_addGroup, if_pos rfl]
    · rfl
    · intro hin
      obtain ⟨b, hb, h⟩ := List.mem_map.1 hin
      exact hnot b hb h
  · refine find?_foldl_setShape_of_mem _ hnodup hb ?_
    rw [find?_addGroup, if_neg (hnot b hb), hq]

theorem Tidy.groupBus_makes (ht : c.Tidy) (msbFirst : Bool) (hnodup : (bits.map (·.2)).Nodup)
    (hbits : ∀ b ∈ bits, c.BitOf cell bus b.2) (hfree : c.portNamed? cell bus = none)
    (hne : sortBits msbFirst (firstBits bits) ≠ []) :
    c.MakesBus cell bus (sortBits msbFirst (firstBits bits))
        (c.groupBus cell msbFirst bus bits).1 ∧
      (c.groupBus cell msbFirst bus bits).2 = (laterBits bits).map (·.2) := by
  have hmem (b : Nat × PortId) (hb : b ∈ sortBits msbFirst (firstBits bits)) : b ∈ bits :=
    mem_of_mem_firstBits (List.mem_mergeSort.1 hb)
  have hsorted : ((sortBits msbFirst (firstBits bits)).map (·.2)).Nodup :=
    ((sortBits_perm msbFirst _).map _).nodup_iff.2 (hnodup.sublist ((firstBits_sublist bits).map _))
  have hscalar (b : Nat × PortId) (hb : b ∈ bits) :
      ∃ q, c.ports.find? b.2 = some q ∧ q.shape = .scalar := by
    obtain ⟨-, q, -, hq, hscalar, -⟩ := hbits b hb
    exact ⟨q, hq, hscalar⟩
  obtain ⟨first, hfirst⟩ := Option.ne_none_iff_exists'.1 (mt List.head?_eq_none_iff.1 hne)
  obtain ⟨last, hlast⟩ := Option.ne_none_iff_exists'.1 (mt List.getLast?_eq_none_iff.1 hne)
  have hmakes := ht.makesBus hfree hsorted (fun b hb => (hbits b (hmem b hb)).1)
    (fun b hb => hscalar b (hmem b hb)) hfirst hlast
  unfold Catalog.groupBus
  rw [hfree, Option.isSome_none, if_neg Bool.false_ne_true]
  simp only [hfirst, hlast, ← laterBits_eq, and_true]
  exact hmakes

/-- The names that ports are bits of are taken one after the other. If the cell has a port of the
name at that time, nothing happens, and otherwise the bus is made of its first bits. -/
theorem groupBuses_makes {motive : List String → Catalog → List PortId → Prop}
    (msbFirst : String → Bool) (ht : c.Tidy) (hnodup : (c.topPorts cell).Nodup)
    (hc : motive [] c [])
    (hskip : ∀ done c₁ repeated bus p, c.bitsNamed (c.topPorts cell) bus ≠ [] → bus ∉ done →
      c₁.Tidy → c₁.portNamed? cell bus = some p → motive done c₁ repeated →
      motive (done ++ [bus]) c₁ repeated)
    (hmake : ∀ done c₁ c₂ repeated bus, c.bitsNamed (c.topPorts cell) bus ≠ [] → bus ∉ done →
      c₁.Tidy → c₁.MakesBus cell bus (c.busBits (c.topPorts cell) (msbFirst bus) bus) c₂ →
      motive done c₁ repeated →
      motive (done ++ [bus]) c₂ (repeated ++ c.repeats (c.topPorts cell) bus)) :
    ∃ done, (∀ bus, bus ∈ done ↔ c.bitsNamed (c.topPorts cell) bus ≠ []) ∧
      motive done (c.groupBuses cell msbFirst).1 (c.groupBuses cell msbFirst).2 := by
  refine ⟨(c.bitsByBus cell).keys, fun bus => ?_, ?_⟩
  · rw [OrderedMap.keys, List.mem_map]
    constructor
    · rintro ⟨⟨bus, bits⟩, he, rfl⟩
      obtain ⟨rfl, hne⟩ := mem_bitsByBus.1 he
      exact hne
    · intro hne
      exact ⟨(bus, _), mem_bitsByBus.2 ⟨rfl, hne⟩, rfl⟩
  · refine groupBuses_run msbFirst ht hc fun done c₁ repeated e he hdone ht₁ hbits hmotive => ?_
    obtain ⟨bus, bits⟩ := e
    obtain ⟨rfl, hne⟩ := mem_bitsByBus.1 he
    dsimp only at hbits hdone ⊢
    cases hnamed : c₁.portNamed? cell bus with
    | some p =>
      have hsame : c₁.groupBus cell (msbFirst bus) bus (c.bitsNamed (c.topPorts cell) bus) =
          (c₁, []) := by
        rw [groupBus, hnamed, Option.isSome_some, if_pos rfl]
      rw [hsame, List.append_nil]
      exact hskip done c₁ repeated bus p hne hdone ht₁ hnamed hmotive
    | none =>
      have hsub : ((c.bitsNamed (c.topPorts cell) bus).map (·.2)).Nodup :=
        hnodup.sublist (bitsNamed_sublist c _ bus)
      obtain ⟨hmakes, hrepeated⟩ := ht₁.groupBus_makes (msbFirst bus) hsub hbits hnamed
        (mt busBits_eq_nil.1 hne)
      rw [hrepeated]
      exact hmake done c₁ _ repeated bus hne hdone ht₁ hmakes hmotive

end DesignView.Catalog
