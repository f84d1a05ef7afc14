import DesignView.Proofs.Catalog.Grouping
import Mathlib.Data.List.Induction

/-!
The bits of a bus. The ports of a cell are collected by the buses that they are named after; of
each index the first port in port order becomes the bit, and the bits stand in the order of their
indices, from either end.
-/

namespace DesignView.Catalog

variable {c : Catalog} {ports : List PortId} {bus : String} {p : PortId} {i : Nat}
variable {b : Nat × PortId} {bits : List (Nat × PortId)}

def bit? (c : Catalog) (p : PortId) : Option (String × Nat) :=
  (c.port? p).bind fun q => if q.shape = .scalar then BitName.parse? q.name else none

def bitsNamed (c : Catalog) (ports : List PortId) (bus : String) : List (Nat × PortId) :=
  ports.filterMap fun p => (c.bit? p).bind fun b => if b.1 = bus then some (b.2, p) else none

/-- The first port of each index, in the order of the indices. -/
def busBits (c : Catalog) (ports : List PortId) (msbFirst : Bool) (bus : String) :
    List (Nat × PortId) :=
  sortBits msbFirst (firstBits (c.bitsNamed ports bus))

/-- In port order, the first port that is named after the bus with the index. -/
def FirstBit (c : Catalog) (ports : List PortId) (bus : String) (i : Nat) (p : PortId) : Prop :=
  ports.find? (fun r => c.bit? r = some (bus, i)) = some p

theorem bit?_eq_some : c.bit? p = some (bus, i) ↔
    ∃ q, c.ports.find? p = some q ∧ q.shape = .scalar ∧ BitName.parse? q.name = some (bus, i) := by
  simp only [bit?, port?, Option.bind_eq_some_iff, Option.ite_none_right_eq_some]

theorem FirstBit.mem (h : c.FirstBit ports bus i p) : p ∈ ports := List.mem_of_find?_eq_some h

theorem FirstBit.bit (h : c.FirstBit ports bus i p) : c.bit? p = some (bus, i) := by
  simpa using List.find?_some h

theorem bitsNamed_cons_of_bit (h : c.bit? p = some (bus, i)) (ports : List PortId) :
    c.bitsNamed (p :: ports) bus = (i, p) :: c.bitsNamed ports bus :=
  List.filterMap_cons_some (by rw [h, Option.bind_some, if_pos rfl])

theorem bitsNamed_cons_of_not (h : ∀ i, c.bit? p ≠ some (bus, i)) (ports : List PortId) :
    c.bitsNamed (p :: ports) bus = c.bitsNamed ports bus := by
  refine List.filterMap_cons_none ?_
  cases hbit : c.bit? p with
  | none => rfl
  | some e =>
    have hne : e.1 ≠ bus := fun hbus => h e.2 (hbit.trans (congrArg some (Prod.ext hbus rfl)))
    rw [Option.bind_some, if_neg hne]

theorem mem_bitsNamed : b ∈ c.bitsNamed ports bus ↔ b.2 ∈ ports ∧ c.bit? b.2 = some (bus, b.1) := by
  induction ports with
  | nil => simp [bitsNamed]
  | cons p ports ih =>
    by_cases h : ∃ i, c.bit? p = some (bus, i)
    · obtain ⟨i, hbit⟩ := h
      rw [bitsNamed_cons_of_bit hbit, List.mem_cons, List.mem_cons, ih]
      constructor
      · rintro (rfl | ⟨hp, hb⟩)
        · exact ⟨.inl rfl, hbit⟩
        · exact ⟨.inr hp, hb⟩
      · rintro ⟨hp | hp, hb⟩
        · cases hbit.symm.trans (hp ▸ hb)
          exact .inl (Prod.ext rfl hp)
        · exact .inr ⟨hp, hb⟩
    · rw [bitsNamed_cons_of_not (not_exists.1 h), List.mem_cons, ih]
      refine and_congr_left fun hb => (or_iff_right ?_).symm
      rintro rfl
      exact h ⟨_, hb⟩

theorem bitsNamed_sublist (c : Catalog) (ports : List PortId) (bus : String) :
    ((c.bitsNamed ports bus).map (·.2)).Sublist ports := by
  induction ports with
  | nil => exact .slnil
  | cons p ports ih =>
    by_cases h : ∃ i, c.bit? p = some (bus, i)
    · obtain ⟨i, hbit⟩ := h
      rw [bitsNamed_cons_of_bit hbit]
      exact ih.cons_cons p
    · rw [bitsNamed_cons_of_not (not_exists.1 h)]
      exact ih.cons p

theorem find?_bitsNamed : (c.bitsNamed ports bus).find? (fun k => k.1 = i) = some (i, p) ↔
    c.FirstBit ports bus i p := by
  induction ports with
  | nil => simp [bitsNamed, FirstBit]
  | cons r ports ih =>
    rw [FirstBit] at ih ⊢
    by_cases h : ∃ j, c.bit? r = some (bus, j)
    · obtain ⟨j, hbit⟩ := h
      rw [bitsNamed_cons_of_bit hbit, List.find?_cons, List.find?_cons, hbit]
      by_cases hj : j = i
      · simp [hj]
      · simpa [hj] using ih
    · have hout : c.bit? r ≠ some (bus, i) := not_exists.1 h i
      rw [bitsNamed_cons_of_not (not_exists.1 h), List.find?_cons]
      simpa [hout] using ih

def collect (c : Catalog) (buses : OrderedMap String (List (Nat × PortId))) (p : PortId) :
    OrderedMap String (List (Nat × PortId)) :=
  match c.bit? p with
  | none => buses
  | some (bus, i) => buses.insert bus ((buses.find? bus).getD [] ++ [(i, p)])

theorem bitsByBus_eq (c : Catalog) (cell : CellId) :
    c.bitsByBus cell = (c.topPorts cell).foldl c.collect {} := by
  unfold bitsByBus
  congr
  funext buses p
  rw [collect, bit?]
  cases c.port? p with
  | none => rfl
  | some q =>
    rw [Option.bind_some]
    dsimp only
    by_cases hscalar : q.shape = .scalar
    · cases BitName.parse? q.name <;> simp [hscalar]
    · simp [hscalar]

theorem getD_foldl_collect (ports : List PortId) (buses : OrderedMap String (List (Nat × PortId)))
    (bus : String) : ((ports.foldl c.collect buses).find? bus).getD [] =
      (buses.find? bus).getD [] ++ c.bitsNamed ports bus := by
  induction ports generalizing buses with
  | nil => simp [bitsNamed]
  | cons p ports ih =>
    rw [List.foldl_cons, ih, collect]
    cases hbit : c.bit? p with
    | none => rw [bitsNamed_cons_of_not (by simp [hbit])]
    | some e =>
      obtain ⟨bus', i⟩ := e
      by_cases hbus : bus = bus'
      · rw [bitsNamed_cons_of_bit (hbus ▸ hbit)]
        simp [OrderedMap.find?_insert, hbus]
      · rw [bitsNamed_cons_of_not (by simp [hbit, Ne.symm hbus])]
        simp [OrderedMap.find?_insert, hbus]

theorem mem_bitsByBus {cell : CellId} : (bus, bits) ∈ (c.bitsByBus cell).entries ↔
    bits = c.bitsNamed (c.topPorts cell) bus ∧ bits ≠ [] := by
  have hall := getD_foldl_collect (c := c) (c.topPorts cell) {} bus
  rw [← bitsByBus_eq, OrderedMap.find?_empty, Option.getD_none, List.nil_append] at hall
  have hne : (c.bitsByBus cell).find? bus ≠ some [] := by
    rw [bitsByBus_eq]
    refine List.foldlRecOn (motive := fun buses : OrderedMap String (List (Nat × PortId)) =>
      buses.find? bus ≠ some []) _ _ (by simp) fun buses hbuses p _ => ?_
    unfold collect
    split
    · exact hbuses
    · rw [OrderedMap.find?_insert]
      split <;> simp [hbuses]
  rw [← OrderedMap.find?_eq_some_iff (keys_nodup_bitsByBus c cell)]
  cases hfind : (c.bitsByBus cell).find? bus with
  | none =>
    rw [hfind, Option.getD_none] at hall
    simp [← hall]
  | some found =>
    rw [hfind, Option.getD_some] at hall
    rw [hfind] at hne
    constructor
    · rintro ⟨⟩
      exact ⟨hall, fun hnil => hne (congrArg some hnil)⟩
    · rintro ⟨rfl, -⟩
      rw [hall]

theorem firstBits_append (bits : List (Nat × PortId)) (b : Nat × PortId) :
    firstBits (bits ++ [b]) = if (firstBits bits).any (fun k => k.1 = b.1) then firstBits bits
      else firstBits bits ++ [b] := by
  rw [firstBits, List.foldl_append]
  rfl

theorem firstBits_sublist (bits : List (Nat × PortId)) : (firstBits bits).Sublist bits := by
  induction bits using List.reverseRecOn with
  | nil => exact .slnil
  | append_singleton bits b ih =>
    rw [firstBits_append]
    split
    · exact ih.trans (List.sublist_append_left bits [b])
    · exact ih.append (.refl [b])

theorem mem_firstBits : b ∈ firstBits bits ↔ bits.find? (fun k => k.1 = b.1) = some b := by
  induction bits using List.reverseRecOn generalizing b with
  | nil => simp [firstBits]
  | append_singleton bits a ih =>
    have hfind : (bits ++ [a]).find? (fun k => k.1 = b.1) =
        (bits.find? fun k => k.1 = b.1).or (if a.1 = b.1 then some a else none) := by
      simp [List.find?_append, List.find?_cons]
      split <;> simp_all
    -- An index is among the bits exactly if it is among the first bits.
    have hindex : (firstBits bits).any (fun k => k.1 = a.1) = true ↔
        ∃ k, bits.find? (fun k => k.1 = a.1) = some k := by
      rw [List.any_eq_true]
      constructor
      · rintro ⟨k, hk, heq⟩
        exact ⟨k, of_decide_eq_true heq ▸ ih.1 hk⟩
      · rintro ⟨k, hk⟩
        have heq : k.1 = a.1 := by simpa using List.find?_some hk
        exact ⟨k, ih.2 (heq ▸ hk), decide_eq_true heq⟩
    rw [firstBits_append, hfind]
    split
    · next hany =>
      obtain ⟨k, hk⟩ := hindex.1 hany
      rw [ih]
      by_cases hab : a.1 = b.1
      · rw [← hab, hk, Option.some_or]
      · rw [if_neg hab, Option.or_none]
    · next hany =>
      have hnone : bits.find? (fun k => k.1 = a.1) = none := by
        rw [Option.eq_none_iff_forall_ne_some]
        exact fun k hk => hany (hindex.2 ⟨k, hk⟩)
      rw [List.mem_append, List.mem_singleton, ih]
      by_cases hab : a.1 = b.1
      · rw [← hab, hnone, Option.none_or, if_pos rfl]
        simp [eq_comm]
      · have hne : b ≠ a := fun h => hab (congrArg Prod.fst h.symm)
        rw [if_neg hab, Option.or_none, or_iff_left hne]

theorem firstBits_nodup (bits : List (Nat × PortId)) : ((firstBits bits).map (·.1)).Nodup := by
  induction bits using List.reverseRecOn with
  | nil => exact List.nodup_nil
  | append_singleton bits b ih =>
    rw [firstBits_append]
    split
    · exact ih
    · next hany =>
      rw [List.map_append, List.nodup_append]
      refine ⟨ih, List.nodup_singleton _, fun i hi j hj => ?_⟩
      obtain ⟨k, hk, rfl⟩ := List.mem_map.1 hi
      rintro rfl
      refine hany (List.any_eq_true.2 ⟨k, hk, decide_eq_true ?_⟩)
      simpa using hj

theorem sortBits_perm (msbFirst : Bool) (bits : List (Nat × PortId)) :
    (sortBits msbFirst bits).Perm bits := List.mergeSort_perm ..

theorem sortBits_pairwise (msbFirst : Bool) (hnodup : (bits.map (·.1)).Nodup) :
    (sortBits msbFirst bits).Pairwise fun a b => if msbFirst then b.1 < a.1 else a.1 < b.1 := by
  have hsorted : (sortBits msbFirst bits).Pairwise fun a b =>
      (if msbFirst then b.1 ≤ a.1 else a.1 ≤ b.1 : Bool) = true := by
    refine List.pairwise_mergeSort (fun x y z => ?_) (fun x y => ?_) bits
    · cases msbFirst <;> simp <;> omega
    · cases msbFirst <;> simp <;> omega
  have hdiffer : (sortBits msbFirst bits).Pairwise fun a b => a.1 ≠ b.1 := by
    have hperm : ((sortBits msbFirst bits).map (·.1)).Perm (bits.map (·.1)) :=
      (sortBits_perm msbFirst bits).map _
    exact List.pairwise_map.1 (hperm.nodup_iff.2 hnodup)
  refine (hsorted.and hdiffer).imp fun {a b} h => ?_
  obtain ⟨hle, hne⟩ := h
  cases msbFirst <;> simp at hle ⊢ <;> omega

theorem mem_busBits {msbFirst : Bool} :
    (i, p) ∈ c.busBits ports msbFirst bus ↔ c.FirstBit ports bus i p := by
  rw [busBits, (sortBits_perm ..).mem_iff, mem_firstBits]
  exact find?_bitsNamed

theorem busBits_pairwise (c : Catalog) (ports : List PortId) (msbFirst : Bool) (bus : String) :
    (c.busBits ports msbFirst bus).Pairwise fun a b =>
      if msbFirst then b.1 < a.1 else a.1 < b.1 :=
  sortBits_pairwise msbFirst (firstBits_nodup _)

theorem busBits_eq_nil {msbFirst : Bool} :
    c.busBits ports msbFirst bus = [] ↔ c.bitsNamed ports bus = [] := by
  rw [busBits, ← List.length_eq_zero_iff, (sortBits_perm ..).length_eq, List.length_eq_zero_iff]
  constructor
  · intro h
    refine List.eq_nil_iff_forall_not_mem.2 fun b hb => ?_
    obtain ⟨k, hk⟩ : ∃ k, (c.bitsNamed ports bus).find? (fun k => k.1 = b.1) = some k := by
      rw [← Option.isSome_iff_exists, List.find?_isSome]
      exact ⟨b, hb, decide_eq_true rfl⟩
    have heq : k.1 = b.1 := by simpa using List.find?_some hk
    have hmem : k ∈ firstBits (c.bitsNamed ports bus) := mem_firstBits.2 (heq ▸ hk)
    rw [h] at hmem
    cases hmem
  · intro h
    rw [h]
    rfl

end DesignView.Catalog
