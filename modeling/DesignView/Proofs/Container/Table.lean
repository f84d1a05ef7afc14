import DesignView.Container.Table
import DesignView.Proofs.Container.OrderedMap
import Mathlib.Data.List.Nodup

/-!
Numbering in tables: the numbers from one to the last one are split between live and free ones, so
that an insertion never takes the number of a live object. Then what a look-up finds after each
operation, and two relations between tables: distinct names, and owners that exist.
-/

namespace DesignView

theorem mem_insertAscending {n x : Nat} {ms : List Nat} :
    x ∈ insertAscending n ms ↔ x = n ∨ x ∈ ms := by
  induction ms with
  | nil => simp [insertAscending]
  | cons m ms ih =>
    unfold insertAscending
    split
    · exact List.mem_cons
    · rw [List.mem_cons, List.mem_cons, ih]
      exact or_left_comm

theorem insertAscending_pairwise {n : Nat} {ms : List Nat} (h : ms.Pairwise (· < ·))
    (hn : n ∉ ms) : (insertAscending n ms).Pairwise (· < ·) := by
  induction ms with
  | nil => simp [insertAscending]
  | cons m ms ih =>
    obtain ⟨hm, hms⟩ := List.pairwise_cons.1 h
    obtain ⟨hne, hn⟩ := not_or.1 (mt List.mem_cons.2 hn)
    unfold insertAscending
    split
    · next hle =>
      have hlt : n < m := Nat.lt_of_le_of_ne hle hne
      refine List.pairwise_cons.2 ⟨fun x hx => ?_, h⟩
      rcases List.mem_cons.1 hx with rfl | hx
      · exact hlt
      · exact Nat.lt_trans hlt (hm x hx)
    · next hle =>
      refine List.pairwise_cons.2 ⟨fun x hx => ?_, ih hms hn⟩
      rcases mem_insertAscending.1 hx with rfl | hx
      · omega
      · exact hm x hx

namespace Table

variable {k : Kind} {α : Type}

/-- The live and the free numbers of a table are apart and together are those from one to the last
one handed out. -/
structure Valid (t : Table k α) : Prop where
  nodup : t.ids.Nodup
  ascending : t.free.Pairwise (· < ·)
  apart : ∀ s ∈ t.free, (⟨s⟩ : Id k) ∉ t.ids
  covered : ∀ s, (1 ≤ s ∧ s ≤ t.last) ↔ ((⟨s⟩ : Id k) ∈ t.ids ∨ s ∈ t.free)

theorem mem_ids_iff {t : Table k α} {id : Id k} : id ∈ t.ids ↔ ∃ a, t.find? id = some a :=
  OrderedMap.mem_keys_iff

theorem mem_ids_of_find? {t : Table k α} {id : Id k} {a : α} (h : t.find? id = some a) :
    id ∈ t.ids := mem_ids_iff.2 ⟨a, h⟩

theorem contains_iff {t : Table k α} {id : Id k} : t.contains id = true ↔ id ∈ t.ids :=
  OrderedMap.contains_iff

theorem find?_eq_none_iff {t : Table k α} {id : Id k} : t.find? id = none ↔ id ∉ t.ids :=
  OrderedMap.find?_eq_none_iff

theorem Valid.find?_eq_some_iff {t : Table k α} (h : t.Valid) {id : Id k} {a : α} :
    t.find? id = some a ↔ (id, a) ∈ t.entries := OrderedMap.find?_eq_some_iff h.nodup

theorem valid_empty : ({} : Table k α).Valid where
  nodup := List.nodup_nil
  ascending := List.Pairwise.nil
  apart := by simp
  covered s := by
    simp only [ids, OrderedMap.keys, List.map_nil, List.not_mem_nil, or_false, iff_false]
    omega

theorem insert_snd_objects (t : Table k α) (a : α) :
    (t.insert a).2.objects = t.objects.insert (t.insert a).1 a := by
  unfold insert
  split <;> rfl

theorem find?_insert (t : Table k α) (a : α) (id : Id k) :
    (t.insert a).2.find? id = if id = (t.insert a).1 then some a else t.find? id := by
  rw [find?, insert_snd_objects]
  exact OrderedMap.find?_insert ..

theorem find?_insert_self (t : Table k α) (a : α) :
    (t.insert a).2.find? (t.insert a).1 = some a := by rw [find?_insert, if_pos rfl]

theorem Valid.fresh {t : Table k α} (h : t.Valid) (a : α) : (t.insert a).1 ∉ t.ids := by
  unfold insert
  split
  · next n rest e => exact h.apart n (e ▸ List.mem_cons_self)
  · next e =>
    intro hmem
    have := (h.covered (t.last + 1)).2 (.inl hmem)
    omega

theorem Valid.ids_insert {t : Table k α} (h : t.Valid) (a : α) :
    (t.insert a).2.ids = t.ids ++ [(t.insert a).1] := by
  have hnot : (t.insert a).1 ∉ t.objects.keys := h.fresh a
  rw [ids, insert_snd_objects, OrderedMap.keys_insert, if_neg hnot]
  rfl

theorem Valid.entries_insert {t : Table k α} (h : t.Valid) (a : α) :
    (t.insert a).2.entries = t.entries ++ [((t.insert a).1, a)] := by
  have hnew : ¬t.objects.contains (t.insert a).1 = true := mt contains_iff.1 (h.fresh a)
  simp only [entries, insert_snd_objects, OrderedMap.insert, if_neg hnew]

theorem Valid.insert {t : Table k α} (h : t.Valid) (a : α) : (t.insert a).2.Valid := by
  have hids := h.ids_insert a
  have hnodup : (t.insert a).2.ids.Nodup := by
    rw [ids, insert_snd_objects]
    exact OrderedMap.keys_nodup_insert h.nodup _ _
  revert hids hnodup
  cases hfree : t.free with
  | cons n rest =>
    have hid : (t.insert a).1 = ⟨n⟩ := by simp [Table.insert, hfree]
    have hrest : (t.insert a).2.free = rest := by simp [Table.insert, hfree]
    have hlast : (t.insert a).2.last = t.last := by simp [Table.insert, hfree]
    intro hids hnodup
    have hasc := hfree ▸ h.ascending
    refine ⟨hnodup, hrest ▸ hasc.tail, fun s hs => ?_, fun s => ?_⟩
    · rw [hrest] at hs
      have hlt := (List.pairwise_cons.1 hasc).1 s hs
      have hold := h.apart s (hfree ▸ List.mem_cons_of_mem _ hs)
      rw [hids, hid]
      simp only [List.mem_append, List.mem_singleton, Id.mk.injEq, not_or]
      exact ⟨hold, by omega⟩
    · rw [hlast, h.covered s, hids, hrest, hfree, hid]
      simp only [List.mem_cons, List.mem_append, List.not_mem_nil, Id.mk.injEq, or_false, or_assoc]
  | nil =>
    have hid : (t.insert a).1 = ⟨t.last + 1⟩ := by simp [Table.insert, hfree]
    have hrest : (t.insert a).2.free = [] := by simp [Table.insert, hfree]
    have hlast : (t.insert a).2.last = t.last + 1 := by simp [Table.insert, hfree]
    intro hids hnodup
    refine ⟨hnodup, hrest ▸ List.Pairwise.nil, by simp [hrest], fun s => ?_⟩
    have hold := h.covered s
    simp only [hfree, List.not_mem_nil, or_false] at hold
    rw [hlast, hids, hrest, hid]
    simp only [List.mem_append, ← hold, List.mem_cons, List.not_mem_nil, or_false, Id.mk.injEq]
    omega

theorem Valid.find?_insert_of_some {t : Table k α} (h : t.Valid) (b : α) {x : Id k} {a : α}
    (hx : t.find? x = some a) : (t.insert b).2.find? x = some a := by
  have hne : x ≠ (t.insert b).1 := fun e => h.fresh b (e ▸ mem_ids_of_find? hx)
  rw [find?_insert, if_neg hne, hx]

section InsertAll

variable {ε : Type} (f : ε → α)

def insertAll (t : Table k α) (es : List ε) : Table k α :=
  es.foldl (fun t e => (t.insert (f e)).2) t

theorem Valid.insertAll {t : Table k α} (h : t.Valid) (es : List ε) : (t.insertAll f es).Valid := by
  induction es generalizing t with
  | nil => exact h
  | cons e es ih => exact ih (h.insert (f e))

theorem Valid.find?_insertAll_of_some {t : Table k α} (h : t.Valid) (es : List ε) {x : Id k} {a : α}
    (hx : t.find? x = some a) : (t.insertAll f es).find? x = some a := by
  induction es generalizing t with
  | nil => exact hx
  | cons e es ih => exact ih (h.insert (f e)) (h.find?_insert_of_some (f e) hx)

theorem find?_insertAll {t : Table k α} {es : List ε} {x : Id k} {a : α}
    (hx : (t.insertAll f es).find? x = some a) : t.find? x = some a ∨ ∃ e ∈ es, a = f e := by
  induction es generalizing t with
  | nil => exact .inl hx
  | cons e es ih =>
    rcases ih hx with hx | ⟨e', he', rfl⟩
    · rw [find?_insert] at hx
      split at hx
      · exact .inr ⟨e, List.mem_cons_self, (Option.some.inj hx).symm⟩
      · exact .inl hx
    · exact .inr ⟨e', List.mem_cons_of_mem e he', rfl⟩

end InsertAll

theorem find?_erase (t : Table k α) (id x : Id k) :
    (t.erase id).find? x = if x = id then none else t.find? x := by
  unfold erase
  split
  · exact OrderedMap.find?_erase ..
  · next h =>
    split
    · next e => exact e ▸ find?_eq_none_iff.2 (mt contains_iff.2 h)
    · rfl

theorem erase_of_not_mem {t : Table k α} {id : Id k} (h : id ∉ t.ids) : t.erase id = t :=
  if_neg (mt contains_iff.1 h)

theorem entries_erase (t : Table k α) (id : Id k) :
    (t.erase id).entries = t.entries.filter fun e => e.1 ≠ id := by
  by_cases h : id ∈ t.ids
  · rw [erase, if_pos (contains_iff.2 h)]
    rfl
  · rw [erase_of_not_mem h, eq_comm, List.filter_eq_self]
    intro e he
    simpa using fun heq : e.1 = id => h (heq ▸ List.mem_map_of_mem he)

theorem mem_ids_erase {t : Table k α} {id x : Id k} :
    x ∈ (t.erase id).ids ↔ x ∈ t.ids ∧ x ≠ id := by
  simp only [mem_ids_iff, find?_erase]
  split <;> simp_all

theorem Valid.erase {t : Table k α} (h : t.Valid) (id : Id k) : (t.erase id).Valid := by
  unfold Table.erase
  split
  · next hc =>
    have hmem : id ∈ t.ids := contains_iff.1 hc
    have hids (x : Id k) : x ∈ (t.objects.erase id).keys ↔ x ∈ t.ids ∧ x ≠ id := by
      rw [OrderedMap.keys_erase, List.mem_filter]
      simp [ids]
    have hfree : id.seq ∉ t.free := fun hf => h.apart id.seq hf hmem
    refine ⟨OrderedMap.keys_nodup_erase h.nodup id, insertAscending_pairwise h.ascending hfree,
      fun s hs hs' => ?_, fun s => ?_⟩
    · obtain ⟨hlive, hne⟩ := (hids ⟨s⟩).1 hs'
      rcases mem_insertAscending.1 hs with rfl | hs
      · exact hne rfl
      · exact h.apart s hs hlive
    · rw [h.covered s]
      simp only [ids, hids, mem_insertAscending]
      by_cases e : s = id.seq
      · subst e
        simp only [true_or, or_true, iff_true]
        exact .inl hmem
      · have hne : (⟨s⟩ : Id k) ≠ id := fun e' => e (congrArg Id.seq e')
        simp only [hne, e, ne_eq, not_false_eq_true, and_true, false_or]
  · exact h

theorem find?_eraseAll (t : Table k α) (xs : List (Id k)) (x : Id k) :
    (t.eraseAll xs).find? x = if x ∈ xs then none else t.find? x := by
  induction xs generalizing t with
  | nil => simp [eraseAll]
  | cons y ys ih =>
    change ((t.erase y).eraseAll ys).find? x = _
    rw [ih, find?_erase]
    by_cases hy : x = y <;> simp [hy]

theorem entries_eraseAll (t : Table k α) (xs : List (Id k)) :
    (t.eraseAll xs).entries = t.entries.filter fun e => e.1 ∉ xs := by
  induction xs generalizing t with
  | nil => simp [eraseAll]
  | cons y ys ih =>
    change ((t.erase y).eraseAll ys).entries = _
    rw [ih, entries_erase, List.filter_filter]
    simp only [List.mem_cons, not_or, Bool.decide_and, Bool.and_comm]

theorem Valid.eraseAll {t : Table k α} (h : t.Valid) (xs : List (Id k)) :
    (t.eraseAll xs).Valid := by
  induction xs generalizing t with
  | nil => exact h
  | cons y ys ih => exact ih (h.erase y)

theorem find?_modify (t : Table k α) (id : Id k) (f : α → α) (x : Id k) :
    (t.modify id f).find? x = if x = id then (t.find? x).map f else t.find? x :=
  OrderedMap.find?_modify ..

theorem Valid.modify {t : Table k α} (h : t.Valid) (id : Id k) (f : α → α) :
    (t.modify id f).Valid := by
  have hids : (t.modify id f).ids = t.ids := OrderedMap.keys_modify ..
  exact ⟨hids ▸ h.nodup, h.ascending, fun s hs => hids ▸ h.apart s hs,
    fun s => hids ▸ h.covered s⟩

theorem modifyWhere_objects (t : Table k α) (p : α → Bool) (f : α → α) :
    (t.modifyWhere p f).objects = ⟨t.entries.map fun e => (e.1, if p e.2 then f e.2 else e.2)⟩ := by
  simp only [modifyWhere, OrderedMap.mk.injEq]
  exact List.map_congr_left fun e _ => by split <;> rfl

theorem find?_modifyWhere (t : Table k α) (p : α → Bool) (f : α → α) (x : Id k) :
    (t.modifyWhere p f).find? x = (t.find? x).map fun a => if p a then f a else a := by
  rw [find?, modifyWhere_objects, OrderedMap.find?_map_value, find?, OrderedMap.find?,
    Option.map_map]
  rfl

theorem ids_modifyWhere (t : Table k α) (p : α → Bool) (f : α → α) :
    (t.modifyWhere p f).ids = t.ids := by
  rw [ids, modifyWhere_objects, OrderedMap.keys, List.map_map]
  rfl

theorem Valid.modifyWhere {t : Table k α} (h : t.Valid) (p : α → Bool) (f : α → α) :
    (t.modifyWhere p f).Valid := by
  have hids : (t.modifyWhere p f).ids = t.ids := t.ids_modifyWhere p f
  exact ⟨hids ▸ h.nodup, h.ascending, fun s hs => hids ▸ h.apart s hs,
    fun s => hids ▸ h.covered s⟩

theorem Valid.mem_select {t : Table k α} (h : t.Valid) {p : α → Bool} {id : Id k} {a : α} :
    (id, a) ∈ t.select p ↔ t.find? id = some a ∧ p a = true := by
  rw [h.find?_eq_some_iff]
  exact List.mem_filter

theorem Valid.mem_map_select {t : Table k α} (h : t.Valid) {p : α → Bool} {id : Id k} :
    id ∈ (t.select p).map (·.1) ↔ ∃ a, t.find? id = some a ∧ p a = true := by
  simp only [List.mem_map, Prod.exists, h.mem_select, exists_and_right, exists_eq_right]

theorem Valid.nodup_map_select {t : Table k α} (h : t.Valid) (p : α → Bool) :
    ((t.select p).map (·.1)).Nodup := h.nodup.sublist (List.Sublist.map _ List.filter_sublist)

theorem select_eraseAll (t : Table k α) (ids : List (Id k)) (p : α → Bool) :
    (t.eraseAll ids).select p = (t.select p).filter fun e => e.1 ∉ ids := by
  rw [select, entries_eraseAll, List.filter_comm]
  rfl

theorem idsWhere_eraseAll (t : Table k α) (ids : List (Id k)) (p : α → Bool) :
    (t.eraseAll ids).idsWhere p = (t.idsWhere p).filter (· ∉ ids) := by
  rw [idsWhere, select_eraseAll, idsWhere, List.filter_map]
  rfl

theorem Valid.nodup_map_values {t : Table k α} (h : t.Valid) {β : Type} {p : α → Bool} {f : α → β}
    (hf : ∀ x y a b, t.find? x = some a → t.find? y = some b → p a = true → p b = true →
      f a = f b → x = y) : ((t.select p).map fun e => f e.2).Nodup := by
  refine (List.Nodup.of_map _ (h.nodup_map_select p)).map_on fun x hx y hy e => ?_
  obtain ⟨hfx, hpx⟩ := h.mem_select.1 hx
  obtain ⟨hfy, hpy⟩ := h.mem_select.1 hy
  have hid : x.1 = y.1 := hf x.1 y.1 x.2 y.2 hfx hfy hpx hpy e
  have hval : x.2 = y.2 := Option.some.inj (hfx.symm.trans (hid ▸ hfy))
  exact Prod.ext hid hval

end Table
end DesignView
