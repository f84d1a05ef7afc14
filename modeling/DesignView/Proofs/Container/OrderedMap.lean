import DesignView.Container.OrderedMap
import Mathlib.Data.List.Basic
import Mathlib.Logic.Function.Iterate

/-!
What a look-up finds after each operation on an ordered map. Maps are compared by their look-ups;
the order of the entries matters only for the first key with a property.
-/

namespace DesignView.OrderedMap

variable {κ α : Type}

theorem mem_keys_of_mem {m : OrderedMap κ α} {k : κ} {a : α} (h : (k, a) ∈ m.entries) :
    k ∈ m.keys := List.mem_map.2 ⟨(k, a), h, rfl⟩

theorem keys_nodup_filter {m : OrderedMap κ α} (hm : m.keys.Nodup) (p : κ → α → Bool) :
    (m.filter p).keys.Nodup := hm.sublist (List.Sublist.map _ List.filter_sublist)

theorem foldl_filter_ne {β : Type} [DecidableEq β] (f : κ → α → β) (bs : List β)
    (m : OrderedMap κ α) : bs.foldl (fun m b => m.filter fun k a => f k a ≠ b) m =
      m.filter fun k a => f k a ∉ bs := by
  induction bs generalizing m with
  | nil => simp [filter]
  | cons b bs ih =>
    rw [List.foldl_cons, ih]
    simp [filter, List.filter_filter, Bool.and_comm]

/-- The keys have ascending numbers from one up to `count`. -/
structure UpTo (m : OrderedMap κ α) (num : κ → Nat) (count : Nat) : Prop where
  ascending : (m.keys.map num).Pairwise (· < ·)
  pos : ∀ k ∈ m.keys, 0 < num k
  le : ∀ k ∈ m.keys, num k ≤ count

namespace UpTo

variable {m : OrderedMap κ α} {num : κ → Nat} {count : Nat}

theorem empty (num : κ → Nat) (count : Nat) : ({} : OrderedMap κ α).UpTo num count :=
  ⟨List.Pairwise.nil, fun _ h => (by cases h), fun _ h => by cases h⟩

theorem nodup (h : m.UpTo num count) : m.keys.Nodup := by
  refine (List.pairwise_map.1 h.ascending).imp ?_
  rintro k _ hlt rfl
  exact Nat.lt_irrefl _ hlt

theorem mono (h : m.UpTo num count) {later : Nat} (hl : count ≤ later) : m.UpTo num later :=
  ⟨h.ascending, h.pos, fun k hk => Nat.le_trans (h.le k hk) hl⟩

theorem fresh (h : m.UpTo num count) {k : κ} (hk : num k = count + 1) : k ∉ m.keys := by
  intro hin
  have hle : num k ≤ count := h.le k hin
  omega

theorem sublist (h : m.UpTo num count) {m' : OrderedMap κ α} (hsub : m'.keys.Sublist m.keys) :
    m'.UpTo num count :=
  ⟨h.ascending.sublist (hsub.map num), fun x hx => h.pos x (hsub.subset hx),
    fun x hx => h.le x (hsub.subset hx)⟩

theorem filter (h : m.UpTo num count) (p : κ → α → Bool) : (m.filter p).UpTo num count :=
  h.sublist (List.Sublist.map _ List.filter_sublist)

theorem append (h : m.UpTo num count) {k : κ} (hk : num k = count + 1) {m' : OrderedMap κ α}
    (hkeys : m'.keys = m.keys ++ [k]) : m'.UpTo num (count + 1) := by
  refine ⟨?_, fun x hx => ?_, fun x hx => ?_⟩
  · rw [hkeys, List.map_append, List.map_singleton, List.pairwise_append]
    refine ⟨h.ascending, List.pairwise_singleton _ _, fun a ha b hb => ?_⟩
    obtain ⟨x, hx, rfl⟩ := List.mem_map.1 ha
    rw [List.mem_singleton.1 hb, hk]
    exact Nat.lt_succ_of_le (h.le x hx)
  · rw [hkeys] at hx
    rcases List.mem_append.1 hx with hx | hx
    · exact h.pos x hx
    · rw [List.mem_singleton.1 hx, hk]
      exact Nat.succ_pos _
  · rw [hkeys] at hx
    rcases List.mem_append.1 hx with hx | hx
    · exact Nat.le_succ_of_le (h.le x hx)
    · exact Nat.le_of_eq (List.mem_singleton.1 hx ▸ hk)

end UpTo

variable [DecidableEq κ]

theorem mem_of_find? {m : OrderedMap κ α} {k : κ} {a : α} (h : m.find? k = some a) :
    (k, a) ∈ m.entries := by
  obtain ⟨e, he, rfl⟩ := Option.map_eq_some_iff.1 h
  have hk : e.1 = k := by simpa using List.find?_some he
  exact hk ▸ List.mem_of_find?_eq_some he

theorem find?_of_mem {m : OrderedMap κ α} (hm : m.keys.Nodup) {k : κ} {a : α}
    (h : (k, a) ∈ m.entries) : m.find? k = some a := by
  obtain ⟨entries⟩ := m
  induction entries with
  | nil => simp at h
  | cons e rest ih =>
    obtain ⟨he, hrest⟩ := List.nodup_cons.1 hm
    by_cases hk : e.1 = k
    · have hnot : (k, a) ∉ rest := fun hr => he (List.mem_map.2 ⟨(k, a), hr, hk.symm⟩)
      obtain rfl : (k, a) = e := (List.mem_cons.1 h).resolve_right hnot
      simp [find?]
    · have hr : (k, a) ∈ rest := (List.mem_cons.1 h).resolve_left fun e' => hk (e' ▸ rfl)
      have := ih hrest hr
      simpa [find?, List.find?_cons, hk] using this

theorem find?_eq_some_iff {m : OrderedMap κ α} (hm : m.keys.Nodup) {k : κ} {a : α} :
    m.find? k = some a ↔ (k, a) ∈ m.entries := ⟨mem_of_find?, find?_of_mem hm⟩

theorem find?_eq_none_iff {m : OrderedMap κ α} {k : κ} : m.find? k = none ↔ k ∉ m.keys := by
  simp only [find?, keys, Option.map_eq_none_iff, List.find?_eq_none, List.mem_map,
    decide_eq_true_eq, not_exists, not_and]

theorem mem_keys_iff {m : OrderedMap κ α} {k : κ} : k ∈ m.keys ↔ ∃ a, m.find? k = some a := by
  rw [← not_iff_not, ← find?_eq_none_iff, Option.eq_none_iff_forall_ne_some, not_exists]

@[simp] theorem find?_empty (k : κ) : ({} : OrderedMap κ α).find? k = none := rfl

theorem find?_map_value (entries : List (κ × α)) (f : κ × α → α) (k : κ) :
    (OrderedMap.mk (entries.map fun e => (e.1, f e))).find? k =
      (entries.find? fun e => e.1 = k).map f := by
  simp only [find?, List.find?_map, Option.map_map]
  rfl

theorem find?_modify (m : OrderedMap κ α) (k : κ) (f : α → α) (x : κ) :
    (m.modify k f).find? x = if x = k then (m.find? x).map f else m.find? x := by
  have h : m.modify k f = ⟨m.entries.map fun e => (e.1, if e.1 = k then f e.2 else e.2)⟩ := by
    simp only [modify, OrderedMap.mk.injEq]
    exact List.map_congr_left fun e _ => by split <;> rfl
  rw [h, find?_map_value, find?]
  cases he : m.entries.find? fun e => e.1 = x with
  | none => simp
  | some e =>
    have hx : e.1 = x := by simpa using List.find?_some he
    simp only [Option.map_some, hx]
    split <;> rfl

theorem find?_insert (m : OrderedMap κ α) (k : κ) (a : α) (x : κ) :
    (m.insert k a).find? x = if x = k then some a else m.find? x := by
  by_cases h : k ∈ m.keys
  · obtain ⟨b, hb⟩ := mem_keys_iff.1 h
    rw [insert, if_pos (contains_iff.2 h), find?_modify]
    split
    · next e => rw [e, hb, Option.map_some]
    · rfl
  · rw [insert, if_neg (mt contains_iff.1 h)]
    simp only [find?, List.find?_append, List.find?_singleton]
    by_cases hx : x = k
    · have hnone : (m.entries.find? fun e => e.1 = x) = none := by
        simpa [find?, hx] using find?_eq_none_iff.2 h
      simp [hx, hx ▸ hnone]
    · simp [hx, Ne.symm hx]

theorem find?_erase (m : OrderedMap κ α) (k x : κ) :
    (m.erase k).find? x = if x = k then none else m.find? x := by
  simp only [erase, find?, List.find?_filter]
  split
  · next h => simp [h]
  · next h =>
    congr 2
    funext e
    by_cases he : e.1 = x <;> simp [he, h]

theorem mem_modify {m : OrderedMap κ α} {k : κ} {f : α → α} {e : κ × α}
    (h : e ∈ (m.modify k f).entries) : ∃ a, (e.1, a) ∈ m.entries ∧ (e.2 = a ∨ e.2 = f a) := by
  obtain ⟨⟨x, a⟩, hmem, rfl⟩ := List.mem_map.1 h
  refine ⟨a, ?_⟩
  split
  · exact ⟨hmem, .inr rfl⟩
  · exact ⟨hmem, .inl rfl⟩

theorem mem_insert {m : OrderedMap κ α} {k : κ} {a : α} {e : κ × α}
    (h : e ∈ (m.insert k a).entries) : e = (k, a) ∨ e ∈ m.entries := by
  by_cases hk : k ∈ m.keys
  · rw [insert, if_pos (contains_iff.2 hk)] at h
    obtain ⟨x, hmem, rfl⟩ := List.mem_map.1 h
    split
    · next hx => exact .inl (Prod.ext hx rfl)
    · exact .inr hmem
  · rw [insert, if_neg (mt contains_iff.1 hk)] at h
    rcases List.mem_append.1 h with hmem | hmem
    · exact .inr hmem
    · exact .inl (List.mem_singleton.1 hmem)

theorem firstKey?_insert_of_not {m : OrderedMap κ α} {k : κ} {a : α} {p : α → Bool}
    (hk : k ∉ m.keys) (hp : p a = false) : (m.insert k a).firstKey? p = m.firstKey? p := by
  rw [insert, if_neg (mt contains_iff.1 hk)]
  simp [firstKey?, List.find?_append, hp]

theorem firstKey?_modify {m : OrderedMap κ α} {k : κ} {f : α → α} {p : α → Bool}
    (hp : ∀ a, p (f a) = p a) : (m.modify k f).firstKey? p = m.firstKey? p := by
  have hcomp : ((fun e : κ × α => p e.2) ∘ fun e => if e.1 = k then (e.1, f e.2) else e) =
      fun e => p e.2 := by
    funext e
    by_cases he : e.1 = k <;> simp [he, hp]
  rw [firstKey?, modify, List.find?_map, hcomp, Option.map_map, firstKey?]
  refine congrArg (Option.map · _) (funext fun e => ?_)
  by_cases he : e.1 = k <;> simp [he]

theorem find?_foldl_erase (m : OrderedMap κ α) (ks : List κ) (x : κ) :
    (ks.foldl erase m).find? x = if x ∈ ks then none else m.find? x := by
  induction ks generalizing m with
  | nil => simp
  | cons k ks ih =>
    rw [List.foldl_cons, ih, find?_erase]
    by_cases hk : x = k <;> simp [hk]

theorem find?_foldl_modify (m : OrderedMap κ α) (ks : List κ) (f : α → α) (x : κ) :
    (ks.foldl (fun m k => m.modify k f) m).find? x = (m.find? x).map f^[ks.count x] := by
  induction ks generalizing m with
  | nil => simp
  | cons k ks ih =>
    rw [List.foldl_cons, ih, find?_modify]
    by_cases hk : x = k
    · subst hk
      rw [if_pos rfl, Option.map_map, List.count_cons_self, Function.iterate_succ]
    · rw [if_neg hk, List.count_cons_of_ne (Ne.symm hk)]

theorem keys_foldl_modify {ε : Type} (key : ε → κ) (f : ε → α → α) (es : List ε)
    (m : OrderedMap κ α) : (es.foldl (fun m e => m.modify (key e) (f e)) m).keys = m.keys := by
  induction es generalizing m with
  | nil => rfl
  | cons e es ih => exact (ih _).trans (keys_modify ..)

theorem find?_foldl_insert_of_not {m : OrderedMap κ α} {es : List (κ × α)} {k : κ}
    (h : k ∉ es.map (·.1)) : (es.foldl (fun m e => m.insert e.1 e.2) m).find? k = m.find? k := by
  induction es generalizing m with
  | nil => rfl
  | cons e es ih =>
    obtain ⟨hne, hrest⟩ := not_or.1 (mt List.mem_cons.2 h)
    rw [List.foldl_cons, ih hrest, find?_insert, if_neg hne]

theorem find?_foldl_insert_of_mem {m : OrderedMap κ α} {es : List (κ × α)} {k : κ} {a : α}
    (hes : ∀ e ∈ es, ∀ e' ∈ es, e.1 = e'.1 → e.2 = e'.2) (h : (k, a) ∈ es) :
    (es.foldl (fun m e => m.insert e.1 e.2) m).find? k = some a := by
  induction es generalizing m with
  | nil => cases h
  | cons e es ih =>
    rw [List.foldl_cons]
    by_cases hk : k ∈ es.map (·.1)
    · obtain ⟨x, hx, rfl⟩ := List.mem_map.1 hk
      have hval : x.2 = a := hes x (List.mem_cons_of_mem e hx) (x.1, a) h rfl
      exact ih (fun y hy z hz => hes y (List.mem_cons_of_mem e hy) z (List.mem_cons_of_mem e hz))
        (hval ▸ hx)
    · have he : (k, a) = e :=
        (List.mem_cons.1 h).resolve_right fun hin => hk (List.mem_map_of_mem hin)
      rw [find?_foldl_insert_of_not hk, find?_insert, ← he, if_pos rfl]

theorem keys_nodup_foldl_insert {m : OrderedMap κ α} (hm : m.keys.Nodup) (es : List (κ × α)) :
    (es.foldl (fun m e => m.insert e.1 e.2) m).keys.Nodup := by
  induction es generalizing m with
  | nil => exact hm
  | cons e es ih => exact ih (keys_nodup_insert hm e.1 e.2)

theorem find?_filter {m : OrderedMap κ α} (hm : m.keys.Nodup) (p : κ → α → Bool) (x : κ) :
    (m.filter p).find? x = (m.find? x).filter (p x) := by
  ext a
  rw [find?_eq_some_iff (keys_nodup_filter hm p), Option.filter_eq_some_iff, find?_eq_some_iff hm]
  exact List.mem_filter

theorem exists_of_firstKey? {m : OrderedMap κ α} (hm : m.keys.Nodup) {p : α → Bool} {k : κ}
    (h : m.firstKey? p = some k) : ∃ a, m.find? k = some a ∧ p a = true := by
  obtain ⟨e, he, rfl⟩ := Option.map_eq_some_iff.1 h
  exact ⟨e.2, find?_of_mem hm (List.mem_of_find?_eq_some he), by simpa using List.find?_some he⟩

theorem firstKey?_isSome {m : OrderedMap κ α} {p : α → Bool} {k : κ} {a : α}
    (h : m.find? k = some a) (hp : p a = true) : ∃ x, m.firstKey? p = some x := by
  rw [← Option.isSome_iff_exists, firstKey?, Option.isSome_map, List.find?_isSome]
  exact ⟨(k, a), mem_of_find? h, hp⟩

theorem firstKey?_eq_some_iff {m : OrderedMap κ α} (hm : m.keys.Nodup) {p : α → Bool}
    (unique : ∀ x y a b, m.find? x = some a → m.find? y = some b → p a → p b → x = y) {k : κ} :
    m.firstKey? p = some k ↔ ∃ a, m.find? k = some a ∧ p a = true := by
  refine ⟨exists_of_firstKey? hm, fun ⟨a, ha, hp⟩ => ?_⟩
  obtain ⟨x, hx⟩ := firstKey?_isSome ha hp
  obtain ⟨b, hb, hpb⟩ := exists_of_firstKey? hm hx
  rw [hx, unique x k b a hb ha hpb hp]

theorem map_find?_modify {β : Type} {g : α → β} {f : α → α} (hf : ∀ a, g (f a) = g a)
    (m : OrderedMap κ α) (k x : κ) : ((m.modify k f).find? x).map g = (m.find? x).map g := by
  rw [find?_modify]
  split
  · rw [Option.map_map]
    exact congrArg (Option.map · _) (funext hf)
  · rfl

theorem map_find?_insert {β : Type} (g : α → β) (m : OrderedMap κ α) (k : κ) (a : α) (x : κ) :
    ((m.insert k a).find? x).map g = if x = k then some (g a) else (m.find? x).map g := by
  rw [find?_insert]
  split <;> rfl

namespace UpTo

variable {m : OrderedMap κ α} {num : κ → Nat} {count : Nat}

theorem find?_fresh (h : m.UpTo num count) {k : κ} (hk : num k = count + 1) : m.find? k = none :=
  find?_eq_none_iff.2 (h.fresh hk)

theorem insert (h : m.UpTo num count) {k : κ} (hk : num k = count + 1) (a : α) :
    (m.insert k a).UpTo num (count + 1) :=
  h.append hk ((keys_insert ..).trans (if_neg (h.fresh hk)))

theorem modify (h : m.UpTo num count) (k : κ) (f : α → α) : (m.modify k f).UpTo num count :=
  h.sublist (keys_modify m k f ▸ List.Sublist.refl _)

theorem erase (h : m.UpTo num count) (k : κ) : (m.erase k).UpTo num count :=
  h.sublist (keys_erase m k ▸ List.filter_sublist)

end UpTo
end DesignView.OrderedMap
