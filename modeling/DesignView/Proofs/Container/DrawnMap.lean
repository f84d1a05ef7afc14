import DesignView.Proofs.Container.OrderedMap

/-!
Maps drawn from a map: one with each value replaced by what a function makes of it and its key, and
one from the names of the values to the keys. Each operation on the map is followed by one on what
is drawn from it.
-/

namespace DesignView.OrderedMap

variable {κ α β : Type} {m : OrderedMap κ α}

section Values

variable {f g : κ → α → β}

def mapValues (m : OrderedMap κ α) (f : κ → α → β) : OrderedMap κ β :=
  ⟨m.entries.map fun e => (e.1, f e.1 e.2)⟩

theorem keys_mapValues (m : OrderedMap κ α) (f : κ → α → β) : (m.mapValues f).keys = m.keys := by
  rw [keys, mapValues, List.map_map]
  rfl

theorem mapValues_congr (h : ∀ k a, (k, a) ∈ m.entries → f k a = g k a) :
    m.mapValues f = m.mapValues g := by
  rw [mapValues, mapValues, OrderedMap.mk.injEq]
  exact List.map_congr_left fun e he => Prod.ext rfl (h e.1 e.2 he)

theorem filter_mapValues (m : OrderedMap κ α) (p : κ → Bool) (f : κ → α → β) :
    (m.mapValues f).filter (fun k _ => p k) = (m.filter fun k _ => p k).mapValues f := by
  rw [filter, mapValues, List.filter_map]
  rfl

variable [DecidableEq κ]

theorem find?_mapValues (m : OrderedMap κ α) (f : κ → α → β) (k : κ) :
    (m.mapValues f).find? k = (m.find? k).map (f k) := by
  rw [find?, mapValues, List.find?_map, Option.map_map, find?, Option.map_map]
  cases he : m.entries.find? fun e => e.1 = k with
  | none => exact congrArg (Option.map _) he
  | some e =>
    have hk : e.1 = k := by simpa using List.find?_some he
    have hfind := congrArg (Option.map (fun e : κ × α => f e.1 e.2)) he
    rw [Option.map_some, hk] at hfind
    exact hfind

theorem contains_mapValues (m : OrderedMap κ α) (f : κ → α → β) (k : κ) :
    (m.mapValues f).contains k = m.contains k := by
  rw [Bool.eq_iff_iff, contains_iff, contains_iff, keys_mapValues]

theorem erase_mapValues (m : OrderedMap κ α) (f : κ → α → β) (k : κ) :
    (m.mapValues f).erase k = (m.erase k).mapValues f := filter_mapValues m (fun x => x ≠ k) f

theorem modify_mapValues {k : κ} {u : α → α} {v : β → β} (hk : ∀ a, g k (u a) = v (f k a))
    (hother : ∀ x a, x ≠ k → g x a = f x a) :
    (m.modify k u).mapValues g = (m.mapValues f).modify k v := by
  rw [mapValues, modify, mapValues, modify, OrderedMap.mk.injEq, List.map_map, List.map_map]
  refine List.map_congr_left fun e _ => ?_
  by_cases he : e.1 = k
  · subst he
    simp [hk]
  · simp [he, hother]

theorem mapValues_eq_modify {k : κ} {v : β → β} (hk : ∀ a, g k a = v (f k a))
    (hother : ∀ x a, x ≠ k → g x a = f x a) : m.mapValues g = (m.mapValues f).modify k v := by
  have hsame : m.modify k (fun a => a) = m := by simp [modify]
  exact (congrArg (mapValues · g) hsame).symm.trans (modify_mapValues hk hother)

theorem insert_mapValues (m : OrderedMap κ α) (f : κ → α → β) (k : κ) (a : α) :
    (m.insert k a).mapValues f = (m.mapValues f).insert k (f k a) := by
  rw [insert, insert, contains_mapValues]
  split
  · exact modify_mapValues (fun _ => rfl) fun _ _ _ => rfl
  · rw [mapValues, mapValues, List.map_append]
    rfl

end Values

section Names

variable {p : α → Bool} {name : α → String}

/-- The keys of the values that satisfy `p`, by the names of the values and in order. -/
def names (m : OrderedMap κ α) (p : α → Bool) (name : α → String) : OrderedMap String κ :=
  ⟨(m.entries.filter fun e => p e.2).map fun e => (name e.2, e.1)⟩

theorem values_names (m : OrderedMap κ α) (p : α → Bool) (name : α → String) :
    (m.names p name).values = (m.entries.filter fun e => p e.2).map (·.1) := by
  rw [values, names, List.map_map]
  rfl

theorem mem_names {n : String} {k : κ} : (n, k) ∈ (m.names p name).entries ↔
    ∃ a, (k, a) ∈ m.entries ∧ p a = true ∧ name a = n := by
  rw [names, List.mem_map]
  constructor
  · rintro ⟨⟨k, a⟩, he, ⟨⟩⟩
    obtain ⟨he, hp⟩ := List.mem_filter.1 he
    exact ⟨a, he, hp, rfl⟩
  · rintro ⟨a, he, hp, rfl⟩
    exact ⟨(k, a), List.mem_filter.2 ⟨he, hp⟩, rfl⟩

theorem names_filter {q : κ → α → Bool}
    (h : ∀ k a, (k, a) ∈ m.entries → p a = true → q k a = true) :
    (m.filter q).names p name = m.names p name := by
  rw [names, names, filter, OrderedMap.mk.injEq, List.filter_filter]
  refine congrArg (List.map _) (List.filter_congr fun e he => ?_)
  cases hp : p e.2 with
  | false => rfl
  | true => exact h e.1 e.2 he hp

variable [DecidableEq κ]

theorem names_modify {k : κ} {f : α → α} (hp : ∀ a, p (f a) = p a)
    (hname : ∀ a, name (f a) = name a) : (m.modify k f).names p name = m.names p name := by
  have hcomp : (fun e : κ × α => p e.2) ∘ (fun e => if e.1 = k then (e.1, f e.2) else e) =
      fun e => p e.2 := by
    funext e
    by_cases he : e.1 = k <;> simp [he, hp]
  rw [names, names, modify, OrderedMap.mk.injEq, List.filter_map, hcomp, List.map_map]
  refine List.map_congr_left fun e _ => ?_
  by_cases he : e.1 = k <;> simp [he, hname]

theorem names_insert {k : κ} (hk : k ∉ m.keys) {a : α} (ha : p a = true)
    (hnew : ∀ k' a', (k', a') ∈ m.entries → p a' = true → name a' ≠ name a) :
    (m.insert k a).names p name = (m.names p name).insert (name a) k := by
  have hfree : name a ∉ (m.names p name).keys := by
    intro hin
    obtain ⟨⟨n, k'⟩, he, rfl⟩ := List.mem_map.1 hin
    obtain ⟨a', he, hp, hname⟩ := mem_names.1 he
    exact hnew k' a' he hp hname
  rw [insert, if_neg (mt contains_iff.1 hk), names, List.filter_append, List.map_append, insert,
    if_neg (mt contains_iff.1 hfree), List.filter_cons_of_pos (by exact ha)]
  rfl

theorem names_insert_of_not {k : κ} (hk : k ∉ m.keys) {a : α} (ha : p a = false) :
    (m.insert k a).names p name = m.names p name := by
  rw [insert, if_neg (mt contains_iff.1 hk), names, List.filter_append, List.map_append,
    List.filter_cons_of_neg (by simp [ha])]
  exact congrArg OrderedMap.mk (List.append_nil _)

theorem find?_names (hm : m.keys.Nodup)
    (unique : ∀ k k' a a', m.find? k = some a → m.find? k' = some a' → p a = true →
      p a' = true → name a = name a' → k = k') {n : String} {k : κ} :
    (m.names p name).find? n = some k ↔ ∃ a, m.find? k = some a ∧ p a = true ∧ name a = n := by
  have hfound {k : κ} (h : (m.names p name).find? n = some k) :
      ∃ a, m.find? k = some a ∧ p a = true ∧ name a = n := by
    obtain ⟨a, he, hp, hname⟩ := mem_names.1 (mem_of_find? h)
    exact ⟨a, find?_of_mem hm he, hp, hname⟩
  refine ⟨hfound, fun ⟨a, ha, hp, hname⟩ => ?_⟩
  have hin : n ∈ (m.names p name).keys :=
    mem_keys_of_mem (mem_names.2 ⟨a, mem_of_find? ha, hp, hname⟩)
  obtain ⟨k', hk'⟩ := mem_keys_iff.1 hin
  obtain ⟨a', ha', hp', hname'⟩ := hfound hk'
  rw [hk', unique k k' a a' ha ha' hp hp' (hname.trans hname'.symm)]

end Names

theorem foldl_erase [DecidableEq κ] (m : OrderedMap κ α) (ks : List κ) :
    ks.foldl erase m = m.filter fun k _ => k ∉ ks := foldl_filter_ne (fun k _ => k) ks m

end DesignView.OrderedMap
