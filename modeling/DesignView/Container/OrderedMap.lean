/-!
Finite maps that remember the order in which their keys came in. Writing to a present key keeps its
place; a key that was erased and written again goes to the end. The keys of a map built by these
operations are distinct (`keys_nodup_insert`, `keys_nodup_erase`).
-/

namespace DesignView

/-- A finite map that lists its entries in the order in which their keys came in. -/
structure OrderedMap (κ α : Type) where
  entries : List (κ × α) := []

namespace OrderedMap

variable {κ α : Type}

def keys (m : OrderedMap κ α) : List κ := m.entries.map (·.1)

def values (m : OrderedMap κ α) : List α := m.entries.map (·.2)

def size (m : OrderedMap κ α) : Nat := m.entries.length

def filter (m : OrderedMap κ α) (p : κ → α → Bool) : OrderedMap κ α :=
  ⟨m.entries.filter fun e => p e.1 e.2⟩

def firstKey? (m : OrderedMap κ α) (p : α → Bool) : Option κ :=
  (m.entries.find? fun e => p e.2).map (·.1)

variable [DecidableEq κ]

def find? (m : OrderedMap κ α) (k : κ) : Option α :=
  (m.entries.find? fun e => e.1 = k).map (·.2)

def contains (m : OrderedMap κ α) (k : κ) : Bool :=
  m.entries.any fun e => e.1 = k

def erase (m : OrderedMap κ α) (k : κ) : OrderedMap κ α :=
  ⟨m.entries.filter fun e => e.1 ≠ k⟩

def modify (m : OrderedMap κ α) (k : κ) (f : α → α) : OrderedMap κ α :=
  ⟨m.entries.map fun e => if e.1 = k then (e.1, f e.2) else e⟩

def insert (m : OrderedMap κ α) (k : κ) (a : α) : OrderedMap κ α :=
  if m.contains k then m.modify k fun _ => a else ⟨m.entries ++ [(k, a)]⟩

theorem contains_iff {m : OrderedMap κ α} {k : κ} : m.contains k = true ↔ k ∈ m.keys := by
  simp [contains, keys]

theorem keys_modify (m : OrderedMap κ α) (k : κ) (f : α → α) : (m.modify k f).keys = m.keys := by
  simp only [keys, modify, List.map_map]
  refine List.map_congr_left fun e _ => ?_
  by_cases h : e.1 = k <;> simp [h]

theorem keys_erase (m : OrderedMap κ α) (k : κ) : (m.erase k).keys = m.keys.filter (· ≠ k) := by
  simp only [keys, erase, List.filter_map]
  rfl

theorem keys_insert (m : OrderedMap κ α) (k : κ) (a : α) :
    (m.insert k a).keys = if k ∈ m.keys then m.keys else m.keys ++ [k] := by
  by_cases h : k ∈ m.keys
  · rw [insert, if_pos (contains_iff.2 h), keys_modify, if_pos h]
  · rw [insert, if_neg (mt contains_iff.1 h), if_neg h]
    simp [keys]

theorem keys_nodup_erase {m : OrderedMap κ α} (h : m.keys.Nodup) (k : κ) :
    (m.erase k).keys.Nodup := keys_erase m k ▸ h.filter _

theorem keys_nodup_insert {m : OrderedMap κ α} (h : m.keys.Nodup) (k : κ) (a : α) :
    (m.insert k a).keys.Nodup := by
  rw [keys_insert]
  split
  · exact h
  · next hk => exact List.nodup_append.2 ⟨h, by simp, fun x hx y hy e =>
      hk (List.mem_singleton.1 hy ▸ e ▸ hx)⟩

end OrderedMap
end DesignView
