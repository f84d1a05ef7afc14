import DesignView.Proofs.Container.Table
import Mathlib.Data.List.Perm.Basic
import Mathlib.Data.List.Range
import Mathlib.Order.Bounds.Defs

/-!
Allocation of numbers. Whatever is inserted and removed, whichever ids removals name, an insertion
takes the smallest number that is not in use, and a table lists its objects in the order of their
latest insertion. No number is larger than the most objects that there ever were at once.
-/

namespace DesignView.Table

variable {k : Kind} {α : Type}

inductive Call (k : Kind) (α : Type)
  | insert (a : α)
  | remove (id : Id k)

def call (t : Table k α) : Call k α → Table k α
  | .insert a => (t.insert a).2
  | .remove id => t.erase id

def run (calls : List (Call k α)) : Table k α := calls.foldl call {}

def report (t : Table k α) : Call k α → Id k × Option α
  | .insert a => ((t.insert a).1, some a)
  | .remove id => (id, none)

def reports (t : Table k α) : List (Call k α) → List (Id k × Option α)
  | [] => []
  | c :: calls => t.report c :: (t.call c).reports calls

/-- The insertions that no later report on the same id has undone or repeated, oldest first. -/
def latest : List (Id k × Option α) → List (Id k × α)
  | [] => []
  | (id, a?) :: later =>
    if later.any fun e => e.1 = id then latest later
    else (a?.map (id, ·)).toList ++ latest later

/-- What calls in any order, with any ids, come to. -/
structure Allocates (calls : List (Call k α)) : Prop where
  apart : ∀ s, (⟨s⟩ : Id k) ∈ (run calls).ids → s ∉ (run calls).free
  covered : ∀ s, ((⟨s⟩ : Id k) ∈ (run calls).ids ∨ s ∈ (run calls).free) ↔
    1 ≤ s ∧ s ≤ (run calls).last
  least : ∀ a, IsLeast {s | 1 ≤ s ∧ (⟨s⟩ : Id k) ∉ (run calls).ids} ((run calls).insert a).1.seq ∧
    ((run calls).insert a).2.entries = (run calls).entries ++ [(((run calls).insert a).1, a)]
  idle : ∀ id, id ∉ (run calls).ids → (run calls).erase id = run calls
  inOrder : (run calls).entries = latest (reports {} calls)
  peak : ∀ n, (run calls).last ≤ n ↔ ∀ earlier, earlier <+: calls → (run earlier).size ≤ n

theorem run_append (calls : List (Call k α)) (c : Call k α) :
    run (calls ++ [c]) = (run calls).call c := by
  simp [run]

theorem Valid.call {t : Table k α} (h : t.Valid) (c : Call k α) : (t.call c).Valid := by
  cases c with
  | insert a => exact h.insert a
  | remove id => exact h.erase id

theorem valid_run (calls : List (Call k α)) : (run calls).Valid := by
  induction calls using List.reverseRecOn with
  | nil => exact valid_empty
  | append_singleton calls c ih => simpa only [run_append] using ih.call c

theorem Valid.isLeast_insert {t : Table k α} (h : t.Valid) (a : α) :
    IsLeast {s | 1 ≤ s ∧ (⟨s⟩ : Id k) ∉ t.ids} (t.insert a).1.seq := by
  have hfresh : (t.insert a).1 ∉ t.ids := h.fresh a
  -- A number that is neither live nor free lies beyond the last one.
  have hbeyond (s : Nat) (hpos : 1 ≤ s) (hs : (⟨s⟩ : Id k) ∉ t.ids) (hfree : s ∉ t.free) :
      t.last < s := by
    by_contra hle
    rcases (h.covered s).1 ⟨hpos, Nat.le_of_not_lt hle⟩ with hlive | hin
    · exact hs hlive
    · exact hfree hin
  cases e : t.free with
  | cons n rest =>
    have hid : (t.insert a).1.seq = n := by simp [Table.insert, e]
    have hn : 1 ≤ n ∧ n ≤ t.last := (h.covered n).2 (.inr (by simp [e]))
    refine ⟨⟨by omega, hfresh⟩, ?_⟩
    rintro s ⟨hpos, hs⟩
    rw [hid]
    by_cases hfree : s ∈ t.free
    · rcases List.mem_cons.1 (e ▸ hfree) with rfl | hrest
      · exact le_rfl
      · exact ((List.pairwise_cons.1 (e ▸ h.ascending)).1 s hrest).le
    · have := hbeyond s hpos hs hfree
      omega
  | nil =>
    have hid : (t.insert a).1.seq = t.last + 1 := by simp [Table.insert, e]
    refine ⟨⟨by omega, hfresh⟩, ?_⟩
    rintro s ⟨hpos, hs⟩
    rw [hid]
    exact hbeyond s hpos hs (by simp [e])

theorem reports_append (t : Table k α) (calls : List (Call k α)) (c : Call k α) :
    t.reports (calls ++ [c]) = t.reports calls ++ [(calls.foldl call t).report c] := by
  induction calls generalizing t with
  | nil => rfl
  | cons c' calls ih => simp [reports, ih]

theorem latest_append (log : List (Id k × Option α)) (id : Id k) (a? : Option α) :
    latest (log ++ [(id, a?)]) =
      (latest log).filter (fun e => e.1 ≠ id) ++ (a?.map (id, ·)).toList := by
  induction log with
  | nil => simp [latest]
  | cons r log ih =>
    obtain ⟨x, b?⟩ := r
    simp only [List.cons_append, latest, List.any_append, List.any_cons, List.any_nil,
      Bool.or_false, ih]
    by_cases hx : (log.any fun e => e.1 = x) = true
    · simp only [hx, Bool.true_or, if_true]
    · by_cases hid : id = x
      · subst hid
        cases b? <;> simp [hx]
      · cases b? <;> simp [hx, hid, Ne.symm hid]

theorem entries_run (calls : List (Call k α)) :
    (run calls).entries = latest (reports {} calls) := by
  induction calls using List.reverseRecOn with
  | nil => rfl
  | append_singleton calls c ih =>
    rw [run_append, reports_append, ← run]
    cases c with
    | insert a =>
      -- The number is new, so there is nothing to displace.
      have hnew : ((run calls).insert a).1 ∉ (run calls).ids := (valid_run calls).fresh a
      rw [report, latest_append, ← ih, ← entries_erase, erase_of_not_mem hnew]
      exact (valid_run calls).entries_insert a
    | remove id =>
      rw [report, latest_append, ← ih, Option.map_none, Option.toList_none, List.append_nil]
      exact (run calls).entries_erase id

theorem Valid.size_add_free {t : Table k α} (h : t.Valid) : t.size + t.free.length = t.last := by
  have hseq : Function.Injective (Id.seq (k := k)) := by
    rintro ⟨x⟩ ⟨y⟩ rfl
    rfl
  have hmem (s : Nat) : s ∈ t.ids.map Id.seq ↔ (⟨s⟩ : Id k) ∈ t.ids :=
    List.mem_map_of_injective hseq (a := ⟨s⟩)
  have hnodup : (t.ids.map Id.seq ++ t.free).Nodup := by
    refine List.nodup_append'.2 ⟨h.nodup.map hseq, h.ascending.imp Nat.ne_of_lt, ?_⟩
    intro s hs hfree
    exact h.apart s hfree ((hmem s).1 hs)
  have hperm : (t.ids.map Id.seq ++ t.free).Perm (List.range' 1 t.last) := by
    refine (List.perm_ext_iff_of_nodup hnodup List.nodup_range').2 fun s => ?_
    rw [List.mem_append, hmem, ← h.covered, List.mem_range'_1]
    omega
  simpa [size, ids, OrderedMap.size, OrderedMap.keys] using hperm.length_eq

theorem last_call (t : Table k α) (c : Call k α) : (t.call c).last = t.last ∨
    (t.call c).last = t.last + 1 ∧ (t.call c).free = [] := by
  cases c with
  | insert a =>
    cases hfree : t.free with
    | nil =>
      right
      simp [call, insert, hfree]
    | cons n rest =>
      left
      simp [call, insert, hfree]
  | remove id =>
    left
    show (t.erase id).last = t.last
    unfold erase
    split <;> rfl

theorem last_run_le_iff (calls : List (Call k α)) (n : Nat) :
    (run calls).last ≤ n ↔ ∀ earlier, earlier <+: calls → (run earlier).size ≤ n := by
  induction calls using List.reverseRecOn with
  | nil => simp [run, size, OrderedMap.size]
  | append_singleton calls c ih =>
    have hcount := ((valid_run calls).call c).size_add_free
    simp only [List.prefix_concat_iff, forall_eq_or_imp, ← ih, run_append]
    rcases last_call (run calls) c with h | ⟨h, hfree⟩
    · omega
    · rw [hfree, List.length_nil] at hcount
      omega

theorem run_allocates (calls : List (Call k α)) : Allocates calls where
  apart s hs hfree := (valid_run calls).apart s hfree hs
  covered s := ((valid_run calls).covered s).symm
  least a := ⟨(valid_run calls).isLeast_insert a, (valid_run calls).entries_insert a⟩
  idle _ := erase_of_not_mem
  inOrder := entries_run calls
  peak := last_run_le_iff calls

/-- A number that is freed twice is handed out once, and the object that takes it comes last. -/
example : (run ([.insert "a", .insert "b", .insert "c", .remove ⟨1⟩, .remove ⟨1⟩, .remove ⟨9⟩,
    .insert "d"] : List (Call .net String))).entries = [(⟨2⟩, "b"), (⟨3⟩, "c"), (⟨1⟩, "d")] := rfl

end DesignView.Table
