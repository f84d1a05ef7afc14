import DesignView.Proofs.Physical.History
import Mathlib.Data.List.Perm.Subperm

/-!
Nesting of modules. A module holds the modules that are instantiated in it. If no module holds
itself, every climb from a module instance ends, and only then. A new module instance is the only
edit that can make a module hold itself, and it does so if its module already holds its parent;
whether a module has an instance has nothing to do with it.
-/

namespace DesignView.Design

open Relation (ReflTransGen TransGen)

variable {d d' : Design} {i j : ModInstId} {a b : ModInst}

def Places (d : Design) (outer inner : ModuleId) : Prop :=
  ∃ i a, d.modInsts.find? i = some a ∧ a.parent = outer ∧ a.master = inner

/-- The modules are the same, or the first one holds the second one at some depth. -/
def Contains (d : Design) : ModuleId → ModuleId → Prop := ReflTransGen d.Places

/-- No module is instantiated inside itself, directly or through a chain of instances. -/
def Acyclic (d : Design) : Prop := ∀ m, ¬TransGen d.Places m m

theorem places_of_find? (h : d.modInsts.find? i = some a) : d.Places a.parent a.master :=
  ⟨i, a, h, rfl, rfl⟩

theorem WellFormed.instanceOf?_eq_some_iff (h : d.WellFormed) {m : ModuleId} :
    d.instanceOf? m = some i ↔ ∃ a, d.modInsts.find? i = some a ∧ a.master = m :=
  h.oneInstance.firstWhere?_eq_some_iff h.modInsts

theorem pathNames_outermost (hi : d.modInsts.find? i = some a)
    (hnone : d.instanceOf? a.parent = none) (steps : Nat) :
    d.pathNames (steps + 1) i = .ok [a.name] := by
  have hfetch : d.modInst i = .ok a := Table.fetch_eq_ok.2 hi
  simp only [pathNames, hfetch]
  exact bind_eq_ok.2 ⟨a, rfl, by rw [hnone]; rfl⟩

theorem pathNames_below (hi : d.modInsts.find? i = some a)
    (hj : d.instanceOf? a.parent = some j) (steps : Nat) :
    (∃ names, d.pathNames (steps + 1) i = .ok names) ↔
      ∃ names, d.pathNames steps j = .ok names := by
  have hfetch : d.modInst i = .ok a := Table.fetch_eq_ok.2 hi
  constructor
  · rintro ⟨names, e⟩
    obtain ⟨a', ha', e⟩ := bind_eq_ok.1 e
    obtain rfl : a = a' := Except.ok.inj (hfetch.symm.trans ha')
    rw [hj] at e
    obtain ⟨above, e, -⟩ := bind_eq_ok.1 e
    exact ⟨above, e⟩
  · rintro ⟨above, e⟩
    refine ⟨above ++ [a.name], bind_eq_ok.2 ⟨a, hfetch, ?_⟩⟩
    rw [hj]
    exact bind_eq_ok.2 ⟨above, e, rfl⟩

def Below (d : Design) (i j : ModInstId) : Prop :=
  ∃ a b, d.modInsts.find? i = some a ∧ d.modInsts.find? j = some b ∧
    TransGen d.Places b.master a.master

theorem Acyclic.pathNames_ok (hac : d.Acyclic) (h : d.WellFormed) (steps : Nat)
    (seen : List ModInstId) (hi : d.modInsts.find? i = some a) (hnodup : seen.Nodup)
    (hseen : ∀ x ∈ seen, d.Below x i) (hsteps : d.modInsts.size < seen.length + steps) :
    ∃ names, d.pathNames steps i = .ok names := by
  induction steps generalizing i a seen with
  | zero =>
    have hsub : seen ⊆ d.modInsts.ids := by
      intro x hx
      obtain ⟨_, _, hfind, -⟩ := hseen x hx
      exact Table.mem_ids_of_find? hfind
    have hle : seen.length ≤ d.modInsts.ids.length :=
      (hnodup.subperm hsub).length_le
    have hsize : d.modInsts.ids.length = d.modInsts.size := List.length_map ..
    omega
  | succ steps ih =>
    cases hj : d.instanceOf? a.parent with
    | none => exact ⟨_, pathNames_outermost hi hj steps⟩
    | some j =>
      obtain ⟨b, hb, hmaster⟩ := h.instanceOf?_eq_some_iff.1 hj
      have hplaces : d.Places b.master a.master := hmaster ▸ places_of_find? hi
      have hfresh : i ∉ seen := by
        intro hin
        obtain ⟨a', a'', ha', ha'', hloop⟩ := hseen i hin
        obtain rfl : a' = a'' := Option.some.inj (ha'.symm.trans ha'')
        exact hac _ hloop
      rw [pathNames_below hi hj]
      refine ih (i :: seen) hb (List.nodup_cons.2 ⟨hfresh, hnodup⟩) (fun x hx => ?_) ?_
      · rcases List.mem_cons.1 hx with rfl | hx
        · exact ⟨a, b, hi, hb, .single hplaces⟩
        · obtain ⟨c, a', hc, ha', hbelow⟩ := hseen x hx
          obtain rfl : a = a' := Option.some.inj (hi.symm.trans ha')
          exact ⟨c, b, hc, hb, hbelow.head hplaces⟩
      · rw [List.length_cons]
        omega

theorem WellFormed.pathNames_endless (h : d.WellFormed) (steps : Nat)
    (hi : d.modInsts.find? i = some a) (hloop : TransGen d.Places a.master a.master) :
    ¬∃ names, d.pathNames steps i = .ok names := by
  induction steps generalizing i a with
  | zero =>
    rintro ⟨names, e⟩
    cases e
  | succ steps ih =>
    obtain ⟨outer, hdown, i', a', hi', rfl, hmaster⟩ := TransGen.tail'_iff.1 hloop
    obtain rfl : i' = i := h.oneInstance hi' hi hmaster
    obtain rfl : a' = a := Option.some.inj (hi'.symm.trans hi)
    -- The parent holds itself too, so it has an instance and the climb goes on.
    have hup : TransGen d.Places a'.parent a'.parent := .head' (places_of_find? hi) hdown
    obtain ⟨_, -, j, b, hj, -, hb⟩ := TransGen.tail'_iff.1 hup
    have hinst : d.instanceOf? a'.parent = some j := h.instanceOf?_eq_some_iff.2 ⟨b, hj, hb⟩
    rw [pathNames_below hi hinst]
    exact ih hj (hb ▸ hup)

theorem WellFormed.acyclic_iff (h : d.WellFormed) :
    d.Acyclic ↔ ∀ i ∈ d.modInsts.ids, ∃ names, d.pathNames (d.modInsts.size + 1) i = .ok names := by
  constructor
  · intro hac i hi
    obtain ⟨a, ha⟩ := Table.mem_ids_iff.1 hi
    exact hac.pathNames_ok h _ [] ha List.nodup_nil (by simp) (by simp)
  · intro hpaths m hloop
    obtain ⟨_, -, i, a, hi, -, rfl⟩ := TransGen.tail'_iff.1 hloop
    exact h.pathNames_endless _ hi hloop (hpaths i (Table.mem_ids_of_find? hi))

theorem Acyclic.not_contains (hac : d.Acyclic) (hi : d.modInsts.find? i = some a) :
    ¬d.Contains a.master a.parent :=
  fun hdown => hac a.parent (.head' (places_of_find? hi) hdown)

theorem Acyclic.iff_of_sub (hac : d.Acyclic) (hsub : d'.modInsts.Sub d.modInsts) :
    d'.Acyclic ↔ ∀ ⦃i a⦄, d'.modInsts.find? i = some a → ¬d.Contains a.master a.parent := by
  have hac' : d'.Acyclic := by
    intro m hloop
    refine hac m (TransGen.mono (fun outer inner hplaces => ?_) _ _ hloop)
    obtain ⟨i, a, hi, hparent, hmaster⟩ := hplaces
    exact ⟨i, a, hsub hi, hparent, hmaster⟩
  exact iff_of_true hac' fun _ _ hi => hac.not_contains (hsub hi)

theorem contains_of_insert {parent master x y : ModuleId}
    (hnew : ∀ ⦃x y⦄, d'.Places x y → d.Places x y ∨ x = parent ∧ y = master)
    (hxy : d'.Contains x y) : d.Contains x y ∨ d.Contains x parent ∧ d.Contains master y := by
  induction hxy with
  | refl => exact .inl .refl
  | tail _ hstep ih =>
    rcases hnew hstep with hold | ⟨rfl, rfl⟩
    · rcases ih with ih | ⟨hup, hdown⟩
      · exact .inl (ih.tail hold)
      · exact .inr ⟨hup, hdown.tail hold⟩
    · rcases ih with ih | ⟨hup, -⟩
      · exact .inr ⟨ih, .refl⟩
      · exact .inr ⟨hup, .refl⟩

theorem Acyclic.createModInst_iff (hac : d.Acyclic) (h : d.WellFormed) {parent master : ModuleId}
    {name : String} (e : d.createModInst parent master name = .ok (i, d')) :
    d'.Acyclic ↔ ¬d.Contains master parent := by
  obtain ⟨-, -, -, -, -, rfl, rfl⟩ := createModInst_ok e
  have hold {x a} (hx : d.modInsts.find? x = some a) :
      (d.modInsts.insert ⟨name, parent, master⟩).2.find? x = some a :=
    h.modInsts.find?_insert_of_some _ hx
  have hnew := Table.find?_insert_self d.modInsts ⟨name, parent, master⟩
  constructor
  · intro hac' hdown
    refine hac'.not_contains hnew (ReflTransGen.mono (fun outer inner hplaces => ?_) _ _ hdown)
    obtain ⟨x, a, hx, hparent, hmaster⟩ := hplaces
    exact ⟨x, a, hold hx, hparent, hmaster⟩
  · intro hnot m hloop
    have hsplit : ∀ ⦃x y⦄, Places { d with
        modInsts := (d.modInsts.insert ⟨name, parent, master⟩).2 } x y →
        d.Places x y ∨ x = parent ∧ y = master := by
      rintro x y ⟨i, a, hi, rfl, rfl⟩
      rw [Table.find?_insert] at hi
      split at hi
      · cases hi
        exact .inr ⟨rfl, rfl⟩
      · exact .inl (places_of_find? hi)
    -- The last step of the loop is an old one or the new one; so is every step before it.
    obtain ⟨outer, hdown, hlast⟩ := TransGen.tail'_iff.1 hloop
    rcases hsplit hlast with hlast | ⟨rfl, rfl⟩
    · rcases contains_of_insert hsplit hdown with hdown | ⟨hup, hdown⟩
      · exact hac m (.tail' hdown hlast)
      · exact hnot ((hdown.tail hlast).trans hup)
    · rcases contains_of_insert hsplit hdown with hdown | ⟨hup, -⟩
      · exact hnot hdown
      · exact hnot hup

theorem Step.acyclic_iff (s : d.Step d') (h : d.WellFormed) (hac : d.Acyclic) :
    d'.Acyclic ↔ ∀ ⦃i a⦄, d'.modInsts.find? i = some a → ¬d.Contains a.master a.parent := by
  obtain ⟨-, -, hsub | ⟨parent, master, name, id, e⟩⟩ := s.makes
  · exact hac.iff_of_sub hsub
  · rw [hac.createModInst_iff h e]
    obtain ⟨-, -, -, -, -, -, rfl⟩ := createModInst_ok e
    constructor
    · intro hnot i a hi
      rw [Table.find?_insert] at hi
      split at hi
      · cases hi
        exact hnot
      · exact hac.not_contains hi
    · intro hall
      exact hall (Table.find?_insert_self ..)

end Design

/-- A step of a database makes an acyclic design cyclic exactly if it instantiates a module in one
that the module contains. -/
theorem Database.Step.acyclic_iff {db db' : Database} {d d' : Design} (s : db.Step db')
    (hdb : db.WellFormed) (hd : db.design? = some d) (hd' : db'.design? = some d')
    (hac : d.Acyclic) : d'.Acyclic ↔
      ∀ ⦃i a⦄, d'.modInsts.find? i = some a → ¬d.Contains a.master a.parent := by
  have hkept (e : db'.design? = db.design?) : d'.modInsts.Sub d.modInsts := by
    obtain rfl : d' = d := Option.some.inj (hd'.symm.trans (e.trans hd))
    exact .of_eq rfl
  cases s with
  | createLib e =>
    obtain ⟨-, rfl⟩ := createLib_ok e
    exact hac.iff_of_sub (hkept rfl)
  | createMaster e =>
    obtain ⟨-, -, rfl⟩ := createMaster_ok e
    exact hac.iff_of_sub (hkept rfl)
  | createMTerm e =>
    obtain ⟨-, -, rfl⟩ := createMTerm_ok e
    exact hac.iff_of_sub (hkept rfl)
  | createDesign e =>
    obtain ⟨hnone, -, -⟩ := createDesign_ok e
    cases hnone.symm.trans hd
  | destroyDesign => cases hd'
  | createInst e =>
    obtain ⟨-, d₁, d₂, hd₁, hd₂, rfl⟩ := createInst_ok e
    obtain rfl : d₁ = d := Option.some.inj (hd₁.symm.trans hd)
    cases hd'
    obtain ⟨-, -, -, rfl⟩ := Design.createInst_ok hd₂
    exact hac.iff_of_sub (.of_eq rfl)
  | swapMaster e =>
    obtain ⟨d₁, i, hd₁, -, -, -, rfl⟩ := swapMaster_ok e
    obtain rfl : d₁ = d := Option.some.inj (hd₁.symm.trans hd)
    cases hd'
    exact hac.iff_of_sub (.of_eq rfl)
  | design hd₁ s =>
    cases hd₁.symm.trans hd
    cases hd'
    exact s.acyclic_iff (hdb.design hd) hac

end DesignView
