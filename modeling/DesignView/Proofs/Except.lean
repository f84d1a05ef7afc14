import Mathlib.Init

/-!
How a computation that may fail has succeeded.
-/

namespace DesignView

variable {ε α β : Type}

theorem bind_eq_ok {x : Except ε α} {f : α → Except ε β} {b : β} :
    (x >>= f) = .ok b ↔ ∃ a, x = .ok a ∧ f a = .ok b := by
  cases x with
  | ok a =>
    refine ⟨fun h => ⟨a, rfl, h⟩, ?_⟩
    rintro ⟨_, ⟨⟩, h⟩
    exact h
  | error e =>
    constructor
    · intro h
      cases h
    · rintro ⟨_, ⟨⟩, _⟩

theorem pure_eq_ok {a b : α} : (pure a : Except ε α) = .ok b ↔ a = b :=
  ⟨fun h => by cases h; rfl, fun h => h ▸ rfl⟩

theorem bind_ok_lift {x : Except ε α} {f : α → Except ε β} {P : α → Prop} {Q : β → Prop}
    (hx : ∃ a, x = .ok a ∧ P a) (hf : ∀ a, P a → ∃ b, f a = .ok b ∧ Q b) :
    ∃ b, (x >>= f) = .ok b ∧ Q b := by
  obtain ⟨a, ha, hP⟩ := hx
  obtain ⟨b, hb, hQ⟩ := hf a hP
  exact ⟨b, bind_eq_ok.2 ⟨a, ha, hb⟩, hQ⟩

theorem bind_ok_exists {x : Except ε α} {f : α → Except ε β} (hx : ∃ a, x = .ok a)
    (hf : ∀ a, ∃ b, f a = .ok b) : ∃ b, (x >>= f) = .ok b := by
  obtain ⟨a, ha⟩ := hx
  obtain ⟨b, hb⟩ := hf a
  exact ⟨b, bind_eq_ok.2 ⟨a, ha, hb⟩⟩

theorem foldlM_ok_exists {f : β → α → Except ε β} {as : List α}
    (hf : ∀ a ∈ as, ∀ b, ∃ b', f b a = .ok b') (b : β) : ∃ b', as.foldlM f b = .ok b' := by
  induction as generalizing b with
  | nil => exact ⟨b, rfl⟩
  | cons a as ih =>
    exact bind_ok_exists (hf a List.mem_cons_self b)
      (ih fun a' ha' => hf a' (List.mem_cons_of_mem a ha'))

theorem anyM_ok_exists {test : α → Except ε Bool} {as : List α}
    (h : ∀ a ∈ as, ∃ b, test a = .ok b) : ∃ b, as.anyM test = .ok b := by
  induction as with
  | nil => exact ⟨false, rfl⟩
  | cons a as ih =>
    obtain ⟨b, hb⟩ := h a List.mem_cons_self
    obtain ⟨c, hc⟩ := ih fun a' ha' => h a' (List.mem_cons_of_mem a ha')
    cases b with
    | true => exact ⟨true, bind_eq_ok.2 ⟨true, hb, rfl⟩⟩
    | false => exact ⟨c, bind_eq_ok.2 ⟨false, hb, hc⟩⟩

theorem foldlM_congr {f g : β → α → Except ε β} {as : List α} (h : ∀ b, ∀ a ∈ as, f b a = g b a)
    (b : β) : as.foldlM f b = as.foldlM g b := by
  induction as generalizing b with
  | nil => rfl
  | cons a as ih =>
    rw [List.foldlM_cons, List.foldlM_cons, h b a List.mem_cons_self]
    have hrest : (fun b => as.foldlM f b) = fun b => as.foldlM g b :=
      funext fun b => ih (fun b a' ha' => h b a' (List.mem_cons_of_mem a ha')) b
    rw [hrest]

theorem foldlM_ok_induct {f : β → α → Except ε β} {motive : β → Prop}
    (hstep : ∀ b a b', motive b → f b a = .ok b' → motive b') {as : List α} {b b' : β}
    (hb : motive b) (e : as.foldlM f b = .ok b') : motive b' := by
  induction as generalizing b with
  | nil =>
    cases pure_eq_ok.1 e
    exact hb
  | cons a as ih =>
    obtain ⟨b₁, e₁, e⟩ := bind_eq_ok.1 e
    exact ih (hstep b a b₁ hb e₁) e

/-- Two runs in lockstep: as long as the first one succeeds, so does the second one. -/
theorem foldlM_ok_lift {γ : Type} {f : β → α → Except ε β} {f' : γ → α → Except ε γ}
    {R : β → γ → Prop}
    (hstep : ∀ b c a b', R b c → f b a = .ok b' → ∃ c', f' c a = .ok c' ∧ R b' c') {as : List α}
    {b b' : β} {c : γ} (h : R b c) (e : as.foldlM f b = .ok b') :
    ∃ c', as.foldlM f' c = .ok c' ∧ R b' c' := by
  induction as generalizing b c with
  | nil =>
    cases pure_eq_ok.1 e
    exact ⟨c, rfl, h⟩
  | cons a as ih =>
    obtain ⟨b₁, e₁, e⟩ := bind_eq_ok.1 e
    obtain ⟨c₁, e₁', h₁⟩ := hstep b c a b₁ h e₁
    obtain ⟨c', e', h'⟩ := ih h₁ e
    exact ⟨c', bind_eq_ok.2 ⟨c₁, e₁', e'⟩, h'⟩

theorem foldlM_ok_forall {f : β → α → Except ε β} {motive : β → Prop} {P : β → α → Prop}
    (hstep : ∀ b a b', motive b → f b a = .ok b' →
      motive b' ∧ P b' a ∧ ∀ a', P b a' → P b' a') {as : List α} {b b' : β}
    (hb : motive b) (e : as.foldlM f b = .ok b') : motive b' ∧ ∀ a ∈ as, P b' a := by
  suffices h : motive b' ∧ (∀ a ∈ as, P b' a) ∧ ∀ a, P b a → P b' a from ⟨h.1, h.2.1⟩
  induction as generalizing b with
  | nil =>
    cases pure_eq_ok.1 e
    exact ⟨hb, fun a ha => (by cases ha), fun a ha => ha⟩
  | cons a as ih =>
    obtain ⟨b₁, e₁, e⟩ := bind_eq_ok.1 e
    obtain ⟨hb₁, hshown, hkept⟩ := hstep b a b₁ hb e₁
    obtain ⟨hb', hall, hlater⟩ := ih hb₁ e
    refine ⟨hb', fun a' ha' => ?_, fun a' ha' => hlater a' (hkept a' ha')⟩
    rcases List.mem_cons.1 ha' with rfl | ha'
    · exact hlater a' hshown
    · exact hall a' ha'

end DesignView
