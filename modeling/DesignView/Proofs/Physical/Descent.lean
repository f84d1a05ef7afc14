import DesignView.Network.Scope
import DesignView.Proofs.Physical.Nesting

/-!
Descending and climbing. The names of the module instances on the way from the top module into a
module lead down to it, and a climb from there returns the same names. Only such chains matter: a
module elsewhere may hold itself, and a climb from it does not end, but no descent from the top
module arrives there.
-/

namespace DesignView

namespace Design

variable {d : Design} {i j : ModInstId} {a b : ModInst} {m : ModuleId} {names names' : List String}

/-- The module is the top module, or the end of the chain of module instances that `names` name one
after the other from the top module. -/
inductive Located (d : Design) : ModuleId → List String → Prop
  | top : d.Located d.topModule []
  | inside {i : ModInstId} {a : ModInst} {names : List String} (hi : d.modInsts.find? i = some a)
      (h : d.Located a.parent names) : d.Located a.master (names ++ [a.name])

theorem Located.unique (h : d.Located m names) (hwf : d.WellFormed) (h' : d.Located m names') :
    names = names' := by
  induction h generalizing names' with
  | top =>
    generalize hm : d.topModule = m at h'
    cases h' with
    | top => rfl
    | inside hi _ => exact absurd hm.symm (hwf.topFree hi)
  | @inside i a names hi _ ih =>
    generalize hm : a.master = m at h'
    cases h' with
    | top => exact absurd hm (hwf.topFree hi)
    | @inside j b above hj habove =>
      obtain rfl : i = j := hwf.oneInstance hi hj hm
      obtain rfl : a = b := Option.some.inj (hi.symm.trans hj)
      rw [ih habove]

theorem Located.chain (h : d.Located m names) (hwf : d.WellFormed) :
    ∃ is : List ModInstId, is.length = names.length ∧ is.Nodup ∧ ∀ j ∈ is, ∃ b above,
      d.modInsts.find? j = some b ∧ d.Located b.parent above ∧ above.length < names.length := by
  induction h with
  | top => exact ⟨[], rfl, List.nodup_nil, fun j hj => by cases hj⟩
  | @inside i a names hi h ih =>
    obtain ⟨is, hlength, hnodup, habove⟩ := ih
    have hfresh : i ∉ is := by
      intro hin
      obtain ⟨a', above, ha', h', hlt⟩ := habove i hin
      obtain rfl : a = a' := Option.some.inj (hi.symm.trans ha')
      exact absurd (congrArg List.length (h.unique hwf h')) (by omega)
    refine ⟨i :: is, by simp [hlength], List.nodup_cons.2 ⟨hfresh, hnodup⟩, fun j hj => ?_⟩
    rcases List.mem_cons.1 hj with rfl | hj
    · exact ⟨a, names, hi, h, by simp⟩
    · obtain ⟨b, above, hb, h', hlt⟩ := habove j hj
      exact ⟨b, above, hb, h', by rw [List.length_append]; omega⟩

theorem Located.length_le (h : d.Located m names) (hwf : d.WellFormed) :
    names.length ≤ d.modInsts.size := by
  obtain ⟨is, hlength, hnodup, hchain⟩ := h.chain hwf
  have hsub : is ⊆ d.modInsts.ids := by
    intro j hj
    obtain ⟨b, -, hb, -⟩ := hchain j hj
    exact Table.mem_ids_of_find? hb
  have hsize : d.modInsts.ids.length = d.modInsts.size := List.length_map ..
  have hle : is.length ≤ d.modInsts.ids.length := (hnodup.subperm hsub).length_le
  omega

theorem pathNames_inside (hi : d.modInsts.find? i = some a)
    (hj : d.instanceOf? a.parent = some j) {steps : Nat} (e : d.pathNames steps j = .ok names) :
    d.pathNames (steps + 1) i = .ok (names ++ [a.name]) := by
  have hfetch : d.modInst i = .ok a := Table.fetch_eq_ok.2 hi
  refine bind_eq_ok.2 ⟨a, hfetch, ?_⟩
  rw [hj]
  exact bind_eq_ok.2 ⟨names, e, rfl⟩

theorem Located.pathNames (h : d.Located a.parent names) (hwf : d.WellFormed)
    (hi : d.modInsts.find? i = some a) {steps : Nat} (hsteps : names.length < steps) :
    d.pathNames steps i = .ok (names ++ [a.name]) := by
  obtain _ | steps := steps
  · exact absurd hsteps (Nat.not_lt_zero _)
  generalize hm : a.parent = m at h
  induction h generalizing i a steps with
  | top =>
    refine pathNames_outermost hi ?_ steps
    rw [hm, Option.eq_none_iff_forall_ne_some]
    intro j hj
    obtain ⟨b, hb, hmaster⟩ := hwf.instanceOf?_eq_some_iff.1 hj
    exact hwf.topFree hb hmaster
  | @inside j b above hj _ ih =>
    have hinstance : d.instanceOf? a.parent = some j :=
      hwf.instanceOf?_eq_some_iff.2 ⟨b, hj, hm.symm⟩
    rw [List.length_append, List.length_singleton] at hsteps
    obtain _ | steps := steps
    · omega
    · exact pathNames_inside hi hinstance (ih hj steps (by omega) rfl)

theorem Located.modInstPath (h : d.Located a.parent names) (hwf : d.WellFormed)
    (hi : d.modInsts.find? i = some a) (divider : Char) :
    d.modInstPath i divider = .ok (Path.join divider (names ++ [a.name])) :=
  bind_eq_ok.2 ⟨_, h.pathNames hwf hi (Nat.lt_succ_of_le (h.length_le hwf)), rfl⟩

theorem WellFormed.modInstNamed?_eq_some_iff (h : d.WellFormed) {name : String} :
    d.modInstNamed? m name = some i ↔
      ∃ a, d.modInsts.find? i = some a ∧ a.parent = m ∧ a.name = name :=
  h.modInstNames.firstIn?_eq_some_iff h.modInsts

end Design

namespace Network

open Design

variable {d : Design} {i j : ModInstId} {a b : ModInst} {m : ModuleId} {names above : List String}

theorem located_of_descend? (hwf : d.WellFormed) (habove : d.Located m above)
    (e : descend? d m names = some i) : ∃ a before, d.modInsts.find? i = some a ∧
      d.Located a.parent before ∧ above ++ names = before ++ [a.name] := by
  induction names generalizing m above with
  | nil => cases e
  | cons name rest ih =>
    cases rest with
    | nil =>
      obtain ⟨a, ha, rfl, rfl⟩ := hwf.modInstNamed?_eq_some_iff.1 e
      exact ⟨a, above, ha, habove, rfl⟩
    | cons next rest =>
      rw [descend?] at e
      · split at e
        · cases e
        next j hj =>
        split at e
        · cases e
        next b hb =>
        obtain ⟨b', hb', rfl, rfl⟩ := hwf.modInstNamed?_eq_some_iff.1 hj
        obtain rfl : b = b' := Option.some.inj (hb.symm.trans hb')
        obtain ⟨a, before, ha, hbefore, hnames⟩ := ih (.inside hb habove) e
        exact ⟨a, before, ha, hbefore, by rw [← hnames, List.append_assoc]; rfl⟩
      · exact List.cons_ne_nil _ _

theorem descend?_snoc (e : descend? d m names = some j) (hj : d.modInsts.find? j = some b)
    (name : String) : descend? d m (names ++ [name]) = d.modInstNamed? b.master name := by
  induction names generalizing m with
  | nil => cases e
  | cons first rest ih =>
    cases rest with
    | nil =>
      have hfirst : d.modInstNamed? m first = some j := e
      simp only [List.cons_append, List.nil_append, descend?, hfirst, hj]
    | cons next rest =>
      simp only [List.cons_append, descend?] at e ih ⊢
      split at e
      · cases e
      next i hi =>
      split at e
      · cases e
      next a ha => exact ih e

theorem descend?_of_located (hwf : d.WellFormed) (h : d.Located a.parent names)
    (hi : d.modInsts.find? i = some a) : descend? d d.topModule (names ++ [a.name]) = some i := by
  generalize hm : a.parent = m at h
  induction h generalizing i a with
  | top => exact hwf.modInstNamed?_eq_some_iff.2 ⟨a, hi, hm, rfl⟩
  | inside hj _ ih =>
    rw [descend?_snoc (ih hj rfl) hj]
    exact hwf.modInstNamed?_eq_some_iff.2 ⟨a, hi, hm, rfl⟩

end Network
end DesignView
