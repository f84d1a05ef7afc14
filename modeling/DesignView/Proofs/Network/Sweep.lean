import DesignView.Proofs.Network.Sound

/-!
What a sweep walks and keeps. The nets that it adds to those visited before are the ones that are
reached without entering these, and the pins that it keeps are those met on the added nets that pass
its test. The invariant is that of a worklist: what has been walked is reached, what is queued is
reached unless visited before, and every net next to a walked one is walked, visited or queued.
-/

namespace DesignView

open Relation (ReflTransGen)

namespace Design

/-- A pin that is met on the net `x`: it is on the net, or it faces a pin that is. -/
def Meets (d : Design) (x : Net) (p : Pin) : Prop := d.On p x ∨ ∃ q, d.On q x ∧ d.Faces q p

theorem meets_leaf {d : Design} {x : Net} {p : Pin} (hp : p.isHierarchical = false) :
    d.Meets x p ↔ d.On p x := by
  refine or_iff_left ?_
  rintro ⟨q, -, hf⟩
  cases hp.symm.trans hf.symm.hierarchical

/-- A walk that does not enter `visited` leads from `a` to `b`. -/
def ReachedOutside (d : Design) (visited : List Net) (a b : Net) : Prop :=
  a ∉ visited ∧ ReflTransGen (fun x y => d.Joins x y ∧ y ∉ visited) a b

variable {d : Design} {visited : List Net} {a x y : Net}

theorem ReachedOutside.not_mem (h : d.ReachedOutside visited a x) : x ∉ visited := by
  obtain ⟨ha, h⟩ := h
  cases h with
  | refl => exact ha
  | tail _ hj => exact hj.2

theorem ReachedOutside.tail (h : d.ReachedOutside visited a x) (hj : d.Joins x y)
    (hy : y ∉ visited) : d.ReachedOutside visited a y := ⟨h.1, h.2.tail ⟨hj, hy⟩⟩

theorem reachedOutside_iff (hclosed : ∀ x ∈ visited, ∀ y, d.Joins x y → y ∈ visited) :
    d.ReachedOutside visited a x ↔ a ∉ visited ∧ d.Joined a x := by
  constructor
  · rintro ⟨ha, hx⟩
    exact ⟨ha, hx.lift id fun _ _ hj => hj.1⟩
  · rintro ⟨ha, hx⟩
    induction hx with
    | refl => exact ⟨ha, .refl⟩
    | tail _ hj ih => exact ih.tail hj fun hy => ih.not_mem (hclosed _ hy _ hj.symm)

theorem reachedOutside_nil : d.ReachedOutside [] a x ↔ d.Joined a x := by
  rw [reachedOutside_iff (by simp)]
  simp

end Design

theorem nodup_concat {α : Type} {xs : List α} {x : α} (h : xs.Nodup) (hx : x ∉ xs) :
    (xs ++ [x]).Nodup :=
  List.nodup_append.2 ⟨h, List.nodup_singleton x, fun _ hy _ hz e =>
    hx (List.mem_singleton.1 hz ▸ e ▸ hy)⟩

namespace Network

variable {test : Pin → Except Fault Bool} {n : Network} {d : Design}

structure Sweep.Tested (test : Pin → Except Fault Bool) (s : Sweep) : Prop where
  metNodup : s.met.Nodup
  keptNodup : s.kept.Nodup
  mem_kept : ∀ p, p ∈ s.kept ↔ p ∈ s.met ∧ test p = .ok true

theorem Sweep.Tested.popped {met kept : List Pin} {work work' : List Net}
    (h : Sweep.Tested test ⟨met, kept, work⟩) : Sweep.Tested test ⟨met, kept, work'⟩ :=
  ⟨h.metNodup, h.keptNodup, h.mem_kept⟩

theorem Sweep.Tested.meet {s : Sweep} (h : s.Tested test) {p : Pin} {b : Bool}
    (hp : test p = .ok b) : ∃ s', s.meet test p = .ok s' ∧ s'.Tested test ∧
      (∀ q, q ∈ s'.met ↔ q ∈ s.met ∨ q = p) ∧ s'.work = s.work := by
  by_cases hmet : p ∈ s.met
  · refine ⟨s, by rw [Sweep.meet, if_pos hmet]; rfl, h, fun q => ⟨.inl, ?_⟩, rfl⟩
    rintro (hq | rfl)
    · exact hq
    · exact hmet
  · have hkept : p ∉ s.kept := fun hk => hmet ((h.mem_kept p).1 hk).1
    refine ⟨{ s with met := s.met ++ [p], kept := if b then s.kept ++ [p] else s.kept },
      by rw [Sweep.meet, if_neg hmet, hp]; rfl,
      ⟨nodup_concat h.metNodup hmet, ?_, ?_⟩, by simp, rfl⟩
    · cases b
      · exact h.keptNodup
      · exact nodup_concat h.keptNodup hkept
    · intro q
      by_cases hq : q = p
      · subst hq
        cases b <;> simp [hp, hkept]
      · cases b <;> simp [h.mem_kept, hq]

theorem Sound.cross_ok (h : n.Sound) (hd : n.design? = some d)
    (htest : ∀ p, d.Live p → ∃ b, test p = .ok b) {s : Sweep} (hs : s.Tested test) {p : Pin}
    (hp : d.Live p) : ∃ s', n.cross test s p = .ok s' ∧ s'.Tested test ∧
      (∀ q, q ∈ s'.met ↔ q ∈ s.met ∨ q = p ∨ d.Faces p q) ∧
      ∀ x, x ∈ s'.work ↔ x ∈ s.work ∨ ∃ q, d.Faces p q ∧ d.On q x := by
  obtain ⟨b, hb⟩ := htest p hp
  obtain ⟨s₁, hs₁, htested₁, hmet₁, hwork₁⟩ := hs.meet hb
  obtain ⟨r, hr, hfaces⟩ := h.facing_ok hd hp
  cases r with
  | none =>
    have hnone (q : Pin) : ¬d.Faces p q := fun hf => by cases (hfaces q).2 hf
    refine ⟨s₁, ?_, htested₁, fun q => ?_, fun x => ?_⟩
    · exact bind_eq_ok.2 ⟨s₁, hs₁, bind_eq_ok.2 ⟨none, hr, rfl⟩⟩
    · simp [hmet₁, hnone]
    · simp [hwork₁, hnone]
  | some q =>
    have hq : d.Faces p q := (hfaces q).1 rfl
    have hfaces' (q' : Pin) : d.Faces p q' ↔ q' = q :=
      (hfaces q').symm.trans ⟨fun e => (Option.some.inj e).symm, fun e => e ▸ rfl⟩
    obtain ⟨c, hc⟩ := htest q hq.symm.live
    obtain ⟨s₂, hs₂, htested₂, hmet₂, hwork₂⟩ := htested₁.meet hc
    obtain ⟨y, hy, hon⟩ := netOf_ok hd hq.symm.live hq.symm.hierarchical
    refine ⟨{ s₂ with work := y.toList ++ s₂.work }, ?_, ?_, fun q' => ?_, fun x => ?_⟩
    · refine bind_eq_ok.2 ⟨s₁, hs₁, bind_eq_ok.2 ⟨some q, hr, bind_eq_ok.2 ⟨s₂, hs₂, ?_⟩⟩⟩
      exact bind_eq_ok.2 ⟨y, hy, rfl⟩
    · exact htested₂.popped
    · simp [hmet₂, hmet₁, hfaces', or_assoc]
    · simp [hwork₂, hwork₁, hfaces', ← hon, or_comm]

theorem Sound.crossAll_ok (h : n.Sound) (hd : n.design? = some d)
    (htest : ∀ p, d.Live p → ∃ b, test p = .ok b) {s : Sweep} (hs : s.Tested test) {ps : List Pin}
    (hps : ∀ p ∈ ps, d.Live p) : ∃ s', ps.foldlM (n.cross test) s = .ok s' ∧ s'.Tested test ∧
      (∀ q, q ∈ s'.met ↔ q ∈ s.met ∨ ∃ p ∈ ps, q = p ∨ d.Faces p q) ∧
      ∀ x, x ∈ s'.work ↔ x ∈ s.work ∨ ∃ p ∈ ps, ∃ q, d.Faces p q ∧ d.On q x := by
  induction ps generalizing s with
  | nil => exact ⟨s, rfl, hs, by simp, by simp⟩
  | cons p ps ih =>
    obtain ⟨s₁, hs₁, htested₁, hmet₁, hwork₁⟩ :=
      h.cross_ok hd htest hs (hps p List.mem_cons_self)
    obtain ⟨s₂, hs₂, htested₂, hmet₂, hwork₂⟩ :=
      ih htested₁ fun q hq => hps q (List.mem_cons_of_mem _ hq)
    refine ⟨s₂, bind_eq_ok.2 ⟨s₁, hs₁, hs₂⟩, htested₂, fun q => ?_, fun x => ?_⟩
    · rw [hmet₂, hmet₁, List.exists_mem_cons_iff, or_assoc]
    · rw [hwork₂, hwork₁, List.exists_mem_cons_iff, or_assoc]

theorem Sound.crossNet_ok (h : n.Sound) (hd : n.design? = some d)
    (htest : ∀ p, d.Live p → ∃ b, test p = .ok b) {s : Sweep} (hs : s.Tested test) (x : Net) :
    ∃ s', (n.listedOn x).foldlM (n.cross test) s = .ok s' ∧ s'.Tested test ∧
      (∀ p, p ∈ s'.met ↔ p ∈ s.met ∨ d.Meets x p) ∧
      ∀ y, y ∈ s'.work ↔ y ∈ s.work ∨ d.Joins x y := by
  have hlive : ∀ p ∈ n.listedOn x, d.Live p := fun p hp =>
    ((h.db.design hd).live_of_on ((h.mem_listedOn hd).1 hp)).1
  obtain ⟨s', hs', htested, hmet, hwork⟩ := h.crossAll_ok hd htest hs hlive
  refine ⟨s', hs', htested, fun p => ?_, fun y => ?_⟩
  · rw [hmet]
    simp only [h.mem_listedOn hd, Design.Meets, and_or_left, exists_or, exists_eq_right']
  · rw [hwork]
    simp only [h.mem_listedOn hd, Design.Joins, exists_and_left]

/-- The nets in `grown` have been walked after those in `visited`, starting from `a`. -/
structure Swept (d : Design) (test : Pin → Except Fault Bool) (visited : List Net) (a : Net)
    (s : Sweep) (grown : List Net) : Prop where
  tested : s.Tested test
  met : ∀ p, p ∈ s.met ↔ ∃ x ∈ grown, d.Meets x p
  nodup : grown.Nodup
  reached : ∀ x ∈ grown, d.ReachedOutside visited a x
  queued : ∀ x ∈ s.work, x ∉ visited → d.ReachedOutside visited a x
  closed : ∀ x ∈ grown, ∀ y, d.Joins x y → y ∈ visited ++ grown ∨ y ∈ s.work
  started : a ∈ visited ++ grown ∨ a ∈ s.work

namespace Swept

variable {visited grown : List Net} {a x : Net} {met kept : List Pin} {rest : List Net}

theorem start : Swept d test visited a { work := [a] } [] where
  tested := ⟨List.nodup_nil, List.nodup_nil, by simp⟩
  met := by simp
  nodup := List.nodup_nil
  reached := by simp
  queued y hy hout := by
    obtain rfl := List.mem_singleton.1 hy
    exact ⟨hout, .refl⟩
  closed := by simp
  started := .inr (List.mem_singleton_self a)

theorem skip (h : Swept d test visited a ⟨met, kept, x :: rest⟩ grown)
    (hx : x ∈ visited ++ grown) : Swept d test visited a ⟨met, kept, rest⟩ grown where
  tested := h.tested.popped
  met := h.met
  nodup := h.nodup
  reached := h.reached
  queued y hy := h.queued y (List.mem_cons_of_mem x hy)
  closed y hy z hj := by
    rcases h.closed y hy z hj with hz | hz
    · exact .inl hz
    · rcases List.mem_cons.1 hz with rfl | hz
      · exact .inl hx
      · exact .inr hz
  started := by
    rcases h.started with ha | ha
    · exact .inl ha
    · rcases List.mem_cons.1 ha with rfl | ha
      · exact .inl hx
      · exact .inr ha

theorem walk (h : Swept d test visited a ⟨met, kept, x :: rest⟩ grown)
    (hx : x ∉ visited ++ grown) {s : Sweep} (htested : s.Tested test)
    (hmet : ∀ p, p ∈ s.met ↔ p ∈ met ∨ d.Meets x p)
    (hwork : ∀ y, y ∈ s.work ↔ y ∈ rest ∨ d.Joins x y) :
    Swept d test visited a s (grown ++ [x]) := by
  obtain ⟨hout, hnew⟩ := not_or.1 (mt List.mem_append.2 hx)
  have hreached : d.ReachedOutside visited a x := h.queued x List.mem_cons_self hout
  have hmem (y : Net) : y ∈ visited ++ (grown ++ [x]) ↔ y ∈ visited ++ grown ∨ y = x := by
    simp [or_assoc]
  refine ⟨htested, fun p => ?_, nodup_concat h.nodup hnew, fun y hy => ?_, fun y hy hy' => ?_,
    fun y hy z hj => ?_, ?_⟩
  · rw [hmet, h.met p]
    simp only [List.mem_append, List.mem_singleton, or_and_right, exists_or, exists_eq_left]
  · rcases List.mem_append.1 hy with hy | hy
    · exact h.reached y hy
    · exact List.mem_singleton.1 hy ▸ hreached
  · rcases (hwork y).1 hy with hy | hj
    · exact h.queued y (List.mem_cons_of_mem x hy) hy'
    · exact hreached.tail hj hy'
  · rw [hmem, hwork]
    -- What was owed to `x` by the walked nets is paid by walking it now.
    rcases List.mem_append.1 hy with hy | hy
    · rcases h.closed y hy z hj with hz | hz
      · exact .inl (.inl hz)
      · rcases List.mem_cons.1 hz with rfl | hz
        · exact .inl (.inr rfl)
        · exact .inr (.inl hz)
    · exact .inr (.inr (List.mem_singleton.1 hy ▸ hj))
  · rw [hmem, hwork]
    rcases h.started with ha | ha
    · exact .inl (.inl ha)
    · rcases List.mem_cons.1 ha with rfl | ha
      · exact .inl (.inr rfl)
      · exact .inr (.inl ha)

theorem mem_grown (h : Swept d test visited a ⟨met, kept, []⟩ grown) :
    x ∈ grown ↔ d.ReachedOutside visited a x := by
  constructor
  · exact h.reached x
  · rintro ⟨ha, hx⟩
    induction hx with
    | refl =>
      rcases h.started with hin | hin
      · exact (List.mem_append.1 hin).resolve_left ha
      · cases hin
    | tail _ hj ih =>
      rcases h.closed _ ih _ hj.1 with hin | hin
      · exact (List.mem_append.1 hin).resolve_left hj.2
      · cases hin

end Swept

theorem Sound.sweep_ok (h : n.Sound) (hd : n.design? = some d)
    (htest : ∀ p, d.Live p → ∃ b, test p = .ok b) {visited grown : List Net} {a : Net} {s : Sweep}
    (hs : Swept d test visited a s grown) : ∃ grown' met pins,
      n.sweep test s (visited ++ grown) = .ok (visited ++ grown', pins) ∧
      Swept d test visited a ⟨met, pins, []⟩ grown' := by
  generalize hall : visited ++ grown = all
  -- The cases are those of the sweep: nothing is queued; the net was walked before; it is not in the
  -- design; its pins cannot be met; its pins are met.
  induction s, all using sweep.induct n test generalizing grown with
  | case1 met kept all =>
    subst hall
    exact ⟨grown, met, kept, by rw [sweep], hs⟩
  | case2 met kept x rest all hx ih =>
    subst hall
    rw [sweep, if_pos hx]
    exact ih (hs.skip hx) rfl
  | case3 met kept x rest all hx hdead ih =>
    subst hall
    -- To walk a net that does not exist is to walk a net without pins.
    have hempty (p : Pin) : ¬d.On p x := fun hp =>
      hdead ((mem_nets hd).2 ((h.db.design hd).live_of_on hp).2)
    have hwalk : Swept d test visited a ⟨met, kept, rest⟩ (grown ++ [x]) :=
      hs.walk hx hs.tested.popped
        (fun p => by simp [Design.Meets, hempty]) fun y => by simp [Design.Joins, hempty]
    rw [sweep, if_neg hx, if_pos hdead]
    exact ih hwalk (List.append_assoc ..).symm
  | case4 met kept x rest all hx hlive fault hfault =>
    obtain ⟨s', hs', -⟩ := h.crossNet_ok hd htest hs.tested.popped x
    rw [hs'] at hfault
    cases hfault
  | case5 met kept x rest all hx hlive s' hs' ih =>
    subst hall
    obtain ⟨s₁, hs₁, htested, hmet, hwork⟩ := h.crossNet_ok hd htest hs.tested.popped x
    obtain rfl : s₁ = s' := Except.ok.inj (hs₁.symm.trans hs')
    rw [sweep, if_neg hx, if_neg hlive, hs']
    exact ih (hs.walk hx htested hmet hwork) (List.append_assoc ..).symm

theorem Sound.sweepFrom_ok (h : n.Sound) (hd : n.design? = some d)
    (htest : ∀ p, d.Live p → ∃ b, test p = .ok b) (a : Net) (visited : List Net) :
    ∃ grown pins, n.sweepFrom test a visited = .ok (visited ++ grown, pins) ∧ grown.Nodup ∧
      (∀ x, x ∈ grown ↔ d.ReachedOutside visited a x) ∧ pins.Nodup ∧
      ∀ p, p ∈ pins ↔ (∃ x ∈ grown, d.Meets x p) ∧ test p = .ok true := by
  obtain ⟨grown, met, pins, hsweep, hs⟩ :=
    h.sweep_ok hd htest (.start : Swept d test visited a _ [])
  rw [List.append_nil] at hsweep
  refine ⟨grown, pins, ?_, hs.nodup, fun x => hs.mem_grown, hs.tested.keptNodup, fun p => ?_⟩
  · rw [sweepFrom, hd]
    exact hsweep
  · rw [hs.tested.mem_kept, hs.met]

theorem Sound.addConnectedNets_ok (h : n.Sound) (hd : n.design? = some d) (a : Net)
    (visited : List Net) : ∃ grown, n.addConnectedNets visited a = .ok (visited ++ grown) ∧
      ∀ x, x ∈ grown ↔ d.ReachedOutside visited a x := by
  obtain ⟨grown, pins, hsweep, -, hgrown, -⟩ :=
    h.sweepFrom_ok hd (fun _ _ => ⟨false, rfl⟩) a visited
  exact ⟨grown, bind_eq_ok.2 ⟨_, hsweep, rfl⟩, hgrown⟩

theorem Sound.connectedNets_ok (h : n.Sound) (hd : n.design? = some d) (a : Net) :
    ∃ xs, n.connectedNets a = .ok xs ∧ ∀ x, x ∈ xs ↔ d.Joined a x := by
  obtain ⟨grown, hgrown, hmem⟩ := h.addConnectedNets_ok hd a []
  exact ⟨grown, hgrown, fun x => (hmem x).trans Design.reachedOutside_nil⟩

theorem Sound.foldl_addConnectedNets_ok (h : n.Sound) (hd : n.design? = some d) (as : List Net)
    {visited : List Net} (hclosed : ∀ x ∈ visited, ∀ y, d.Joins x y → y ∈ visited) :
    ∃ xs, as.foldlM n.addConnectedNets visited = .ok xs ∧
      ∀ x, x ∈ xs ↔ x ∈ visited ∨ ∃ a ∈ as, d.Joined a x := by
  induction as generalizing visited with
  | nil => exact ⟨visited, rfl, by simp⟩
  | cons a as ih =>
    obtain ⟨grown, hgrown, hmem⟩ := h.addConnectedNets_ok hd a visited
    -- A net joined to one in `visited` is there already, so nothing is missed by staying outside.
    have hall (x : Net) : x ∈ visited ++ grown ↔ x ∈ visited ∨ d.Joined a x := by
      rw [List.mem_append, hmem, Design.reachedOutside_iff hclosed]
      constructor
      · exact Or.imp_right And.right
      · rintro (hx | hx)
        · exact .inl hx
        · by_cases ha : a ∈ visited
          · exact .inl (hx.mem_of_closed hclosed ha)
          · exact .inr ⟨ha, hx⟩
    have hclosed' : ∀ x ∈ visited ++ grown, ∀ y, d.Joins x y → y ∈ visited ++ grown := by
      intro x hx y hj
      rcases (hall x).1 hx with hx | hx
      · exact (hall y).2 (.inl (hclosed x hx y hj))
      · exact (hall y).2 (.inr (hx.tail hj))
    obtain ⟨xs, hxs, hmem'⟩ := ih hclosed'
    refine ⟨xs, bind_eq_ok.2 ⟨_, hgrown, hxs⟩, fun x => ?_⟩
    rw [hmem', hall, List.exists_mem_cons_iff, or_assoc]

theorem Sound.reachableNets_ok (h : n.Sound) (hd : n.design? = some d) {p : Pin} (hp : d.Live p) :
    ∃ xs, n.reachableNets p = .ok xs ∧ ∀ x, x ∈ xs ↔ d.Reads x p := by
  obtain ⟨as, has, hon⟩ := memberships_ok hd hp
  obtain ⟨xs, hxs, hmem⟩ :=
    h.foldl_addConnectedNets_ok hd as fun _ hx => absurd hx List.not_mem_nil
  refine ⟨xs, bind_eq_ok.2 ⟨as, has, hxs⟩, fun x => ?_⟩
  rw [hmem]
  constructor
  · rintro (hx | ⟨a, ha, hx⟩)
    · cases hx
    · exact ⟨a, hx.symm, (hon a).1 ha⟩
  · rintro ⟨a, hx, ha⟩
    exact .inr ⟨a, (hon a).2 ha, hx.symm⟩

end Network
end DesignView
