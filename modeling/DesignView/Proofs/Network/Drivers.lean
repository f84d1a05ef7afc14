import DesignView.Proofs.Network.Connectivity
import Mathlib

/-!
The drivers of nets. The kept answers are what would be found now, supply pins aside. When an answer
is computed, it lists no supply pins; but a supply pin whose timing port is an output enters the
kept answers when it is attached to a net.
-/

namespace DesignView

theorem keepM_ok {α : Type} {test : α → Except Fault Bool} {xs : List α}
    (h : ∀ x ∈ xs, ∃ b, test x = .ok b) : ∃ ys, keepM test xs = .ok ys ∧ ys.Sublist xs ∧
      ∀ x, x ∈ ys ↔ x ∈ xs ∧ test x = .ok true := by
  induction xs with
  | nil => exact ⟨[], rfl, .slnil, by simp⟩
  | cons x xs ih =>
    obtain ⟨b, hb⟩ := h x List.mem_cons_self
    obtain ⟨ys, hys, hsub, hmem⟩ := ih fun y hy => h y (List.mem_cons_of_mem x hy)
    have hkeep : keepM test (x :: xs) = .ok (if b then x :: ys else ys) :=
      bind_eq_ok.2 ⟨b, hb, bind_eq_ok.2 ⟨ys, hys, rfl⟩⟩
    cases b with
    | true =>
      refine ⟨x :: ys, hkeep, hsub.cons_cons x, fun y => ?_⟩
      by_cases hy : y = x <;> simp [hmem, hy, hb]
    | false =>
      refine ⟨ys, hkeep, hsub.cons x, fun y => ?_⟩
      by_cases hy : y = x <;> simp [hmem, hy, hb]

namespace Network

variable {n n' : Network} {d : Design} {a : Net} {p : Pin} {pins : List Pin}

theorem Sound.connectedPins_drivers (h : n.Sound) (a : Net) : ∃ reached,
    n.connectedPins a = .ok reached ∧ reached.Nodup ∧ (∀ p ∈ reached, ∃ b, n.isDriver p = .ok b) ∧
      ∀ p, n.Drives p → (p ∈ reached ↔ n.Reads a p ∧ n.isSignal p = .ok true) := by
  cases hd : n.design? with
  | none =>
    have hreached : n.connectedPins a = .ok [] := by
      rw [connectedPins, connectedFrom, sweepFrom, hd]
      rfl
    exact ⟨[], hreached, List.nodup_nil, by simp, fun p _ => by simp [Reads, hd]⟩
  | some d =>
    obtain ⟨reached, hreached, hnodup, hmem⟩ := h.connectedPins_ok hd a
    refine ⟨reached, hreached, hnodup, fun p hp => ?_, fun p hdrv => ?_⟩
    · obtain ⟨⟨x, -, hmeet⟩, -⟩ := (hmem p).1 hp
      cases hp : p.isHierarchical with
      | true => exact ⟨false, isDriver_of_hierarchical hp⟩
      | false =>
        have hon : d.On p x := (Design.meets_leaf hp).1 hmeet
        exact isDriver_ok hd ((h.db.design hd).live_of_on hon).1
    · simp only [hmem, Design.meets_leaf hdrv.leaf, reads_iff hd, Design.Reads]

/-- Without its supply pins, a kept answer lists the connected pins that drive. -/
theorem Reachable.keptDrivers_perm (h : n.Reachable) (ha : n.drivers.find? a = some pins) :
    ∃ signals reached drivers, keepM n.isSignal pins = .ok signals ∧
      n.connectedPins a = .ok reached ∧ keepM n.isDriver reached = .ok drivers ∧
      signals.Perm drivers := by
  obtain ⟨hs, hk⟩ := h.current
  have hcur := hk ha
  have hdrives (p : Pin) (hp : p ∈ pins) : n.Drives p :=
    (hcur.drives p hp).resolve_left List.not_mem_nil
  have hsignal (p : Pin) (hp : p ∈ pins) : ∃ b, n.isSignal p = .ok b := by
    obtain ⟨d, hd, x, -, hon⟩ := hcur.reads p hp
    exact hs.isSignal_ok hd ((hs.db.design hd).live_of_on hon).1
  obtain ⟨signals, hsignals, hsub, hmem⟩ := keepM_ok hsignal
  obtain ⟨reached, hreached, hnodup, hdriver, hleaf⟩ := hs.connectedPins_drivers a
  obtain ⟨drivers, hdrivers, hsub', hmem'⟩ := keepM_ok hdriver
  refine ⟨signals, reached, drivers, hsignals, hreached, hdrivers, ?_⟩
  -- Neither list repeats a pin, so it is enough to compare their elements.
  refine (List.perm_ext_iff_of_nodup (hcur.nodup.sublist hsub) (hnodup.sublist hsub')).2 fun p => ?_
  rw [hmem, hmem']
  constructor
  · rintro ⟨hp, hsig⟩
    have hdrv := hdrives p hp
    exact ⟨(hleaf p hdrv).2 ⟨hcur.reads p hp, hsig⟩, hdrv⟩
  · rintro ⟨hp, hdrv⟩
    obtain ⟨hread, hsig⟩ := (hleaf p hdrv).1 hp
    exact ⟨(hcur.complete p hread hdrv hsig).resolve_left List.not_mem_nil, hsig⟩

/-- After the net has been asked for its drivers, a second output is attached to it and the first
one is taken off. -/
theorem keptDrivers_edited : ∃ before n pins signals reached drivers, Reachable n ∧
    before.drivers.find? (.flat ⟨1⟩) = some [.flat ⟨1⟩] ∧
    Relation.ReflTransGen Edit before n ∧ n.drivers.find? (.flat ⟨1⟩) = some pins ∧
    keepM n.isSignal pins = .ok signals ∧ n.connectedPins (.flat ⟨1⟩) = .ok reached ∧
    keepM n.isDriver reached = .ok drivers ∧ signals.Perm drivers ∧ signals = [.flat ⟨2⟩] := by
  have hrun : ∃ db, Database.Reachable db ∧ (do
      let n ← (Network.new {}).loadDatabase db
      let r ← n.driversOf (.flat ⟨1⟩)
      let r' ← r.2.connectPin (.flat ⟨2⟩) (.flat ⟨1⟩)
      let n' ← r'.2.disconnect (.flat ⟨1⟩)
      let signals ← keepM n'.isSignal [.flat ⟨2⟩]
      return (r.2.drivers.find? (.flat ⟨1⟩) = some [.flat ⟨1⟩],
        n'.drivers.find? (.flat ⟨1⟩) = some [.flat ⟨2⟩], signals)) =
        (.ok (true, true, [.flat ⟨2⟩]) : Except Fault (Bool × Bool × List Pin)) := by
    refine ⟨_, Relation.ReflTransGen.refl
      |>.tail (@Database.Step.createLib _ "cells" _ _ rfl)
      |>.tail (@Database.Step.createMaster _ ⟨1⟩ "BUF" _ _ rfl)
      |>.tail (@Database.Step.createMTerm _ ⟨1⟩ "Z" .signal .output _ _ rfl)
      |>.tail (@Database.Step.createDesign _ "top" _ _ rfl)
      |>.tail (@Database.Step.createInst _ ⟨1⟩ "u1" none _ _ rfl)
      |>.tail (@Database.Step.createInst _ ⟨1⟩ "u2" none _ _ rfl)
      |>.tail (.design rfl (@Design.Step.createNet _ "n1" _ _ rfl))
      |>.tail (.design rfl (.attachITerm ⟨1⟩ ⟨1⟩)), ?_⟩
    cbv
  obtain ⟨db, hdb, hrun⟩ := hrun
  obtain ⟨n₁, e₁, hrun⟩ := bind_eq_ok.1 hrun
  obtain ⟨⟨pins, before⟩, e₂, hrun⟩ := bind_eq_ok.1 hrun
  obtain ⟨⟨accepted, n₂⟩, e₃, hrun⟩ := bind_eq_ok.1 hrun
  obtain ⟨n, e₄, hrun⟩ := bind_eq_ok.1 hrun
  obtain ⟨signals, hsignals, hrun⟩ := bind_eq_ok.1 hrun
  have hall := pure_eq_ok.1 hrun
  simp only [Prod.mk.injEq, decide_eq_true_eq] at hall
  obtain ⟨hbefore, ha, rfl⟩ := hall
  have hedits : Relation.ReflTransGen Edit before n :=
    .tail (.single (.connectPin e₃)) (.disconnect e₄)
  have h : Reachable n := ⟨{}, Relation.ReflTransGen.refl
    |>.tail (.load (.loadDatabase hdb e₁))
    |>.tail (.query (.driversOf e₂))
    |>.tail (.edit (.connectPin e₃))
    |>.tail (.edit (.disconnect e₄))⟩
  obtain ⟨signals', reached, drivers, hsignals', hreached, hdrivers, hperm⟩ := h.keptDrivers_perm ha
  exact ⟨before, n, _, signals', reached, drivers, h, hbefore, hedits, ha, hsignals', hreached,
    hdrivers, hperm, Except.ok.inj (hsignals'.symm.trans hsignals)⟩

theorem ofTypes_of_isSupply {sig : SigType} (h : sig.isSupply = true) (io : IoType) :
    (PortDirection.ofTypes sig io).isAnyInput = false ∧
      (PortDirection.ofTypes sig io).isAnyOutput = false := by
  cases sig with
  | power | ground => exact ⟨rfl, rfl⟩
  | signal | clock | analog => cases h

/-- A supply pin drives only if its timing port says so. -/
theorem Drives.timed_of_isSupply (hdrv : n.Drives p) (hd : n.design? = some d)
    (hsup : n.isSupply p = .ok true) : ∃ t direction, p = .flat t ∧
      n.timedDirection? p = .ok (some direction) ∧ direction.isAnyOutput = true := by
  have hlive := hdrv.live hd
  cases p with
  | module | moduleBoundary => cases hdrv
  | boundary t =>
    obtain ⟨x, hx⟩ := Table.mem_ids_iff.1 hlive
    have hdir := Except.ok.inj ((isDriver_boundary hd hx).symm.trans hdrv)
    have hsig := Except.ok.inj ((isSupply_boundary hd hx).symm.trans hsup)
    rw [(ofTypes_of_isSupply hsig x.io).1] at hdir
    cases hdir
  | flat t =>
    obtain ⟨x, hx⟩ := Table.mem_ids_iff.1 hlive
    have hdir := Except.ok.inj ((isDriver_flat hd hx).symm.trans hdrv)
    have hsig := Except.ok.inj ((isSupply_flat hd hx).symm.trans hsup)
    unfold terminalDirection at hdir
    cases hlinked : n.linkedDirection? x.mterm with
    | some direction =>
      rw [hlinked] at hdir
      exact ⟨t, direction, rfl, hlinked ▸ timedDirection?_flat hd hx, hdir⟩
    | none =>
      obtain ⟨y, hy, hsig⟩ := (Option.any_eq_true _ _).1 hsig
      rw [hlinked, hy] at hdir
      dsimp only at hdir
      rw [(ofTypes_of_isSupply hsig y.io).2] at hdir
      cases hdir

inductive Attaches (n : Network) (p : Pin) : Network → Prop
  | connectPin {net n'} (h : n.connectPin p net = .ok (true, n')) : Attaches n p n'
  | connect {i port net n'} (h : n.connect i port net = .ok (some p, n')) : Attaches n p n'
  | connectTiming {i ref net n'} (h : n.connectTiming i ref net = .ok (some p, n')) :
      Attaches n p n'
  | makePin {i port net n'} (h : n.makePin i port (some net) = .ok (some p, n')) : Attaches n p n'
  | replaceCell {d t x cell r n'} (hd : n.design? = some d) (hx : d.iterms.find? t = some x)
      (hp : p = .flat t) (h : n.replaceCell (.flat x.inst) cell = .ok (r, n')) : Attaches n p n'

theorem Attaches.listed (s : n.Attaches p n') (h : n.Current) : n'.Current ∧ n'.Listed p := by
  cases s with
  | connectPin e => exact h.connectPin e
  | connect e => exact (h.connect e).imp_right fun hl => hl p rfl
  | connectTiming e => exact (h.connectTiming e).imp_right fun hl => hl p rfl
  | makePin e => exact (h.makePin e).imp_right fun hl => hl rfl p rfl
  | replaceCell hd hx hp e => exact (h.replaceCell e).imp_right fun hl => hp ▸ hl _ _ _ hd hx rfl

theorem hasDrivers_eq_true : n.hasDrivers a = true ↔ ∃ pins, n.drivers.find? a = some pins :=
  OrderedMap.contains_iff.trans OrderedMap.mem_keys_iff

/-- A supply pin is among the drivers of a net only if the answer was kept and the timing port of
the pin is an output. After the pin has been attached, it is among them exactly if the answer is
kept and the pin drives a net that is joined to this one. -/
theorem Reachable.supplyDriver_iff (h : n.Reachable) :
    (∀ a, ∃ pins n', n.driversOf a = .ok (pins, n') ∧ ∀ p ∈ pins, n.isSupply p = .ok true →
      n.hasDrivers a = true ∧ n.Reads a p ∧ n.Drives p ∧ ∃ t direction, p = .flat t ∧
        n.timedDirection? p = .ok (some direction) ∧ direction.isAnyOutput = true) ∧
    ∀ p n', n.Attaches p n' → n'.isSupply p = .ok true →
      ∀ a, ∃ pins n'', n'.driversOf a = .ok (pins, n'') ∧
        (p ∈ pins ↔ n'.hasDrivers a = true ∧ n'.Reads a p ∧ n'.Drives p) := by
  have hcur := h.current
  have hnew {n : Network} (hs : n.Sound) {a : Net} (ha : n.drivers.find? a = none) :
      ∃ pins n', n.driversOf a = .ok (pins, n') ∧ ∀ p ∈ pins, n.isSupply p ≠ .ok true := by
    obtain ⟨pins, hpins, -, hmem⟩ := hs.driversOf_new ha
    refine ⟨pins, _, hpins, fun p hp hsup => ?_⟩
    cases (isSignal_eq_ok.1 ((hmem p).1 hp).2.2).symm.trans hsup
  refine ⟨fun a => ?_, fun p n' hatt hsup a => ?_⟩
  · cases ha : n.drivers.find? a with
    | none =>
      obtain ⟨pins, n', hpins, hnot⟩ := hnew hcur.sound ha
      exact ⟨pins, n', hpins, fun p hp hsup => absurd hsup (hnot p hp)⟩
    | some pins =>
      have hans := hcur.kept ha
      refine ⟨pins, n, driversOf_kept ha, fun p hp hsup => ?_⟩
      have hdrv : n.Drives p := (hans.drives p hp).resolve_left List.not_mem_nil
      obtain ⟨d, hd, hread⟩ := hans.reads p hp
      exact ⟨hasDrivers_eq_true.2 ⟨pins, ha⟩, ⟨d, hd, hread⟩, hdrv, hdrv.timed_of_isSupply hd hsup⟩
  · obtain ⟨hcur', hlisted⟩ := hatt.listed hcur
    cases ha : n'.drivers.find? a with
    | none =>
      obtain ⟨pins, n'', hpins, hnot⟩ := hnew hcur'.sound ha
      refine ⟨pins, n'', hpins, fun hp => absurd hsup (hnot p hp), fun hkept => ?_⟩
      obtain ⟨pins', ha'⟩ := hasDrivers_eq_true.1 hkept.1
      cases ha.symm.trans ha'
    | some pins =>
      refine ⟨pins, n', driversOf_kept ha, ?_⟩
      rw [hlisted ha, and_iff_right (hasDrivers_eq_true.2 ⟨pins, ha⟩)]

/-- A power pin of a buffer whose timing port is an output, attached when the answer was kept. -/
theorem supplyDriver_power : ∃ n p n' a pins n'', Reachable n ∧ n.Attaches p n' ∧
    n'.isSupply p = .ok true ∧ n'.driversOf a = .ok (pins, n'') ∧ p ∈ pins ∧
    n'.hasDrivers a = true ∧ n'.Reads a p ∧ n'.Drives p := by
  have hrun : ∃ db, Database.Reachable db ∧ ∃ timing, (do
      let n ← ((Network.new {}).loadTiming timing).2.loadDatabase db
      let r ← n.driversOf (.flat ⟨1⟩)
      let r' ← r.2.connectPin (.flat ⟨1⟩) (.flat ⟨1⟩)
      let supply ← r'.2.isSupply (.flat ⟨1⟩)
      let r'' ← r'.2.driversOf (.flat ⟨1⟩)
      return (r'.1, supply, r''.1)) = (.ok (true, true, [.flat ⟨1⟩]) : Except Fault _) := by
    refine ⟨_, Relation.ReflTransGen.refl
      |>.tail (@Database.Step.createLib _ "cells" _ _ rfl)
      |>.tail (@Database.Step.createMaster _ ⟨1⟩ "BUF" _ _ rfl)
      |>.tail (@Database.Step.createMTerm _ ⟨1⟩ "VDD" .power .inout _ _ rfl)
      |>.tail (@Database.Step.createDesign _ "top" _ _ rfl)
      |>.tail (@Database.Step.createInst _ ⟨1⟩ "u1" none _ _ rfl)
      |>.tail (.design rfl (@Design.Step.createNet _ "n1" _ _ rfl)),
      { name := "t", cells := ⟨[("BUF", { name := "BUF", ports := ⟨[("VDD", .output)]⟩ })]⟩ }, ?_⟩
    cbv
  obtain ⟨db, hdb, timing, hrun⟩ := hrun
  obtain ⟨n₁, e₁, hrun⟩ := bind_eq_ok.1 hrun
  obtain ⟨⟨pins, n⟩, e₂, hrun⟩ := bind_eq_ok.1 hrun
  obtain ⟨⟨accepted, n'⟩, e₃, hrun⟩ := bind_eq_ok.1 hrun
  obtain ⟨supply, hsup, hrun⟩ := bind_eq_ok.1 hrun
  obtain ⟨⟨pins', n''⟩, e₄, hrun⟩ := bind_eq_ok.1 hrun
  cases pure_eq_ok.1 hrun
  have h : Reachable n := ⟨{}, Relation.ReflTransGen.refl
    |>.tail (.load (.loadTiming timing))
    |>.tail (.load (.loadDatabase hdb e₁))
    |>.tail (.query (.driversOf e₂))⟩
  have hatt : n.Attaches (.flat ⟨1⟩) n' := .connectPin e₃
  obtain ⟨pins, m, e₅, hiff⟩ := h.supplyDriver_iff.2 _ n' hatt hsup (.flat ⟨1⟩)
  cases e₄.symm.trans e₅
  exact ⟨n, _, n', _, _, n'', h, hatt, hsup, e₄, List.mem_singleton_self _,
    hiff.1 (List.mem_singleton_self _)⟩

end Network
end DesignView
