import DesignView.Proofs.Network.Kept

/-!
The upkeep of the kept drivers. What is done before a pin leaves its nets makes the pin quiet, and
what is done after it has joined new ones makes it answered for again. A pin of the hierarchy is
quiet because the answers of all nets around it are gone.
-/

namespace DesignView.Network

variable {n n' : Network} {d d' : Design} {p q : Pin} {a : Net} {pins loose : List Pin}
  {nets : List Net}

theorem Sound.setDrivers (h : n.Sound) (m : OrderedMap Net (List Pin)) :
    Sound { n with drivers := m } := ⟨h.db, h.ports, h.boundaryKeys, h.boundaries⟩

theorem find?_dropDrivers : (n.dropDrivers nets).drivers.find? a =
    if a ∈ nets then none else n.drivers.find? a := OrderedMap.find?_foldl_erase ..

theorem mem_iterate_erase (h : pins.Nodup) (k : Nat) :
    ((fun ps : List Pin => ps.erase p)^[k] pins).Nodup ∧
      ∀ q, q ∈ (fun ps : List Pin => ps.erase p)^[k] pins ↔ q ∈ pins ∧ (q = p → k = 0) := by
  induction k generalizing pins with
  | zero => exact ⟨h, by simp⟩
  | succ k ih =>
    obtain ⟨hnodup, hmem⟩ := ih (h.erase p)
    rw [Function.iterate_succ_apply]
    refine ⟨hnodup, fun q => ?_⟩
    rw [hmem, h.mem_erase_iff]
    by_cases hq : q = p <;> simp [hq]

theorem mem_iterate_add (h : pins.Nodup) (k : Nat) :
    ((fun ps => if p ∈ ps then ps else ps ++ [p])^[k] pins).Nodup ∧
      ∀ q, q ∈ (fun ps => if p ∈ ps then ps else ps ++ [p])^[k] pins ↔
        q ∈ pins ∨ q = p ∧ 0 < k := by
  induction k generalizing pins with
  | zero => exact ⟨h, by simp⟩
  | succ k ih =>
    rw [Function.iterate_succ_apply]
    by_cases hp : p ∈ pins
    · rw [if_pos hp]
      obtain ⟨hnodup, hmem⟩ := ih h
      refine ⟨hnodup, fun q => ?_⟩
      rw [hmem]
      by_cases hq : q = p <;> simp [hq, hp]
    · rw [if_neg hp]
      obtain ⟨hnodup, hmem⟩ := ih (nodup_concat h hp)
      refine ⟨hnodup, fun q => ?_⟩
      rw [hmem]
      by_cases hq : q = p <;> simp [hq]

theorem exists_of_removeDriver (h : (n.removeDriver p nets).drivers.find? a = some pins) :
    ∃ old, n.drivers.find? a = some old ∧ (old.Nodup → pins.Nodup ∧
      ∀ q, q ∈ pins ↔ q ∈ old ∧ (q = p → a ∉ nets)) := by
  have h' := (OrderedMap.find?_foldl_modify ..).symm.trans h
  obtain ⟨old, hold, rfl⟩ := Option.map_eq_some_iff.1 h'
  refine ⟨old, hold, fun hn => ?_⟩
  simpa only [List.count_eq_zero] using mem_iterate_erase (p := p) hn (nets.count a)

theorem exists_of_addDriver (h : (n.addDriver p nets).drivers.find? a = some pins) :
    ∃ old, n.drivers.find? a = some old ∧ (old.Nodup → pins.Nodup ∧
      ∀ q, q ∈ pins ↔ q ∈ old ∨ q = p ∧ a ∈ nets) := by
  have h' := (OrderedMap.find?_foldl_modify ..).symm.trans h
  obtain ⟨old, hold, rfl⟩ := Option.map_eq_some_iff.1 h'
  refine ⟨old, hold, fun hn => ?_⟩
  simpa only [List.count_pos_iff] using mem_iterate_add (p := p) hn (nets.count a)

theorem Sound.mem_reachableNets (h : n.Sound) (hd : n.design? = some d)
    (e : n.reachableNets p = .ok nets) : a ∈ nets ↔ d.Reads a p := by
  obtain ⟨xs, hxs, -⟩ := bind_eq_ok.1 e
  obtain ⟨nets', e', hmem⟩ := h.reachableNets_ok hd (memberships_live hd hxs)
  cases e.symm.trans e'
  exact hmem a

theorem Sound.mem_connectedNets (h : n.Sound) (hd : n.design? = some d) {x : Net}
    (e : n.connectedNets x = .ok nets) : a ∈ nets ↔ d.Joined x a := by
  obtain ⟨nets', e', hmem⟩ := h.connectedNets_ok hd x
  cases e.symm.trans e'
  exact hmem a

theorem find?_of_dropDrivers (h : (n.dropDrivers nets).drivers.find? a = some pins) :
    n.drivers.find? a = some pins ∧ a ∉ nets := by
  rw [find?_dropDrivers] at h
  split at h
  · cases h
  · next hout => exact ⟨h, hout⟩

theorem design?_beforeDetach (e : n.beforeDetach p = .ok n') : n'.design? = n.design? := by
  obtain ⟨nets, -, e⟩ := bind_eq_ok.1 e
  cases pure_eq_ok.1 e
  split <;> rfl

theorem live_of_beforeDetach (hd : n.design? = some d) (e : n.beforeDetach p = .ok n') :
    d.Live p := by
  obtain ⟨nets, hnets, -⟩ := bind_eq_ok.1 e
  obtain ⟨xs, hxs, -⟩ := bind_eq_ok.1 hnets
  exact memberships_live hd hxs

/-- Only the kept answers change. Those that read the pin lose it, and if it joins nets they are
gone. -/
theorem Sound.of_beforeDetach (h : n.Sound) (hd : n.design? = some d)
    (e : n.beforeDetach p = .ok n') : ∃ m, n' = { n with drivers := m } ∧
      ∀ ⦃a pins⦄, m.find? a = some pins →
        (p.isHierarchical = true → ¬d.Reads a p) ∧ ∃ old, n.drivers.find? a = some old ∧
          (old.Nodup → pins.Nodup ∧ ∀ q, q ∈ pins ↔ q ∈ old ∧ (q = p → ¬d.Reads a p)) := by
  obtain ⟨nets, hnets, e⟩ := bind_eq_ok.1 e
  have hmem (a : Net) : a ∈ nets ↔ d.Reads a p := h.mem_reachableNets hd hnets
  cases pure_eq_ok.1 e
  cases hp : p.isHierarchical with
  | true =>
    refine ⟨(n.dropDrivers nets).drivers, rfl, fun a pins ha => ?_⟩
    obtain ⟨hold, hout⟩ := find?_of_dropDrivers ha
    have hread : ¬d.Reads a p := mt (hmem a).2 hout
    exact ⟨fun _ => hread, pins, hold, fun hn => ⟨hn, fun q => by simp [hread]⟩⟩
  | false =>
    refine ⟨(n.removeDriver p nets).drivers, rfl, fun a pins ha => ?_⟩
    obtain ⟨old, hold, hpins⟩ := exists_of_removeDriver ha
    exact ⟨(fun hh => by cases hh), old, hold, fun hn => by simpa only [hmem] using hpins hn⟩

theorem Kept.beforeDetach (hk : n.Kept loose) (h : n.Sound) (hd : n.design? = some d)
    (e : n.beforeDetach p = .ok n') : (∃ m, n' = { n with drivers := m }) ∧
      n'.Kept (p :: loose) ∧ n'.Quiet p ∧ ∀ q, n.Quiet q → n'.Quiet q := by
  obtain ⟨m, rfl, hm⟩ := h.of_beforeDetach hd e
  refine ⟨⟨m, rfl⟩, fun a pins ha => ?_, fun a pins ha => ?_, fun q hq a pins ha => ?_⟩
  · obtain ⟨-, old, hold, hpins⟩ := hm ha
    have hcur := hk hold
    obtain ⟨hnodup, hmem⟩ := hpins hcur.nodup
    refine ⟨hnodup, fun q hq => hcur.reads q ((hmem q).1 hq).1, fun q hq => ?_,
      fun q hr hdrv hs => ?_⟩
    · exact (hcur.drives q ((hmem q).1 hq).1).imp_left (List.mem_cons_of_mem p)
    -- The pin itself is loose from now on, and all others are listed as before.
    · by_cases hqp : q = p
      · exact .inl (hqp ▸ List.mem_cons_self)
      · refine (hcur.complete q hr hdrv hs).imp (List.mem_cons_of_mem p) fun hin => ?_
        exact (hmem q).2 ⟨hin, fun e => absurd e hqp⟩
  · obtain ⟨hread, old, hold, hpins⟩ := hm ha
    have hcur := hk hold
    refine ⟨fun hin => ?_, fun hh hr => hread hh ((reads_iff hd).1 hr)⟩
    obtain ⟨hin', hnot⟩ := ((hpins hcur.nodup).2 p).1 hin
    exact hnot rfl ((reads_iff hd).1 (hcur.reads p hin'))
  · obtain ⟨-, old, hold, hpins⟩ := hm ha
    obtain ⟨hnot, hread⟩ := hq hold
    exact ⟨fun hin => hnot (((hpins (hk hold).nodup).2 q).1 hin).1, hread⟩

theorem Kept.beforeDetachAll {ps : List Pin} (hk : n.Kept loose) (h : n.Sound)
    (hd : n.design? = some d) (e : ps.foldlM Network.beforeDetach n = .ok n') :
    (∃ m, n' = { n with drivers := m }) ∧ n'.Kept (ps ++ loose) ∧ (∀ p ∈ ps, n'.Quiet p) ∧
      ∀ q, n.Quiet q → n'.Quiet q := by
  induction ps generalizing n loose with
  | nil =>
    cases pure_eq_ok.1 e
    exact ⟨⟨_, rfl⟩, hk, by simp, fun q hq => hq⟩
  | cons p ps ih =>
    obtain ⟨n₁, e₁, e⟩ := bind_eq_ok.1 e
    obtain ⟨⟨m, rfl⟩, hk₁, hquiet, hmono⟩ := hk.beforeDetach h hd e₁
    obtain ⟨⟨m', rfl⟩, hk₂, hquiet', hmono'⟩ := ih hk₁ (h.setDrivers m) hd e
    refine ⟨⟨m', rfl⟩, hk₂.mono fun q hq => ?_, fun q hq => ?_, fun q hq => hmono' q (hmono q hq)⟩
    · simpa [or_left_comm] using hq
    · rcases List.mem_cons.1 hq with rfl | hq
      · exact hmono' q hquiet
      · exact hquiet' q hq

theorem Sound.of_afterAttach_leaf (h : n.Sound) (hd : n.design? = some d)
    (hp : p.isHierarchical = false) (e : n.afterAttach p = .ok n') :
    ∃ m, n' = { n with drivers := m } ∧ ∀ ⦃a pins⦄, m.find? a = some pins →
      ∃ old, n.drivers.find? a = some old ∧ (old.Nodup → pins.Nodup ∧
        ∀ q, q ∈ pins ↔ q ∈ old ∨ q = p ∧ n.Reads a p ∧ n.Drives p) := by
  unfold Network.afterAttach at e
  rw [hp] at e
  obtain ⟨b, hb, e⟩ := bind_eq_ok.1 e
  cases b with
  | false =>
    cases pure_eq_ok.1 e
    have hnot : ¬n.Drives p := fun hdrv => by cases hb.symm.trans hdrv
    exact ⟨n.drivers, rfl, fun a pins ha => ⟨pins, ha, fun hn => ⟨hn, fun q => by simp [hnot]⟩⟩⟩
  | true =>
    have hdrv : n.Drives p := hb
    obtain ⟨nets, hnets, e⟩ := bind_eq_ok.1 e
    cases pure_eq_ok.1 e
    refine ⟨(n.addDriver p nets).drivers, rfl, fun a pins ha => ?_⟩
    obtain ⟨old, hold, hpins⟩ := exists_of_addDriver ha
    refine ⟨old, hold, fun hn => ⟨(hpins hn).1, fun q => ?_⟩⟩
    rw [(hpins hn).2, h.mem_reachableNets hd hnets, reads_iff hd, and_iff_left hdrv]

theorem Kept.afterAttach_leaf (hk : n.Kept (p :: loose)) (h : n.Sound) (hd : n.design? = some d)
    (hp : p.isHierarchical = false) (hquiet : n.Quiet p) (e : n.afterAttach p = .ok n') :
    (∃ m, n' = { n with drivers := m }) ∧ n'.Kept loose ∧ n'.Listed p ∧
      ∀ q, q ≠ p → (n.Quiet q → n'.Quiet q) ∧ (n.Listed q → n'.Listed q) := by
  obtain ⟨m, rfl, hm⟩ := h.of_afterAttach_leaf hd hp e
  have hnew {a pins} (ha : m.find? a = some pins) : ∃ old, n.drivers.find? a = some old ∧
      pins.Nodup ∧ ∀ q, q ∈ pins ↔ q ∈ old ∨ q = p ∧ n.Reads a p ∧ n.Drives p := by
    obtain ⟨old, hold, hpins⟩ := hm ha
    exact ⟨old, hold, hpins (hk hold).nodup⟩
  refine ⟨⟨m, rfl⟩, fun a pins ha => ?_, fun a pins ha => ?_, fun q hqp => ⟨fun hq a pins ha => ?_,
    fun hq a pins ha => ?_⟩⟩
  · obtain ⟨old, hold, hnodup, hiff⟩ := hnew ha
    have hcur := hk hold
    refine ⟨hnodup, fun q hq => ?_, fun q hq => ?_, fun q hr hdrv hs => ?_⟩
    · rcases (hiff q).1 hq with hq | ⟨rfl, hr, -⟩
      · exact hcur.reads q hq
      · exact hr
    · rcases (hiff q).1 hq with hq | ⟨rfl, -, hdrv⟩
      · refine (hcur.drives q hq).imp_left fun hl => ?_
        exact (List.mem_cons.1 hl).resolve_left fun e => (hquiet hold).1 (e ▸ hq)
      · exact .inr hdrv
    · rcases hcur.complete q hr hdrv hs with hl | hq
      · rcases List.mem_cons.1 hl with rfl | hl
        · exact .inr ((hiff q).2 (.inr ⟨rfl, hr, hdrv⟩))
        · exact .inl hl
      · exact .inr ((hiff q).2 (.inl hq))
  · obtain ⟨old, hold, -, hiff⟩ := hnew ha
    rw [hiff, or_iff_right (hquiet hold).1, and_iff_right rfl]
    exact Iff.rfl
  · obtain ⟨old, hold, -, hiff⟩ := hnew ha
    rw [hiff, or_iff_left fun e => hqp e.1]
    exact hq hold
  · obtain ⟨old, hold, -, hiff⟩ := hnew ha
    rw [hiff, or_iff_left fun e => hqp e.1]
    exact hq hold

theorem Kept.afterAttachAll {ps : List Pin} (hk : n.Kept ps) (h : n.Sound)
    (hd : n.design? = some d) (hps : ps.Nodup) (hleaf : ∀ p ∈ ps, p.isHierarchical = false)
    (hquiet : ∀ p ∈ ps, n.Quiet p) (e : ps.foldlM Network.afterAttach n = .ok n') :
    (∃ m, n' = { n with drivers := m }) ∧ n'.Kept [] ∧ (∀ p ∈ ps, n'.Listed p) ∧
      ∀ q, q ∉ ps → n.Listed q → n'.Listed q := by
  induction ps generalizing n with
  | nil =>
    cases pure_eq_ok.1 e
    exact ⟨⟨_, rfl⟩, hk, by simp, fun q _ hq => hq⟩
  | cons p ps ih =>
    obtain ⟨hp, hps⟩ := List.nodup_cons.1 hps
    obtain ⟨n₁, e₁, e⟩ := bind_eq_ok.1 e
    obtain ⟨⟨m, rfl⟩, hk₁, hlisted, hother⟩ := hk.afterAttach_leaf h hd (hleaf p List.mem_cons_self)
      (hquiet p List.mem_cons_self) e₁
    obtain ⟨⟨m', rfl⟩, hk₂, hall, hrest⟩ := ih hk₁ (h.setDrivers m) hd hps
      (fun q hq => hleaf q (List.mem_cons_of_mem p hq))
      (fun q hq => (hother q fun e => hp (e ▸ hq)).1 (hquiet q (List.mem_cons_of_mem p hq))) e
    refine ⟨⟨m', rfl⟩, hk₂, fun q hq => ?_, fun q hq hl => ?_⟩
    · rcases List.mem_cons.1 hq with rfl | hq
      · exact hrest q hp hlisted
      · exact hall q hq
    · have hqp : q ≠ p := List.ne_of_not_mem_cons hq
      exact hrest q (List.not_mem_of_not_mem_cons hq) ((hother q hqp).2 hl)

theorem design?_beforeDelete {x : Net} (e : n.beforeDelete x = .ok n') :
    n'.design? = n.design? := by
  obtain ⟨nets, -, e⟩ := bind_eq_ok.1 e
  cases pure_eq_ok.1 e
  rfl

theorem Sound.of_afterAttach (h : n.Sound) (hd : n.design? = some d)
    (hp : p.isHierarchical = true) (e : n.afterAttach p = .ok n') :
    ∃ m, n' = { n with drivers := m } ∧
      ∀ ⦃a pins⦄, m.find? a = some pins → n.drivers.find? a = some pins ∧ ¬d.Reads a p := by
  unfold Network.afterAttach at e
  rw [hp] at e
  obtain ⟨nets, hnets, e⟩ := bind_eq_ok.1 e
  cases pure_eq_ok.1 e
  refine ⟨(n.dropDrivers nets).drivers, rfl, fun a pins ha => ?_⟩
  obtain ⟨hold, hout⟩ := find?_of_dropDrivers ha
  exact ⟨hold, mt (h.mem_reachableNets hd hnets).2 hout⟩

theorem Sound.of_beforeDelete (h : n.Sound) (hd : n.design? = some d) {x : Net}
    (e : n.beforeDelete x = .ok n') : ∃ m, n' = { n with drivers := m } ∧
      ∀ ⦃a pins⦄, m.find? a = some pins → n.drivers.find? a = some pins ∧ ¬d.Joined x a := by
  obtain ⟨nets, hnets, e⟩ := bind_eq_ok.1 e
  cases pure_eq_ok.1 e
  refine ⟨(n.dropDrivers nets).drivers, rfl, fun a pins ha => ?_⟩
  obtain ⟨hold, hout⟩ := find?_of_dropDrivers ha
  exact ⟨hold, mt (h.mem_connectedNets hd hnets).2 hout⟩

end DesignView.Network
