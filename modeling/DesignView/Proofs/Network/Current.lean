import DesignView.Proofs.Network.Upkeep
import DesignView.Proofs.Physical.Keeps

/-!
Current networks: they are sound, and every kept answer is what a sweep would find now. An edit of
the design keeps a network current by quieting the pins that it touches, changing the design, and
answering for the pins again.
-/

namespace DesignView.Network

variable {n n' : Network} {d d' : Design} {p : Pin} {loose touched : List Pin}

structure Current (n : Network) : Prop where
  sound : n.Sound
  kept : n.Kept []

theorem design_eq_ok : n.design = .ok d ↔ n.design? = some d := by
  unfold design design?
  split
  · next e => rw [e, Except.ok.injEq, Option.some.injEq]
  · next e => simp [e]

theorem Current.congr (h : n.Current) (hdb : n'.db = n.db) (htiming : n'.timing = n.timing)
    (hcatalog : n'.catalog = n.catalog) (hdrivers : n'.drivers = n.drivers) : n'.Current := by
  obtain ⟨⟩ := n
  obtain ⟨⟩ := n'
  cases hdb
  cases htiming
  cases hcatalog
  cases hdrivers
  obtain ⟨hs, hk⟩ := h
  refine ⟨⟨hs.db, hs.ports, hs.boundaryKeys, hs.boundaries⟩, fun a pins ha => ?_⟩
  exact ⟨(hk ha).nodup, (hk ha).reads, (hk ha).drives, (hk ha).complete⟩

theorem Current.warn (h : n.Current) (text : String) : (n.warn text).Current :=
  h.congr rfl rfl rfl rfl

theorem Sound.withDesign (h : n.Sound) (hd : n.design? = some d) (hwf : d'.WellFormed)
    (hb : d'.modBTerms = d.modBTerms) : (n.withDesign d').Sound := by
  refine ⟨h.db.setDesign hwf, h.ports, h.boundaryKeys, fun _ e m name => ?_⟩
  cases e
  exact (h.boundaries hd m name).trans (by rw [Design.modBTermNamed?, Design.modBTermNamed?, hb])

theorem SameTerminals.withDesign (n : Network) (d' : Design) :
    n.SameTerminals (n.withDesign d') := .of_eq rfl rfl rfl

theorem quiet_of_not_on (hk : n.Kept loose) (hd : n.design? = some d) (hp : ∀ x, ¬d.On p x) :
    n.Quiet p := by
  have hread (a : Net) : ¬n.Reads a p := fun hr => by
    obtain ⟨x, -, hon⟩ := (reads_iff hd).1 hr
    exact hp x hon
  exact fun a pins ha => ⟨fun hin => hread a ((hk ha).reads p hin), fun _ => hread a⟩

theorem Quiet.of_leaf (h : n.Quiet p) (hp : p.isHierarchical = false)
    (hdrivers : n'.drivers = n.drivers) : n'.Quiet p := fun _ _ ha =>
  ⟨(h (hdrivers ▸ ha)).1, fun hh => by cases hp.symm.trans hh⟩

/-- The touched pins are quiet before and after the edit. -/
theorem Kept.keeps (hk : n.Kept touched) (hwf : d.WellFormed) (hd : n.design? = some d)
    (hd' : n'.design? = some d') (hterm : n.SameTerminals n') (hkeeps : d.Keeps d' touched)
    (hquiet : ∀ p ∈ touched, n.Quiet p ∧ n'.Quiet p)
    (hsub : ∀ ⦃a pins⦄, n'.drivers.find? a = some pins → n.drivers.find? a = some pins) :
    n'.Kept touched := by
  refine hk.edit hd hd' hkeeps.agree (fun _ h => h) (fun p hp => ⟨hp, hquiet p hp⟩) hsub ?_ hwf
  intro p hp hlive hleaf
  refine hterm.sameClass hd hd' hlive hleaf (fun t y e hy => ?_) fun t y e hy => ?_
  · exact hkeeps.iterms (e ▸ hp) hy
  · exact hkeeps.bterms (e ▸ hp) hy

theorem Kept.settle (hk : n.Kept touched) (hs : n.Sound) (hd : n.design? = some d)
    (hd' : n'.design? = some d') (hdrivers : n'.drivers = n.drivers) (hterm : n.SameTerminals n')
    (hkeeps : d.Keeps d' touched) (hquiet : ∀ p ∈ touched, n.Quiet p)
    (hoff : ∀ p ∈ touched, ∀ x, ¬d'.On p x) : n'.Kept [] := by
  have hread (p : Pin) (hp : p ∈ touched) (a : Net) : ¬n'.Reads a p := fun hr => by
    obtain ⟨x, -, hon⟩ := (reads_iff hd').1 hr
    exact hoff p hp x hon
  have hquiet' (p : Pin) (hp : p ∈ touched) : n'.Quiet p := fun a pins ha =>
    ⟨(hquiet p hp (hdrivers ▸ ha)).1, fun _ => hread p hp a⟩
  -- No answer reads a touched pin any more, so none of them has to be answered for.
  have hk' : n'.Kept touched := hk.keeps (hs.db.design hd) hd hd' hterm hkeeps
    (fun p hp => ⟨hquiet p hp, hquiet' p hp⟩) fun _ _ ha => hdrivers ▸ ha
  exact hk'.forget fun p hp => ⟨hquiet' p hp, fun a hr => absurd hr (hread p hp a)⟩

theorem Current.driversOf (h : n.Current) {a : Net} {pins : List Pin}
    (e : n.driversOf a = .ok (pins, n')) : n'.Current := by
  refine ⟨?_, h.kept.driversOf h.sound e⟩
  cases ha : n.drivers.find? a with
  | some pins' =>
    rw [driversOf_kept ha] at e
    cases e
    exact h.sound
  | none =>
    obtain ⟨pins', hpins, -⟩ := h.sound.driversOf_new ha
    rw [hpins] at e
    cases e
    exact h.sound.setDrivers _

theorem Current.withDesign (h : n.Current) (hd : n.design? = some d) (hwf : d'.WellFormed)
    (hkeeps : d.Keeps d' []) : (n.withDesign d').Current :=
  ⟨h.sound.withDesign hd hwf (hkeeps.modBTerms (by simp)),
    h.kept.settle h.sound hd rfl rfl (.withDesign n d') hkeeps (by simp) (by simp)⟩

theorem Kept.sameTerminals (hk : n.Kept loose) (hs : n.Sound) (hdesign : n'.design? = n.design?)
    (hdrivers : n'.drivers = n.drivers) (hterm : n.SameTerminals n') : n'.Kept loose := by
  refine hk.transfer (fun _ h => h) (fun a pins ha => ⟨hdrivers ▸ ha, fun p => .inl ?_⟩) ?_
  · rw [Reads, Reads, hdesign]
  · rintro p a - ⟨d, hd, x, -, hon⟩ hleaf
    have hlive := ((hs.db.design hd).live_of_on hon).1
    exact hterm.sameClass hd (hdesign.trans hd) hlive hleaf (fun _ _ _ h => h) fun _ _ _ h => h

theorem linkedDirection?_eq (n : Network) (m : MTermId) :
    n.linkedDirection? m = (n.catalog.linkOf? m).bind n.timingPort? := rfl

theorem SameTerminals.setCatalog {c : Catalog} (h : ∀ m, c.linkOf? m = n.catalog.linkOf? m) :
    n.SameTerminals { n with catalog := c } :=
  ⟨rfl, fun m => by rw [linkedDirection?_eq, linkedDirection?_eq, h]; rfl⟩

theorem Sound.setCatalog (h : n.Sound) {c : Catalog} (hc : n.catalog.Built n.timing.length c) :
    Sound { n with catalog := c } := by
  refine ⟨h.db, hc.numbered h.ports, hc.boundaries ▸ h.boundaryKeys, fun d hd m name => ?_⟩
  rw [Catalog.boundary?, hc.boundaries]
  exact h.boundaries hd m name

end DesignView.Network
