import DesignView.Proofs.Network.Direction
import DesignView.Proofs.Network.Sweep

/-!
The kept drivers are what a sweep would find. In the middle of an edit this may fail for the pins
that the edit moves; these are the loose pins of the invariant, which the edit takes out of the kept
answers before it starts and puts back, one after the other, once it is done.
-/

namespace DesignView.Network

variable {n n' : Network} {d d' : Design} {p q : Pin} {a : Net} {pins loose loose' : List Pin}

def Reads (n : Network) (a : Net) (p : Pin) : Prop := ∃ d, n.design? = some d ∧ d.Reads a p

theorem reads_iff (hd : n.design? = some d) : n.Reads a p ↔ d.Reads a p := by
  constructor
  · rintro ⟨d', hd', h⟩
    obtain rfl : d = d' := Option.some.inj (hd.symm.trans hd')
    exact h
  · exact fun h => ⟨d, hd, h⟩

/-- The pins are the drivers of `a`, up to the loose pins. A driver that is a supply pin may be
listed or not. -/
structure Answers (n : Network) (loose : List Pin) (a : Net) (pins : List Pin) : Prop where
  nodup : pins.Nodup
  reads : ∀ p ∈ pins, n.Reads a p
  drives : ∀ p ∈ pins, p ∈ loose ∨ n.Drives p
  complete : ∀ p, n.Reads a p → n.Drives p → n.isSignal p = .ok true → p ∈ loose ∨ p ∈ pins

/-- Every kept answer is current, up to the loose pins. -/
def Kept (n : Network) (loose : List Pin) : Prop :=
  ∀ ⦃a pins⦄, n.drivers.find? a = some pins → n.Answers loose a pins

/-- No kept answer lists the pin, and if the pin joins nets, it joins none that has an answer. -/
def Quiet (n : Network) (p : Pin) : Prop :=
  ∀ ⦃a pins⦄, n.drivers.find? a = some pins → p ∉ pins ∧ (p.isHierarchical = true → ¬n.Reads a p)

/-- Every kept answer that reads the pin lists it if it drives, even if it is a supply pin. -/
def Listed (n : Network) (p : Pin) : Prop :=
  ∀ ⦃a pins⦄, n.drivers.find? a = some pins → (p ∈ pins ↔ n.Reads a p ∧ n.Drives p)

theorem kept_of_empty (h : n.drivers = {}) : n.Kept loose := by
  intro a pins ha
  rw [h] at ha
  cases ha

theorem Kept.mono (h : n.Kept loose) (hl : ∀ p ∈ loose, p ∈ loose') : n.Kept loose' :=
  fun _ _ ha => ⟨(h ha).nodup, (h ha).reads, fun p hp => ((h ha).drives p hp).imp_left (hl p),
    fun p hr hdrv hs => ((h ha).complete p hr hdrv hs).imp_left (hl p)⟩

/-- The answers that an edit leaves are current again if, for every pin that is not loose, they read
the pin as before and the pin is classified as before. -/
theorem Kept.transfer (h : n.Kept loose) (hl : ∀ p ∈ loose, p ∈ loose')
    (hentries : ∀ ⦃a pins⦄, n'.drivers.find? a = some pins → n.drivers.find? a = some pins ∧
      ∀ p, (n.Reads a p ↔ n'.Reads a p) ∨ p ∉ pins ∧ p ∈ loose')
    (hsame : ∀ p a, p ∉ loose' → n.Reads a p → p.isHierarchical = false → n.SameClass n' p) :
    n'.Kept loose' := by
  intro a pins ha
  obtain ⟨ha, hreads⟩ := hentries ha
  have hcur := h ha
  refine ⟨hcur.nodup, fun p hp => ?_, fun p hp => ?_, fun p hr hdrv hs => ?_⟩
  · rcases hreads p with hiff | hout
    · exact hiff.1 (hcur.reads p hp)
    · exact absurd hp hout.1
  · by_cases hpl : p ∈ loose'
    · exact .inl hpl
    · have hdrv : n.Drives p := (hcur.drives p hp).resolve_left fun hp' => hpl (hl p hp')
      have hcls := hsame p a hpl (hcur.reads p hp) hdrv.leaf
      exact .inr (hcls.1.trans hdrv)
  · by_cases hpl : p ∈ loose'
    · exact .inl hpl
    -- A driver that is read now was read and was a driver before, so it was listed.
    · have hr' : n.Reads a p := ((hreads p).resolve_right fun hout => hpl hout.2).2 hr
      have hcls := hsame p a hpl hr' hdrv.leaf
      have hin := hcur.complete p hr' (hcls.1.symm.trans hdrv) (hcls.2.symm.trans hs)
      exact .inr (hin.resolve_left fun hp' => hpl (hl p hp'))

theorem Kept.edit (h : n.Kept loose) (hd : n.design? = some d) (hd' : n'.design? = some d')
    {touched : List Pin} (hagree : d.Agree d' (· ∈ touched)) (hl : ∀ p ∈ loose, p ∈ loose')
    (htouched : ∀ p ∈ touched, p ∈ loose' ∧ n.Quiet p ∧ n'.Quiet p)
    (hsub : ∀ ⦃a pins⦄, n'.drivers.find? a = some pins → n.drivers.find? a = some pins)
    (hsame : ∀ p, p ∉ loose' → d.Live p → p.isHierarchical = false → n.SameClass n' p)
    (hwf : d.WellFormed) : n'.Kept loose' := by
  refine h.transfer hl (fun a pins ha => ⟨hsub ha, fun p => ?_⟩) fun p a hp hr hleaf => ?_
  -- The two designs join other nets only at touched pins, and these join none of the nets around
  -- an answer that is kept.
  · by_cases hp : p ∈ touched
    · exact .inr ⟨((htouched p hp).2.1 (hsub ha)).1, (htouched p hp).1⟩
    · refine .inl ?_
      rw [reads_iff hd, reads_iff hd']
      refine hagree.reads_iff (fun q hq hh => ?_) (fun q hq hh => ?_) hp
      · exact fun hr => ((htouched q hq).2.1 (hsub ha)).2 hh ((reads_iff hd).2 hr)
      · exact fun hr => ((htouched q hq).2.2 ha).2 hh ((reads_iff hd').2 hr)
  · obtain ⟨x, -, hon⟩ := (reads_iff hd).1 hr
    exact hsame p hp (hwf.live_of_on hon).1 hleaf

theorem Kept.forget (h : n.Kept loose)
    (hl : ∀ p ∈ loose, n.Quiet p ∧ ∀ a, n.Reads a p → ¬n.Drives p) : n.Kept [] := by
  intro a pins ha
  have hcur := h ha
  refine ⟨hcur.nodup, hcur.reads, fun p hp => .inr ?_, fun p hr hdrv hs => .inr ?_⟩
  · exact (hcur.drives p hp).resolve_left fun hp' => ((hl p hp').1 ha).1 hp
  · exact (hcur.complete p hr hdrv hs).resolve_left fun hp' => (hl p hp').2 a hr hdrv

theorem driversOf_kept (ha : n.drivers.find? a = some pins) : n.driversOf a = .ok (pins, n) := by
  rw [driversOf, ha]
  rfl

theorem Sound.driversOf_new (h : n.Sound) (ha : n.drivers.find? a = none) :
    ∃ pins, n.driversOf a = .ok (pins, { n with drivers := n.drivers.insert a pins }) ∧
      pins.Nodup ∧ ∀ p, p ∈ pins ↔ n.Reads a p ∧ n.Drives p ∧ n.isSignal p = .ok true := by
  suffices hs : ∃ visited pins, n.sweepFrom n.isSignalDriver a [] = .ok (visited, pins) ∧
      pins.Nodup ∧ ∀ p, p ∈ pins ↔ n.Reads a p ∧ n.Drives p ∧ n.isSignal p = .ok true by
    obtain ⟨visited, pins, hsweep, hpins⟩ := hs
    refine ⟨pins, ?_, hpins⟩
    rw [driversOf, ha]
    exact bind_eq_ok.2 ⟨_, hsweep, rfl⟩
  cases hd : n.design? with
  | none => exact ⟨[], [], by rw [sweepFrom, hd], List.nodup_nil, fun p => by simp [Reads, hd]⟩
  | some d =>
    obtain ⟨grown, pins, hsweep, -, hgrown, hnodup, hpins⟩ :=
      h.sweepFrom_ok hd (fun p hp => h.isSignalDriver_ok hd hp) a []
    refine ⟨grown, pins, hsweep, hnodup, fun p => ?_⟩
    rw [hpins, isSignalDriver_eq_true, reads_iff hd]
    simp only [hgrown, Design.reachedOutside_nil]
    constructor
    · rintro ⟨⟨x, hx, hmeet⟩, hs, hdrv⟩
      exact ⟨⟨x, hx, (Design.meets_leaf hdrv.leaf).1 hmeet⟩, hdrv, hs⟩
    · rintro ⟨⟨x, hx, hon⟩, hdrv, hs⟩
      exact ⟨⟨x, hx, (Design.meets_leaf hdrv.leaf).2 hon⟩, hs, hdrv⟩

theorem Kept.driversOf (h : n.Kept []) (hs : n.Sound) {r : List Pin}
    (e : n.driversOf a = .ok (r, n')) : n'.Kept [] := by
  cases ha : n.drivers.find? a with
  | some pins =>
    rw [driversOf_kept ha] at e
    cases e
    exact h
  | none =>
    obtain ⟨pins, hpins, hnodup, hiff⟩ := hs.driversOf_new ha
    rw [hpins] at e
    cases e
    intro b pins' hb
    have hb' : (n.drivers.insert a r).find? b = some pins' := hb
    rw [OrderedMap.find?_insert] at hb'
    split at hb'
    · next hba =>
      cases hb'
      subst hba
      exact ⟨hnodup, fun p hp => ((hiff p).1 hp).1, fun p hp => .inr ((hiff p).1 hp).2.1,
        fun p hr hdrv hsig => .inr ((hiff p).2 ⟨hr, hdrv, hsig⟩)⟩
    · exact ⟨(h hb').nodup, (h hb').reads, (h hb').drives, (h hb').complete⟩

end DesignView.Network
