import DesignView.Proofs.Network.Current

/-!
Wiring keeps a network current. A pin that is connected is quiet when it is attached and answered
for afterwards; a boundary terminal whose types change is loose until it is connected.
-/

namespace DesignView.Network

variable {n n' : Network} {d d' : Design} {p : Pin} {x : Net} {name : String}

theorem of_connectPin {b : Bool} (e : n.connectPin p x = .ok (b, n')) :
    (b = false ∧ p.isHierarchical = true ∧ ∃ text, n' = n.warn text) ∨
      b = true ∧ ∃ n₁ d d', n.beforeDetach p = .ok n₁ ∧ n₁.design? = some d ∧
        d.attach? p x = some d' ∧ (n₁.withDesign d').afterAttach p = .ok n' := by
  unfold Network.connectPin at e
  split at e
  · cases pure_eq_ok.1 e
    exact .inl ⟨rfl, rfl, _, rfl⟩
  · cases pure_eq_ok.1 e
    exact .inl ⟨rfl, rfl, _, rfl⟩
  · next hmodule hboundary =>
    obtain ⟨n₁, hn₁, e⟩ := bind_eq_ok.1 e
    obtain ⟨d, hd, e⟩ := bind_eq_ok.1 e
    have hsome : ∃ d', d.attach? p x = some d' := by
      cases p <;> cases x
      case module.flat => exact absurd rfl (hmodule _ _ rfl)
      case moduleBoundary.flat => exact absurd rfl (hboundary _ _ rfl)
      all_goals exact ⟨_, rfl⟩
    obtain ⟨d', hd'⟩ := hsome
    rw [hd'] at e
    obtain ⟨n₂, hn₂, e⟩ := bind_eq_ok.1 e
    cases pure_eq_ok.1 e
    exact .inr ⟨rfl, n₁, d, d', hn₁, design_eq_ok.1 hd, hd', hn₂⟩

theorem attach?_wellFormed (h : d.WellFormed) (e : d.attach? p x = some d') : d'.WellFormed := by
  cases p <;> cases x
  case flat.flat t y => cases e; exact h.attachITerm t y
  case flat.module t y => cases e; exact h.attachITermToModNet t y
  case boundary.flat t y => cases e; exact h.attachBTerm t y
  case boundary.module t y => cases e; exact h.attachBTermToModNet t y
  case module.module t y => cases e; exact h.attachModITerm t y
  case moduleBoundary.module t y => cases e; exact h.attachModBTerm t y
  all_goals cases e

theorem attach?_modBTerms (e : d.attach? p x = some d') : d'.modBTerms = d.modBTerms := by
  cases p <;> cases x
  all_goals cases e <;> rfl

theorem Kept.connectPin_leaf (hk : n.Kept [p]) (hs : n.Sound) (hp : p.isHierarchical = false)
    {b : Bool} (e : n.connectPin p x = .ok (b, n')) : n'.Current ∧ n'.Listed p := by
  rcases of_connectPin e with ⟨-, hh, -⟩ | ⟨-, n₁, d, d', e₁, hd₁, hd', e₂⟩
  · cases hp.symm.trans hh
  · have hd : n.design? = some d := (design?_beforeDetach e₁).symm.trans hd₁
    obtain ⟨⟨m, rfl⟩, hk₁, hquiet, -⟩ := hk.beforeDetach hs hd e₁
    have hs₁ := hs.setDrivers m
    have hwf := attach?_wellFormed (hs.db.design hd) hd'
    have hs₂ := hs₁.withDesign hd hwf (attach?_modBTerms hd')
    have hkeeps := Design.attach?_keeps hd'
    have hquiet₂ : (withDesign { n with drivers := m } d').Quiet p := hquiet.of_leaf hp rfl
    have hk₂ : (withDesign { n with drivers := m } d').Kept [p] :=
      (hk₁.mono (by simp)).keeps (hs.db.design hd) hd rfl (.withDesign _ d') hkeeps
        (by simpa using ⟨hquiet, hquiet₂⟩) fun _ _ ha => ha
    obtain ⟨⟨m', rfl⟩, hk₃, hlisted, -⟩ := hk₂.afterAttach_leaf hs₂ rfl hp hquiet₂ e₂
    exact ⟨⟨hs₂.setDrivers m', hk₃⟩, hlisted⟩

theorem Current.listed_of_hierarchical (h : n.Current) (hp : p.isHierarchical = true) :
    n.Listed p := by
  have hnot : ¬n.Drives p := fun hdrv => by cases hp.symm.trans hdrv.leaf
  intro a pins ha
  constructor
  · intro hin
    exact absurd (((h.kept ha).drives p hin).resolve_left List.not_mem_nil) hnot
  · exact fun hr => absurd hr.2 hnot

theorem Current.connectPin (h : n.Current) {b : Bool} (e : n.connectPin p x = .ok (b, n')) :
    n'.Current ∧ n'.Listed p := by
  cases hp : p.isHierarchical with
  | false => exact (h.kept.mono (by simp)).connectPin_leaf h.sound hp e
  | true =>
    suffices hcur : n'.Current from ⟨hcur, hcur.listed_of_hierarchical hp⟩
    rcases of_connectPin e with ⟨-, -, text, rfl⟩ | ⟨-, n₁, d, d', e₁, hd₁, hd', e₂⟩
    · exact h.warn text
    · have hd : n.design? = some d := (design?_beforeDetach e₁).symm.trans hd₁
      have hwf := h.sound.db.design hd
      obtain ⟨⟨m, rfl⟩, hk₁, hquiet, -⟩ := h.kept.beforeDetach h.sound hd e₁
      have hs₂ := (h.sound.setDrivers m).withDesign hd (attach?_wellFormed hwf hd')
        (attach?_modBTerms hd')
      obtain ⟨m', rfl, hm'⟩ := hs₂.of_afterAttach rfl hp e₂
      have hkeeps := Design.attach?_keeps hd'
      -- Between the two steps the pin is read by other nets, so they are taken together.
      have hquiet' : Quiet { n.withDesign d' with drivers := m' } p := fun a pins ha =>
        ⟨(hquiet (hm' ha).1).1, fun _ hr => (hm' ha).2 ((reads_iff rfl).1 hr)⟩
      have hterm : SameTerminals { n with drivers := m } { n.withDesign d' with drivers := m' } :=
        .of_eq rfl rfl rfl
      have hk' : Kept { n.withDesign d' with drivers := m' } [p] :=
        hk₁.keeps hwf hd rfl hterm hkeeps (by simpa using ⟨hquiet, hquiet'⟩)
          fun _ _ ha => (hm' ha).1
      refine ⟨hs₂.setDrivers m', hk'.forget fun q hq => ?_⟩
      obtain rfl := List.mem_singleton.1 hq
      exact ⟨hquiet', fun a _ hdrv => by cases hp.symm.trans hdrv.leaf⟩

theorem of_connectFound {r : Option Pin} (e : n.connectFound p x = .ok (r, n')) :
    ∃ b, n.connectPin p x = .ok (b, n') ∧ ∀ q ∈ r, q = p := by
  obtain ⟨⟨b, n₁⟩, e₁, e⟩ := bind_eq_ok.1 e
  cases pure_eq_ok.1 e
  exact ⟨b, e₁, by cases b <;> simp⟩

theorem Current.connectFound (h : n.Current) {r : Option Pin}
    (e : n.connectFound p x = .ok (r, n')) : n'.Current ∧ ∀ q ∈ r, n'.Listed q := by
  obtain ⟨b, e, hr⟩ := of_connectFound e
  obtain ⟨hcur, hlisted⟩ := h.connectPin e
  exact ⟨hcur, fun q hq => hr q hq ▸ hlisted⟩

theorem detach_wellFormed (h : d.WellFormed) (p : Pin) : (d.detach p).WellFormed := by
  cases p with
  | flat t => exact h.detachITerm t
  | boundary t => exact h.detachBTerm t
  | module t => exact h.detachModITerm t
  | moduleBoundary t => exact h.detachModBTerm t

theorem Current.disconnect (h : n.Current) (e : n.disconnect p = .ok n') : n'.Current := by
  obtain ⟨n₁, e₁, e⟩ := bind_eq_ok.1 e
  obtain ⟨d, hd₁, e⟩ := bind_eq_ok.1 e
  cases pure_eq_ok.1 e
  have hd : n.design? = some d := (design?_beforeDetach e₁).symm.trans (design_eq_ok.1 hd₁)
  obtain ⟨⟨m, rfl⟩, hk₁, hquiet, -⟩ := h.kept.beforeDetach h.sound hd e₁
  have hs₁ := h.sound.setDrivers m
  refine ⟨hs₁.withDesign hd (detach_wellFormed (h.sound.db.design hd) p) (by cases p <;> rfl), ?_⟩
  exact hk₁.settle hs₁ hd rfl rfl (.withDesign _ _) (d.detach_keeps p) (by simpa using hquiet)
    (by simpa using d.detach_not_on p)

theorem Current.createModITerm (h : n.Current) (hd : n.design? = some d) {modInst : ModInstId}
    {id : ModITermId} (e : d.createModITerm modInst name = .ok (id, d')) :
    (n.withDesign d').Current := by
  have hwf := h.sound.db.design hd
  obtain ⟨hkeeps, hoff⟩ := hwf.createModITerm_keeps e
  have hquiet : n.Quiet (.module id) := quiet_of_not_on h.kept hd fun x => (hoff x).1
  refine ⟨h.sound.withDesign hd (hwf.createModITerm e) (hkeeps.modBTerms (by simp)), ?_⟩
  exact (h.kept.mono (by simp)).settle h.sound hd rfl rfl (.withDesign n d') hkeeps
    (by simpa using hquiet) (by simpa using fun x => (hoff x).2)

theorem Current.moduleTerminal (h : n.Current) {modInst : ModInstId} {r : Option ModITermId}
    (e : n.moduleTerminal modInst name = .ok (r, n')) : n'.Current := by
  obtain ⟨d, hd, e⟩ := bind_eq_ok.1 e
  obtain ⟨found?, -, e⟩ := bind_eq_ok.1 e
  cases found? with
  | some id =>
    cases pure_eq_ok.1 e
    exact h
  | none =>
    cases hc : d.createModITerm modInst name with
    | ok made =>
      rw [hc] at e
      cases pure_eq_ok.1 e
      exact h.createModITerm (design_eq_ok.1 hd) hc
    | error refusal =>
      rw [hc] at e
      cases pure_eq_ok.1 e
      exact h.warn _

theorem Current.boundaryTerminal (h : n.Current) {r : Option BTermId}
    (e : n.boundaryTerminal name = .ok (r, n')) : n'.Current := by
  obtain ⟨d, hd, e⟩ := bind_eq_ok.1 e
  have hd := design_eq_ok.1 hd
  have hwf := h.sound.db.design hd
  cases hfound : d.btermNamed? name with
  | some id =>
    rw [hfound] at e
    cases pure_eq_ok.1 e
    exact h
  | none =>
    rw [hfound] at e
    cases hc : d.createBTerm name none with
    | ok made =>
      rw [hc] at e
      cases pure_eq_ok.1 e
      exact h.withDesign hd (hwf.createBTerm hc) (hwf.createBTerm_keeps hc)
    | error refusal =>
      rw [hc] at e
      cases pure_eq_ok.1 e
      exact h.warn _

/-- A boundary terminal whose types change is loose: nobody has looked at its kept answers yet. -/
theorem Current.setBTermTypes (h : n.Current) (hd : n.design? = some d) (id : BTermId)
    (sig : SigType) (io : IoType) : (n.withDesign (d.setBTermTypes id sig io)).Sound ∧
      (n.withDesign (d.setBTermTypes id sig io)).Kept [.boundary id] := by
  have hwf := h.sound.db.design hd
  refine ⟨h.sound.withDesign hd (hwf.setBTermTypes id sig io) rfl, ?_⟩
  have hagree : d.Agree (d.setBTermTypes id sig io) (· ∈ []) :=
    ⟨fun _ _ _ => Iff.rfl, fun _ _ _ _ => Iff.rfl⟩
  refine h.kept.edit hd rfl hagree (by simp) (by simp) (fun _ _ ha => ha)
    (fun p hp hlive hleaf => ?_) hwf
  refine (SameTerminals.withDesign n _).sameClass hd rfl hlive hleaf (fun _ _ _ hy => hy) ?_
  -- The types of a terminal decide about that terminal alone, and it is loose.
  rintro t y rfl hy
  have hne : t ≠ id := fun e => hp (e ▸ List.mem_singleton_self _)
  exact (Table.find?_modify ..).trans ((if_neg hne).trans hy)

theorem setTopPort_catalog (n : Network) (name : String) (direction : PortDirection) :
    ∃ c, n.setTopPort name direction = { n with catalog := c } ∧
      n.catalog.Built n.timing.length c ∧
      (n.catalog.Numbered n.timing.length → ∀ m, c.linkOf? m = n.catalog.linkOf? m) := by
  unfold Network.setTopPort
  split
  · exact ⟨n.catalog, rfl, .refl, fun _ _ => rfl⟩
  · split
    · next port _ =>
      exact ⟨_, rfl, .setDirection _ port direction, fun _ m =>
        n.catalog.linkOf?_setDirection port direction m⟩
    · next top _ _ _ =>
      exact ⟨_, rfl, .addPort _ top name .design direction, fun h m =>
        h.linkOf?_insert m PortSource.noConfusion rfl⟩

theorem Current.topTerminal (h : n.Current) {direction : PortDirection} {r : Option BTermId}
    (e : n.topTerminal name direction = .ok (r, n')) :
    (r = none ∧ n'.Current) ∨ ∃ id, r = some id ∧ n'.Sound ∧ n'.Kept [.boundary id] := by
  obtain ⟨⟨r₁, n₁⟩, e₁, e⟩ := bind_eq_ok.1 e
  have h₁ := h.boundaryTerminal e₁
  cases r₁ with
  | none =>
    cases pure_eq_ok.1 e
    exact .inl ⟨rfl, h₁⟩
  | some id =>
    cases htypes : direction.types? with
    | none =>
      simp only [htypes] at e
      cases e
    | some types =>
      simp only [htypes] at e
      obtain ⟨d, hd, e⟩ := bind_eq_ok.1 e
      cases pure_eq_ok.1 e
      obtain ⟨hs₂, hk₂⟩ := h₁.setBTermTypes (design_eq_ok.1 hd) id types.1 types.2
      obtain ⟨c, hc, hbuilt, hlink⟩ := setTopPort_catalog
        (n₁.withDesign (d.setBTermTypes id types.1 types.2)) name direction
      rw [hc]
      exact .inr ⟨id, rfl, hs₂.setCatalog hbuilt,
        hk₂.sameTerminals hs₂ rfl rfl (.setCatalog (hlink hs₂.ports))⟩

theorem Current.connectTop (h : n.Current) {direction : PortDirection} {r : Option Pin}
    (e : (do
      match ← n.topTerminal name direction with
      | (none, n) => return (none, n)
      | (some id, n) => n.connectFound (.boundary id) x : Except Fault (Option Pin × Network)) =
        .ok (r, n')) : n'.Current ∧ ∀ q ∈ r, n'.Listed q := by
  obtain ⟨⟨r₁, n₁⟩, e₁, e⟩ := bind_eq_ok.1 e
  rcases h.topTerminal e₁ with ⟨rfl, h₁⟩ | ⟨id, rfl, hs₁, hk₁⟩
  · cases pure_eq_ok.1 e
    exact ⟨h₁, by simp⟩
  · obtain ⟨b, e, hr⟩ := of_connectFound e
    obtain ⟨hcur, hlisted⟩ := hk₁.connectPin_leaf hs₁ rfl e
    exact ⟨hcur, fun q hq => hr q hq ▸ hlisted⟩

theorem Current.connect (h : n.Current) {i : Instance} {port : PortId} {r : Option Pin}
    (e : n.connect i port x = .ok (r, n')) : n'.Current ∧ ∀ q ∈ r, n'.Listed q := by
  unfold Network.connect at e
  split at e
  · cases pure_eq_ok.1 e
    exact ⟨h, by simp⟩
  · next p _ =>
    cases i with
    | top => exact h.connectTop e
    | flat id =>
      obtain ⟨d, -, e⟩ := bind_eq_ok.1 e
      obtain ⟨t?, -, e⟩ := bind_eq_ok.1 e
      cases t? with
      | none =>
        cases pure_eq_ok.1 e
        exact ⟨h, by simp⟩
      | some t => exact h.connectFound e
    | module id =>
      obtain ⟨⟨r₁, n₁⟩, e₁, e⟩ := bind_eq_ok.1 e
      have h₁ := h.moduleTerminal e₁
      cases r₁ with
      | none =>
        cases pure_eq_ok.1 e
        exact ⟨h₁, by simp⟩
      | some t => exact h₁.connectFound e

theorem Current.connectTiming (h : n.Current) {i : Instance} {ref : TimingPortRef}
    {r : Option Pin} (e : n.connectTiming i ref x = .ok (r, n')) :
    n'.Current ∧ ∀ q ∈ r, n'.Listed q := by
  unfold Network.connectTiming at e
  split at e
  · split at e
    · cases pure_eq_ok.1 e
      exact ⟨h, by simp⟩
    · exact h.connectTop e
  · obtain ⟨cell?, -, e⟩ := bind_eq_ok.1 e
    split at e
    · cases pure_eq_ok.1 e
      exact ⟨h, by simp⟩
    · exact h.connect e

theorem Current.connectMade (h : n.Current) {net? : Option Net} {r : Option Pin}
    (e : n.connectMade p net? = .ok (r, n')) :
    n'.Current ∧ (net?.isSome → ∀ q ∈ r, n'.Listed q) := by
  cases net? with
  | none =>
    cases pure_eq_ok.1 e
    exact ⟨h, by simp⟩
  | some net =>
    obtain ⟨⟨b, n₁⟩, e₁, e⟩ := bind_eq_ok.1 e
    cases pure_eq_ok.1 e
    obtain ⟨hcur, hlisted⟩ := h.connectPin e₁
    exact ⟨hcur, by simpa using hlisted⟩

theorem Current.makePin (h : n.Current) {i : Instance} {port : PortId} {net? : Option Net}
    {r : Option Pin} (e : n.makePin i port net? = .ok (r, n')) :
    n'.Current ∧ (net?.isSome → ∀ q ∈ r, n'.Listed q) := by
  unfold Network.makePin at e
  cases i with
  | top =>
    cases pure_eq_ok.1 e
    exact ⟨h.congr rfl rfl rfl rfl, by simp⟩
  | flat id =>
    obtain ⟨p?, -, e⟩ := bind_eq_ok.1 e
    cases p? with
    | none =>
      cases pure_eq_ok.1 e
      exact ⟨h, by simp⟩
    | some p => exact h.connectMade e
  | module id =>
    cases hp : n.catalog.port? port with
    | none =>
      simp only [hp] at e
      cases pure_eq_ok.1 e
      exact ⟨h, by simp⟩
    | some p =>
      simp only [hp] at e
      obtain ⟨⟨r₁, n₁⟩, e₁, e⟩ := bind_eq_ok.1 e
      have h₁ := h.moduleTerminal e₁
      cases r₁ with
      | none =>
        cases pure_eq_ok.1 e
        exact ⟨h₁, by simp⟩
      | some t => exact h₁.connectMade e

end DesignView.Network
