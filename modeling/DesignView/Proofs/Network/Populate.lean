import DesignView.Network.Populate
import DesignView.Proofs.Network.Wire

/-!
Making, deleting and replacing keep a network current. What is made is on no net yet; what is
deleted has been quieted, pin by pin, or with all answers around a net; the pins of an instance
whose master is replaced are quiet meanwhile.
-/

namespace DesignView.Network

variable {n n' : Network} {d d' : Design} {p : Pin} {x : Net} {name : String}

theorem Current.makeInstance (h : n.Current) (ref : TimingCellRef) (name : String)
    (parent : Instance) : (n.makeInstance ref name parent).2.Current := by
  unfold Network.makeInstance
  split
  · exact h.warn _
  · split
    · exact h.warn _
    · next master _ =>
      split
      · next id db e =>
        obtain ⟨-, d, d', hd, hd', rfl⟩ := Database.createInst_ok e
        have hwf := h.sound.db.design hd
        exact h.withDesign hd (hwf.createInst (h.sound.db.mtermsOf_names_nodup master) hd')
          (hwf.createInst_keeps hd')
      · exact h.warn _

theorem Current.addTerminals (h : n.Current) {modInst : ModInstId} {names : List String}
    (e : n.addTerminals modInst names = .ok n') : n'.Current := by
  unfold Network.addTerminals at e
  induction names generalizing n with
  | nil =>
    cases pure_eq_ok.1 e
    exact h
  | cons name names ih =>
    obtain ⟨n₁, e₁, e⟩ := bind_eq_ok.1 e
    refine ih ?_ e
    obtain ⟨d, hd, e₁⟩ := bind_eq_ok.1 e₁
    cases hc : d.createModITerm modInst name with
    | ok made =>
      simp only [hc] at e₁
      cases pure_eq_ok.1 e₁
      exact h.createModITerm (design_eq_ok.1 hd) hc
    | error refusal =>
      simp only [hc] at e₁
      cases pure_eq_ok.1 e₁
      exact h.warn _

theorem Current.instantiate (h : n.Current) (hd : n.design? = some d) {within module : ModuleId}
    {r : Option Instance}
    (e : (match d.createModInst within module name with
      | .error refusal => return (none, n.warn refusal.message)
      | .ok (id, d) =>
        return (some (.module id), ← (n.withDesign d).addTerminals id
          ((d.modBTermsOf module).map fun e => e.2.name)) :
        Except Fault (Option Instance × Network)) = .ok (r, n')) : n'.Current := by
  have hwf := h.sound.db.design hd
  cases hc : d.createModInst within module name with
  | error refusal =>
    simp only [hc] at e
    cases pure_eq_ok.1 e
    exact h.warn _
  | ok made =>
    simp only [hc] at e
    obtain ⟨n₁, e₁, e⟩ := bind_eq_ok.1 e
    cases pure_eq_ok.1 e
    exact (h.withDesign hd (hwf.createModInst hc) (hwf.createModInst_keeps hc)).addTerminals e₁

theorem Current.makeModuleInstance (h : n.Current) {cell : CellId} {parent : Instance}
    {r : Option Instance} (e : n.makeModuleInstance cell name parent = .ok (r, n')) :
    n'.Current := by
  unfold Network.makeModuleInstance at e
  split at e
  · cases pure_eq_ok.1 e
    exact h.warn _
  · obtain ⟨c, -, e⟩ := bind_eq_ok.1 e
    split at e
    · cases pure_eq_ok.1 e
      exact h.warn _
    · cases pure_eq_ok.1 e
      exact h.warn _
    · obtain ⟨d, hd, e⟩ := bind_eq_ok.1 e
      cases parent with
      | top => exact h.instantiate (design_eq_ok.1 hd) e
      | module id =>
        obtain ⟨i, -, e⟩ := bind_eq_ok.1 e
        exact h.instantiate (design_eq_ok.1 hd) e
      | flat id =>
        cases pure_eq_ok.1 e
        exact h

theorem Current.makeNet (h : n.Current) {parent : Instance} {r : Option Net}
    (e : n.makeNet name parent = .ok (r, n')) : n'.Current := by
  obtain ⟨d, hd, e⟩ := bind_eq_ok.1 e
  have hd := design_eq_ok.1 hd
  have hwf := h.sound.db.design hd
  cases parent with
  | top =>
    cases hc : d.createNet name with
    | ok made =>
      simp only [hc] at e
      cases pure_eq_ok.1 e
      exact h.withDesign hd (hwf.createNet hc) (Design.createNet_keeps hc)
    | error refusal =>
      simp only [hc] at e
      cases pure_eq_ok.1 e
      exact h.warn _
  | module id =>
    obtain ⟨i, -, e⟩ := bind_eq_ok.1 e
    cases hc : d.createModNet i.master name with
    | ok made =>
      simp only [hc] at e
      cases pure_eq_ok.1 e
      exact h.withDesign hd (hwf.createModNet hc) (Design.createModNet_keeps hc)
    | error refusal =>
      simp only [hc] at e
      cases pure_eq_ok.1 e
      exact h.warn _
  | flat id =>
    cases pure_eq_ok.1 e
    exact h

theorem Current.makeBundle (h : n.Current) {cell : CellId} {members : List PortId}
    {r : Option PortId} (e : n.makeBundle cell name members = .ok (r, n')) : n'.Current := by
  obtain ⟨⟨r₁, c⟩, hc, e⟩ := bind_eq_ok.1 e
  cases pure_eq_ok.1 e
  exact ⟨h.sound.setCatalog (.bundle hc), h.kept.sameTerminals h.sound rfl rfl
    (.setCatalog (h.sound.ports.linkOf?_bundle hc))⟩

theorem Current.destroy (h : n.Current) (hd : n.design? = some d) {pins : List Pin} {n₁ : Network}
    (e : pins.foldlM Network.beforeDetach n = .ok n₁) (hwf : d'.WellFormed)
    (hb : d'.modBTerms = d.modBTerms) (hkeeps : d.Keeps d' pins)
    (hoff : ∀ p ∈ pins, ∀ x, ¬d'.On p x) : (n₁.withDesign d').Current := by
  obtain ⟨⟨m, rfl⟩, hk₁, hquiet, -⟩ := h.kept.beforeDetachAll h.sound hd e
  have hs₁ := h.sound.setDrivers m
  refine ⟨hs₁.withDesign hd hwf hb, ?_⟩
  exact (hk₁.mono (by simp)).settle hs₁ hd rfl rfl (.withDesign _ d') hkeeps hquiet hoff

theorem Current.destroyPin (h : n.Current) (hd : n.design? = some d) {n₁ : Network}
    (e : n.beforeDetach p = .ok n₁) (hwf : d'.WellFormed) (hb : d'.modBTerms = d.modBTerms)
    (hkeeps : d.Keeps d' [p]) (hoff : ∀ x, ¬d'.On p x) : (n₁.withDesign d').Current := by
  have hone : [p].foldlM Network.beforeDetach n = .ok n₁ := bind_eq_ok.2 ⟨n₁, e, rfl⟩
  exact h.destroy hd hone hwf hb hkeeps fun q hq => List.mem_singleton.1 hq ▸ hoff

theorem Current.deleteInstance (h : n.Current) {i : Instance}
    (e : n.deleteInstance i = .ok n') : n'.Current := by
  cases i with
  | top =>
    cases pure_eq_ok.1 e
    exact h.warn _
  | flat id =>
    obtain ⟨d, hd, e⟩ := bind_eq_ok.1 e
    obtain ⟨i, hi, e⟩ := bind_eq_ok.1 e
    obtain ⟨n₁, e₁, e⟩ := bind_eq_ok.1 e
    have hlive : id ∈ d.insts.ids := Table.mem_ids_of_find? (Table.fetch_eq_ok.1 hi)
    obtain ⟨d', hd'⟩ : ∃ d', d.destroyInst id = .ok d' :=
      ⟨_, bind_eq_ok.2 ⟨(), Table.requireLive_eq_ok.2 hlive, rfl⟩⟩
    rw [hd'] at e
    cases pure_eq_ok.1 e
    have hd := design_eq_ok.1 hd
    obtain ⟨hkeeps, hoff⟩ := Design.destroyInst_keeps hd'
    exact h.destroy hd e₁ ((h.sound.db.design hd).destroyInst hd') (hkeeps.modBTerms (by simp))
      hkeeps hoff
  | module id =>
    obtain ⟨d, hd, e⟩ := bind_eq_ok.1 e
    obtain ⟨i, hi, e⟩ := bind_eq_ok.1 e
    obtain ⟨n₁, e₁, e⟩ := bind_eq_ok.1 e
    have hlive : id ∈ d.modInsts.ids := Table.mem_ids_of_find? (Table.fetch_eq_ok.1 hi)
    obtain ⟨d', hd'⟩ : ∃ d', d.destroyModInst id = .ok d' :=
      ⟨_, bind_eq_ok.2 ⟨(), Table.requireLive_eq_ok.2 hlive, rfl⟩⟩
    rw [hd'] at e
    cases pure_eq_ok.1 e
    have hd := design_eq_ok.1 hd
    have hwf := h.sound.db.design hd
    obtain ⟨hkeeps, hoff⟩ := hwf.destroyModInst_keeps hd'
    exact h.destroy hd e₁ (hwf.destroyModInst hd') (hkeeps.modBTerms (by simp)) hkeeps hoff

theorem Sound.destroyModBTerm (h : n.Sound) (hd : n.design? = some d) {id : ModBTermId}
    (e : d.destroyModBTerm id = .ok d') :
    (Network.withDesign { n with catalog := n.catalog.forgetBoundary id } d').Sound := by
  have hwf := h.db.design hd
  have hwf' := hwf.destroyModBTerm e
  refine ⟨h.db.setDesign hwf', h.ports.narrow (Nat.le_refl _) fun _ he => he,
    OrderedMap.keys_nodup_filter h.boundaryKeys _, fun _ e' m name => ?_⟩
  cases e'
  have hfind : (n.catalog.forgetBoundary id).boundary? m name =
      (n.catalog.boundary? m name).filter fun b => b ≠ id :=
    OrderedMap.find?_filter h.boundaryKeys ..
  refine hfind.trans (Option.ext fun b => ?_)
  rw [Option.filter_eq_some_iff, h.boundaries hd, Design.modBTermNamed?, Design.modBTermNamed?,
    hwf.modBTermNames.firstIn?_eq_some_iff hwf.modBTerms,
    hwf'.modBTermNames.firstIn?_eq_some_iff hwf'.modBTerms]
  obtain ⟨-, rfl⟩ := Design.destroyModBTerm_ok e
  simp only [Table.find?_erase, decide_eq_true_eq]
  by_cases hb : b = id <;> simp [hb]

theorem Current.deletePin (h : n.Current) (e : n.deletePin p = .ok n') : n'.Current := by
  cases p with
  | flat t => cases e
  | boundary id =>
    obtain ⟨n₁, e₁, e⟩ := bind_eq_ok.1 e
    obtain ⟨d, hd₁, e⟩ := bind_eq_ok.1 e
    cases pure_eq_ok.1 e
    have hd : n.design? = some d := (design?_beforeDetach e₁).symm.trans (design_eq_ok.1 hd₁)
    obtain ⟨d', hd'⟩ : ∃ d', d.destroyBTerm id = .ok d' :=
      ⟨_, bind_eq_ok.2 ⟨(), Table.requireLive_eq_ok.2 (live_of_beforeDetach hd e₁), rfl⟩⟩
    rw [hd']
    obtain ⟨hkeeps, hoff⟩ := Design.destroyBTerm_keeps hd'
    exact h.destroyPin hd e₁ ((h.sound.db.design hd).destroyBTerm hd') (hkeeps.modBTerms (by simp))
      hkeeps hoff
  | module id =>
    obtain ⟨n₁, e₁, e⟩ := bind_eq_ok.1 e
    obtain ⟨d, hd₁, e⟩ := bind_eq_ok.1 e
    cases pure_eq_ok.1 e
    have hd : n.design? = some d := (design?_beforeDetach e₁).symm.trans (design_eq_ok.1 hd₁)
    obtain ⟨d', hd'⟩ : ∃ d', d.destroyModITerm id = .ok d' :=
      ⟨_, bind_eq_ok.2 ⟨(), Table.requireLive_eq_ok.2 (live_of_beforeDetach hd e₁), rfl⟩⟩
    rw [hd']
    obtain ⟨hkeeps, hoff⟩ := Design.destroyModITerm_keeps hd'
    exact h.destroyPin hd e₁ ((h.sound.db.design hd).destroyModITerm hd')
      (hkeeps.modBTerms (by simp)) hkeeps hoff
  | moduleBoundary id =>
    obtain ⟨n₁, e₁, e⟩ := bind_eq_ok.1 e
    obtain ⟨d, hd₁, e⟩ := bind_eq_ok.1 e
    cases pure_eq_ok.1 e
    have hd : n.design? = some d := (design?_beforeDetach e₁).symm.trans (design_eq_ok.1 hd₁)
    obtain ⟨d', hd'⟩ : ∃ d', d.destroyModBTerm id = .ok d' :=
      ⟨_, bind_eq_ok.2 ⟨(), Table.requireLive_eq_ok.2 (live_of_beforeDetach hd e₁), rfl⟩⟩
    rw [hd']
    obtain ⟨hkeeps, hoff⟩ := Design.destroyModBTerm_keeps hd'
    obtain ⟨⟨m, rfl⟩, hk₁, hquiet, -⟩ := h.kept.beforeDetach h.sound hd e₁
    have hs₁ := h.sound.setDrivers m
    have hterm : SameTerminals { n with drivers := m }
        (Network.withDesign { n with drivers := m, catalog := n.catalog.forgetBoundary id } d') :=
      ⟨rfl, fun _ => rfl⟩
    exact ⟨hs₁.destroyModBTerm hd hd', hk₁.settle hs₁ hd rfl rfl hterm hkeeps
      (by simpa using hquiet) (by simpa using hoff)⟩

theorem Current.withoutNet (h : n.Current) (hd : n.design? = some d) {n₁ : Network}
    (e : n.beforeDelete x = .ok n₁) (hwf : d'.WellFormed) (hb : d'.modBTerms = d.modBTerms)
    (hon : ∀ p y, d'.On p y ↔ d.On p y ∧ y ≠ x) (hfaces : ∀ p q, d'.Faces p q ↔ d.Faces p q)
    (hiterms : d'.iterms = d.iterms) (hbterms : d'.bterms = d.bterms) :
    (n₁.withDesign d').Current := by
  obtain ⟨m, rfl, hm⟩ := h.sound.of_beforeDelete hd e
  refine ⟨(h.sound.setDrivers m).withDesign hd hwf hb, ?_⟩
  have hterm : n.SameTerminals (Network.withDesign { n with drivers := m } d') :=
    .of_eq rfl rfl rfl
  refine h.kept.transfer (fun _ hp => hp) (fun a pins ha => ⟨(hm ha).1, fun p => .inl ?_⟩) ?_
  · rw [reads_iff hd, reads_iff rfl]
    exact Design.reads_iff_of_without hon hfaces fun hj => (hm ha).2 hj.symm
  · rintro p a - hr hleaf
    obtain ⟨y, -, hp⟩ := (reads_iff hd).1 hr
    exact hterm.sameClass hd rfl ((h.sound.db.design hd).live_of_on hp).1 hleaf
      (fun _ _ _ hy => hiterms ▸ hy) fun _ _ _ hy => hbterms ▸ hy

theorem Current.dropped (h : n.Current) (hd : n.design? = some d)
    (e : n.beforeDelete x = .ok n') : n'.Current := by
  obtain ⟨m, rfl, hm⟩ := h.sound.of_beforeDelete hd e
  exact ⟨h.sound.setDrivers m, fun a pins ha =>
    have hcur := h.kept (hm ha).1
    ⟨hcur.nodup, hcur.reads, hcur.drives, hcur.complete⟩⟩

theorem Current.deleteNet (h : n.Current) (e : n.deleteNet x = .ok n') : n'.Current := by
  obtain ⟨n₁, e₁, e⟩ := bind_eq_ok.1 e
  obtain ⟨d, hd₁, e⟩ := bind_eq_ok.1 e
  have hd : n.design? = some d := (design?_beforeDelete e₁).symm.trans (design_eq_ok.1 hd₁)
  have hwf := h.sound.db.design hd
  cases x with
  | flat id =>
    cases pure_eq_ok.1 e
    cases hc : d.destroyNet id with
    | error refusal => exact (h.dropped hd e₁).congr rfl rfl rfl rfl
    | ok d' =>
      have hcur : (n₁.withDesign d').Current := by
        obtain ⟨-, rfl⟩ := Design.destroyNet_ok hc
        exact h.withoutNet hd e₁ (hwf.destroyNet hc) rfl (fun _ _ => hwf.destroyNet_on hc)
          (fun _ _ => Iff.rfl) rfl rfl
      exact hcur.congr rfl rfl rfl rfl
  | module id =>
    cases pure_eq_ok.1 e
    cases hc : d.destroyModNet id with
    | error refusal => exact (h.dropped hd e₁).warn _
    | ok d' =>
      obtain ⟨-, rfl⟩ := Design.destroyModNet_ok hc
      exact h.withoutNet hd e₁ (hwf.destroyModNet hc) rfl (fun _ _ => hwf.destroyModNet_on hc)
        (fun _ _ => Iff.rfl) rfl rfl

theorem nodup_leafPins (h : d.WellFormed) (inst : InstId) :
    ((d.itermsOf inst).map fun e => Pin.flat e.1).Nodup := by
  have hids : ((d.itermsOf inst).map (·.1)).Nodup := h.iterms.nodup_map_select _
  have hpins := hids.map (f := Pin.flat) fun _ _ => Pin.flat.inj
  rw [List.map_map] at hpins
  exact hpins

theorem isHierarchical_leafPins {inst : InstId}
    (hp : p ∈ (d.itermsOf inst).map fun e => Pin.flat e.1) : p.isHierarchical = false := by
  obtain ⟨e, -, rfl⟩ := List.mem_map.1 hp
  rfl

theorem Kept.rebind {inst : InstId} (hk : n.Kept ((d.itermsOf inst).map fun e => Pin.flat e.1))
    (hs : n.Sound) (hd : n.design? = some d) (master : MasterId) (terms : List (MTermId × MTerm)) :
    (n.withDesign (d.rebind inst master terms)).Kept
      ((d.itermsOf inst).map fun e => Pin.flat e.1) := by
  have hwf := hs.db.design hd
  have hagree : d.Agree (d.rebind inst master terms) (· ∈ []) :=
    ⟨fun _ _ _ => Iff.rfl, fun _ _ _ _ => Iff.rfl⟩
  refine hk.edit hd rfl hagree (fun _ hp => hp) (by simp) (fun _ _ ha => ha)
    (fun p hp hlive hleaf => ?_) hwf
  refine (SameTerminals.withDesign n _).sameClass hd rfl hlive hleaf ?_ fun _ _ _ hy => hy
  -- A terminal of the instance would be loose.
  rintro t y rfl hy
  have hne : y.inst ≠ inst := by
    intro e
    have hin : (t, y) ∈ d.itermsOf inst := hwf.iterms.mem_select.2 ⟨hy, decide_eq_true e⟩
    exact hp (List.mem_map.2 ⟨(t, y), hin, rfl⟩)
  obtain ⟨f, -, hiterms⟩ := d.exists_rebind_iterms inst master terms
  rw [hiterms, Table.find?_modifyWhere, hy]
  simp [hne]

theorem Current.replaceCell (h : n.Current) {i : Instance} {cell : CellId}
    {r : Except Refusal Unit} (e : n.replaceCell i cell = .ok (r, n')) :
    n'.Current ∧ ∀ d t x, n.design? = some d → d.iterms.find? t = some x → i = .flat x.inst →
      n'.Listed (.flat t) := by
  cases i with
  | top | module => cases e
  | flat id =>
    obtain ⟨c, -, e⟩ := bind_eq_ok.1 e
    split at e
    · cases e
    · cases e
    · next master _ =>
      obtain ⟨d, hd, e⟩ := bind_eq_ok.1 e
      obtain ⟨i, hi, e⟩ := bind_eq_ok.1 e
      obtain ⟨n₁, e₁, e⟩ := bind_eq_ok.1 e
      have hd := design_eq_ok.1 hd
      have hwf := h.sound.db.design hd
      obtain ⟨⟨m, rfl⟩, hk₁, hquiet, -⟩ := h.kept.beforeDetachAll h.sound hd e₁
      rw [List.append_nil] at hk₁
      have hs₁ := h.sound.setDrivers m
      have hnodup := nodup_leafPins hwf id
      suffices hall : n'.Current ∧ ∀ p ∈ (d.itermsOf id).map fun e => Pin.flat e.1, n'.Listed p by
        refine ⟨hall.1, fun d₀ t x hd₀ hx hi => hall.2 _ (List.mem_map.2 ⟨(t, x), ?_, rfl⟩)⟩
        obtain rfl : d = d₀ := Option.some.inj (hd.symm.trans hd₀)
        exact hwf.iterms.mem_select.2 ⟨hx, decide_eq_true (Instance.flat.inj hi).symm⟩
      cases hc : n.db.swapMaster id master with
      | error refusal =>
        simp only [hc] at e
        obtain ⟨n₂, e₂, e⟩ := bind_eq_ok.1 e
        cases pure_eq_ok.1 e
        obtain ⟨⟨m', rfl⟩, hk₂, hlisted, -⟩ := hk₁.afterAttachAll hs₁ hd hnodup
          (fun _ => isHierarchical_leafPins) hquiet e₂
        exact ⟨⟨hs₁.setDrivers m', hk₂⟩, hlisted⟩
      | ok db =>
        simp only [hc] at e
        obtain ⟨n₂, e₂, e⟩ := bind_eq_ok.1 e
        cases pure_eq_ok.1 e
        obtain ⟨d₀, i, hd₀, -, -, -, rfl⟩ := Database.swapMaster_ok hc
        obtain rfl : d = d₀ := Option.some.inj (hd.symm.trans hd₀)
        have hs₂ := hs₁.withDesign hd (hwf.rebind id master (n.db.mtermsOf master)) rfl
        have hk₂ := hk₁.rebind hs₁ hd master (n.db.mtermsOf master)
        have hquiet₂ : ∀ p ∈ (d.itermsOf id).map fun e => Pin.flat e.1,
            (Network.withDesign { n with drivers := m }
              (d.rebind id master (n.db.mtermsOf master))).Quiet p := fun p hp =>
          (hquiet p hp).of_leaf (isHierarchical_leafPins hp) rfl
        obtain ⟨⟨m', rfl⟩, hk₃, hlisted, -⟩ := hk₂.afterAttachAll hs₂ rfl hnodup
          (fun _ => isHierarchical_leafPins) hquiet₂ e₂
        exact ⟨⟨hs₂.setDrivers m', hk₃⟩, hlisted⟩

end DesignView.Network
