import DesignView.Proofs.Network.Mirror

/-!
What a network shows of its design.
-/

namespace DesignView

open Catalog (Rebuilds)

namespace Network

variable {n n' : Network} {d : Design} {c c' c'' : Catalog} {db : Database}

theorem rebuilds_loadTopCell (hm : n.catalog.Mirrors n.db) (d : Design) :
    (n.loadTopCell d).settings = n.settings ∧ (n.loadTopCell d).db = n.db ∧
      Rebuilds n.db .design n.catalog (n.loadTopCell d).catalog ∧
      (n.loadTopCell d).catalog.ShowsTop d := by
  obtain ⟨c, hc⟩ : ∃ c, c = ((n.catalog.without .design).addLibrary d.name .design).2 := ⟨_, rfl⟩
  obtain ⟨hnew, hlibrary, hempty⟩ := hm.anew .design d.name hc
  obtain ⟨c', hc'⟩ : ∃ c', c' = d.bterms.entries.foldl (fun c' e =>
    (c'.addPort ⟨c.count + 1⟩ e.2.name .design (.ofTypes e.2.sig e.2.io)).2)
      (c.addCell ⟨(n.catalog.without .design).count + 1⟩ d.name .design).2 := ⟨_, rfl⟩
  obtain ⟨hbuilt, g, hcell, hports⟩ := hnew.mirrors.buildCell hlibrary rfl
    (fun x l hx hl => hempty x l hx (hl ▸ rfl)) d.name (·.2.name) (fun _ => .design)
    (fun e => .ofTypes e.2.sig e.2.io) d.bterms.entries (fun _ _ _ h => by cases h) hc'
  have r : Regroups { n with catalog := c' } (n.loadTopCell d) := by
    rw [hc', hc]
    exact .groupCell ..
  have hrest : Rebuilds n.db .design c c' := .of_gains hbuilt g (fun l hl => hl ▸ rfl) (by
    rintro - l b ⟨e, -, rfl⟩ hb
    cases hb)
  have htop : c'.ShowsTop d := by
    refine ⟨_, _, hcell, fun b t hb => ?_⟩
    obtain ⟨⟨p, hp⟩, -⟩ := hports (b, t) (OrderedMap.mem_of_find? hb)
    exact ⟨p, _, hp, rfl, rfl⟩
  have hgroup : Rebuilds n.db .modules c' (n.loadTopCell d).catalog := r.rebuilds hbuilt
  exact ⟨r.settings, r.db, (hnew.trans hrest).trans (r.rebuilds hbuilt),
    hgroup.showsTop LibrarySource.noConfusion htop⟩

structure ModuleCells (db : Database) (d : Design) (c c' : Catalog) : Prop where
  mirrors : c'.Mirrors db
  gains : c.Gains (fun l => ∃ m, l.source = .module m) (fun _ => True) c'
  boundaries : c'.ShowsBoundaries d

namespace ModuleCells

theorem rebuilds (h : ModuleCells db d c c') : Rebuilds db .modules c c' := by
  refine .of_gains h.mirrors h.gains ?_ fun hne => absurd rfl hne
  rintro ⟨library, source⟩ ⟨m, rfl⟩
  rfl

theorem showsBoundaries (h : ModuleCells db d c c') (hwf : d.WellFormed) {library : LibraryId}
    {m : ModuleId} (hfree : ¬c'.ShowsModule m) (hbuilt : c''.Mirrors db)
    (g : c'.Gains (· = ⟨library, .module m⟩) (fun l => ∃ e ∈ d.modBTermsOf m,
      l = ⟨e.2.name, ⟨c'.count + 1⟩, .moduleBoundary e.1⟩) c'')
    (hcell : c''.cellLabel? ⟨c'.count + 1⟩ = some ⟨library, .module m⟩)
    (hports : ∀ e ∈ d.modBTermsOf m, ∀ b, PortSource.moduleBoundary e.1 = .moduleBoundary b →
      ∃ p, c''.boundaryPorts.find? b = some p ∧ ∃ e' ∈ d.modBTermsOf m,
        PortSource.moduleBoundary e'.1 = .moduleBoundary b ∧
          c''.portLabel? p = some ⟨e'.2.name, ⟨c'.count + 1⟩, .moduleBoundary e'.1⟩) :
    c''.ShowsBoundaries d := by
  have hterms {b : ModBTermId} {t : ModBTerm} : (b, t) ∈ d.modBTermsOf m ↔
      d.modBTerms.find? b = some t ∧ t.module = m := by
    rw [Design.modBTermsOf, hwf.modBTerms.mem_select, decide_eq_true_eq]
  intro b t x lib ht hx
  rcases g.addedCells hx with hold | hnew
  · obtain ⟨p, l, hbp, hp, hlx, hname⟩ := h.boundaries ht hold
    rcases g.boundaryPorts b with hsame | ⟨p', l', -, -, hsource, ⟨b', t'⟩, he, rfl⟩
    · exact ⟨p, l, hsame.trans hbp, g.keptPorts hp, hlx, hname⟩
    · -- The terminal is not one of the module, whose cell has only been built now.
      obtain ⟨ht', rfl⟩ := hterms.1 he
      cases hsource
      cases ht.symm.trans ht'
      exact absurd ⟨x, lib, hold⟩ hfree
  · cases hnew
    obtain rfl : x = ⟨c'.count + 1⟩ := hbuilt.cells hx hcell rfl
    obtain ⟨p, hp, ⟨b', t'⟩, he, hsource, hl⟩ := hports (b, t) (hterms.2 ⟨ht, rfl⟩) b rfl
    cases hsource
    cases ht.symm.trans (hterms.1 he).1
    exact ⟨p, _, hp, hl, rfl, rfl⟩

theorem add (h : ModuleCells db d c c') (hwf : d.WellFormed) {library : LibraryId} {m : ModuleId}
    (hlibrary : c.librarySource? library = some .modules) (hfree : ¬c'.ShowsModule m)
    {name : String} (hc : c'' = (addModuleCell c' library d m name).2) :
    ModuleCells db d c c'' ∧ c''.ShowsModule m ∧ ∀ m', c'.ShowsModule m' → c''.ShowsModule m' := by
  have hlibrary' : c'.librarySource? library = some .modules := by
    rw [Catalog.librarySource?, h.gains.libraries]
    exact hlibrary
  have hnone : ∀ x l, c'.cellLabel? x = some l → l.source ≠ .module m := by
    rintro x ⟨lib, _⟩ hx rfl
    exact hfree ⟨x, lib, hx⟩
  obtain ⟨hbuilt, g, hcell, hports⟩ := h.mirrors.buildCell hlibrary' rfl hnone name (·.2.name)
    (.moduleBoundary ·.1) (fun e => .ofTypes e.2.sig e.2.io) (d.modBTermsOf m)
    (fun _ _ _ h => by cases h) hc
  have hgains : c.Gains (fun l => ∃ m, l.source = .module m) (fun _ => True) c'' :=
    h.gains.trans (g.mono (fun l hl => ⟨m, hl ▸ rfl⟩) fun _ _ => trivial)
  refine ⟨⟨hbuilt, hgains, h.showsBoundaries hwf hfree hbuilt g hcell fun e he => (hports e he).2⟩,
    ⟨_, _, hcell⟩, ?_⟩
  rintro m' ⟨x, lib, hx⟩
  exact ⟨x, lib, g.keptCells hx⟩

end ModuleCells

theorem rebuilds_loadModuleCells (hm : n.catalog.Mirrors n.db) (hwf : d.WellFormed)
    (hnone : ∀ a, n.catalog.librarySource? a ≠ some .modules)
    (e : n.loadModuleCells d = .ok n') : n'.settings = n.settings ∧ n'.db = n.db ∧
      Rebuilds n.db .modules n.catalog n'.catalog ∧ n'.catalog.ShowsBoundaries d ∧
      ∀ i a, d.modInsts.find? i = some a → n'.catalog.ShowsModule a.master := by
  obtain ⟨⟨c', added⟩, hcells, e⟩ := bind_eq_ok.1 e
  cases pure_eq_ok.1 e
  have hnew : Rebuilds n.db .modules n.catalog
      (n.catalog.addLibrary n.settings.moduleLibrary .modules).2 := .addLibrary hm hnone _
  have hlibrary : (n.catalog.addLibrary n.settings.moduleLibrary .modules).2.librarySource?
      ⟨n.catalog.count + 1⟩ = some .modules := by
    rw [Catalog.librarySource?_addLibrary, if_pos rfl]
  have hstart : (n.catalog.addLibrary n.settings.moduleLibrary .modules).2.ShowsBoundaries d :=
    hm.showsBoundaries_of_none hnone d
  have hfold : ModuleCells n.db d
      (n.catalog.addLibrary n.settings.moduleLibrary .modules).2 c' ∧
        ∀ e ∈ d.modInsts.entries, c'.ShowsModule e.2.master := by
    refine foldlM_ok_forall
      (motive := fun acc : Catalog × List (CellId × String) => ModuleCells n.db d
        (n.catalog.addLibrary n.settings.moduleLibrary .modules).2 acc.1)
      (P := fun acc (e : ModInstId × ModInst) => acc.1.ShowsModule e.2.master)
      (fun acc e acc' hacc hstep => ?_) ⟨hnew.mirrors, .refl hnew.mirrors.tidy, hstart⟩ hcells
    dsimp only at hstep
    split at hstep
    · next hsome =>
      cases pure_eq_ok.1 hstep
      exact ⟨hacc, hacc.mirrors.cellOfModule?_isSome.1 hsome, fun _ h => h⟩
    · next hfree =>
      obtain ⟨m, -, hstep⟩ := bind_eq_ok.1 hstep
      cases pure_eq_ok.1 hstep
      obtain ⟨hadded, hmodule, hkept⟩ :=
        hacc.add hwf hlibrary (mt hacc.mirrors.cellOfModule?_isSome.2 hfree) rfl
      exact ⟨hadded, hmodule, fun e' => hkept e'.2.master⟩
  obtain ⟨hbuilt, hall⟩ := hfold
  have r : Regroups { n with catalog := c' }
      (added.foldl (fun n e => n.groupCell e.1 e.2) { n with catalog := c' }) := .groupCells _ added
  have hgroup : Rebuilds n.db .design c' _ := r.rebuilds hbuilt.mirrors
  refine ⟨r.settings, r.db, (hnew.trans hbuilt.rebuilds).trans (r.rebuilds hbuilt.mirrors),
    hgroup.showsBoundaries LibrarySource.noConfusion hbuilt.boundaries, fun i a hi => ?_⟩
  exact hgroup.showsModule LibrarySource.noConfusion (hall (i, a) (OrderedMap.mem_of_find? hi))

/-- The catalog mirrors the database. It shows the terminals of all masters, the boundary of the
design and the boundaries of the modules that have cells; with the hierarchy, all instantiated
modules have. -/
structure Shown (n : Network) : Prop where
  mirrors : n.catalog.Mirrors n.db
  mterms : ∀ t ∈ n.db.mterms.ids, n.catalog.ShowsMTerm t
  top : ∀ ⦃d⦄, n.design? = some d → n.catalog.ShowsTop d
  boundaries : ∀ ⦃d⦄, n.design? = some d → n.catalog.ShowsBoundaries d
  modules : n.hierarchy = true → ∀ ⦃d⦄, n.design? = some d →
    ∀ ⦃i a⦄, d.modInsts.find? i = some a → n.catalog.ShowsModule a.master

theorem Shown.of_design (hd : n.design? = some d) (hm : n.catalog.Mirrors n.db)
    (hmterms : ∀ t ∈ n.db.mterms.ids, n.catalog.ShowsMTerm t) (htop : n.catalog.ShowsTop d)
    (hboundaries : n.catalog.ShowsBoundaries d) (hmodules : n.hierarchy = true →
      ∀ ⦃i a⦄, d.modInsts.find? i = some a → n.catalog.ShowsModule a.master) : n.Shown := by
  have hsame {d' : Design} (hd' : n.design? = some d') : d = d' :=
    Option.some.inj (hd.symm.trans hd')
  exact ⟨hm, hmterms, fun _ hd' => hsame hd' ▸ htop, fun _ hd' => hsame hd' ▸ hboundaries,
    fun hh _ hd' => hsame hd' ▸ hmodules hh⟩

theorem Shown.of_none (hnone : n.design? = none) (hm : n.catalog.Mirrors n.db)
    (hmterms : ∀ t ∈ n.db.mterms.ids, n.catalog.ShowsMTerm t) : n.Shown := by
  have habsurd {d : Design} (hd : n.design? = some d) : False := by
    cases hnone.symm.trans hd
  exact ⟨hm, hmterms, fun _ hd => (habsurd hd).elim, fun _ hd => (habsurd hd).elim,
    fun _ _ hd => (habsurd hd).elim⟩

theorem withoutModules_eq (n : Network) :
    n.withoutModules = { n with catalog := n.catalog.without .modules } := by
  unfold Network.withoutModules Catalog.without Catalog.moduleLibrary?
  cases n.catalog.libraries.firstKey? fun l => l.source = .modules with
  | some old => rfl
  | none => rfl

theorem rebuilds_afterTopCell (hm : n.catalog.Mirrors n.db) (hdb : n.db.WellFormed)
    (hd : n.design? = some d) (e : n.loadDesign = .ok n') : n'.db = n.db ∧
      Rebuilds n.db .modules (n.loadTopCell d).catalog n'.catalog ∧
      n'.catalog.ShowsBoundaries d ∧ (n'.hierarchy = true →
        ∀ ⦃i a⦄, d.modInsts.find? i = some a → n'.catalog.ShowsModule a.master) := by
  obtain ⟨d', m, n₁, hd', rfl, hmodules, hdb', hsettings, hcatalog⟩ := of_loadDesign e
  obtain rfl : d = d' := Option.some.inj (hd.symm.trans hd')
  obtain ⟨-, hdbt, rt, -⟩ := rebuilds_loadTopCell hm d
  rw [withoutModules_eq] at hmodules
  generalize n.loadTopCell d = t at hdbt rt hmodules ⊢
  obtain ⟨ro, hnone⟩ := rt.mirrors.without .modules
  obtain ⟨hdb₁, r₁, hboundaries, hall⟩ : n₁.db = n.db ∧
      Rebuilds n.db .modules (t.catalog.without .modules) n₁.catalog ∧
      n₁.catalog.ShowsBoundaries d ∧ (n₁.hierarchy = true →
        ∀ i a, d.modInsts.find? i = some a → n₁.catalog.ShowsModule a.master) := by
    rcases hmodules with ⟨-, e₁⟩ | ⟨hh, rfl⟩
    · have hmt : (t.catalog.without .modules).Mirrors t.db := hdbt.symm ▸ ro.mirrors
      obtain ⟨-, hdb₁, r₁, hboundaries, hall⟩ :=
        rebuilds_loadModuleCells hmt (hdb.design hd) hnone e₁
      exact ⟨hdb₁.trans hdbt, hdbt ▸ r₁, hboundaries, fun _ => hall⟩
    · exact ⟨hdbt, .refl ro.mirrors, ro.mirrors.showsBoundaries_of_none hnone d,
        fun h => by cases hh.symm.trans h⟩
  have ri (s : LibrarySource) : Rebuilds n.db s n₁.catalog n'.catalog := by
    have hm₁ : n₁.catalog.Mirrors n₁.db := hdb₁.symm ▸ r₁.mirrors
    rw [hcatalog, ← hdb₁]
    exact (Regroups.indexBoundaries n₁ d).rebuilds hm₁
  refine ⟨hdb'.trans hdb₁, (ro.trans r₁).trans (ri .modules),
    (ri .design).showsBoundaries LibrarySource.noConfusion hboundaries, fun hh i a hi => ?_⟩
  have hh₁ : n₁.hierarchy = true := (congrArg Settings.hierarchy hsettings).symm.trans hh
  exact (ri .design).showsModule LibrarySource.noConfusion (hall hh₁ i a hi)

theorem shown_of_loadDesign (hm : n.catalog.Mirrors n.db) (hdb : n.db.WellFormed)
    (hmterms : ∀ t ∈ n.db.mterms.ids, n.catalog.ShowsMTerm t) (e : n.loadDesign = .ok n') :
    n'.Shown := by
  obtain ⟨d, -, -, hd, -⟩ := of_loadDesign e
  obtain ⟨-, -, rt, htop⟩ := rebuilds_loadTopCell hm d
  obtain ⟨hdb', rm, hboundaries, hmodules⟩ := rebuilds_afterTopCell hm hdb hd e
  have hd' : n'.design? = some d := (congrArg Database.design? hdb').trans hd
  refine .of_design hd' (hdb'.symm ▸ rm.mirrors) (fun x hx => ?_)
    (rm.showsTop LibrarySource.noConfusion htop) hboundaries hmodules
  rw [hdb'] at hx
  have hshown : (n.loadTopCell d).catalog.ShowsMTerm x :=
    rt.showsMTerm_of_ne hm (fun _ => LibrarySource.noConfusion) (hmterms x hx)
  exact rm.showsMTerm_of_ne rt.mirrors (fun _ => LibrarySource.noConfusion) hshown

theorem Shown.of_rebuilds (h : n.Shown) (hsettings : n'.settings = n.settings) (hdb : n'.db = n.db)
    {lib : LibId} (r : Rebuilds n.db (.physical lib) n.catalog n'.catalog)
    (hmterms : ∀ t ∈ n.db.mterms.ids, n'.catalog.ShowsMTerm t) : n'.Shown := by
  have hdesign : n'.design? = n.design? := congrArg Database.design? hdb
  have hhierarchy : n'.hierarchy = n.hierarchy := congrArg Settings.hierarchy hsettings
  refine ⟨hdb.symm ▸ r.mirrors, hdb.symm ▸ hmterms, fun d e => ?_, fun d e => ?_,
    fun hh d e i a hi => ?_⟩
  · exact r.showsTop LibrarySource.noConfusion (h.top (hdesign.symm.trans e))
  · exact r.showsBoundaries LibrarySource.noConfusion (h.boundaries (hdesign.symm.trans e))
  · exact r.showsModule LibrarySource.noConfusion
      (h.modules (hhierarchy.symm.trans hh) (hdesign.symm.trans e) hi)

theorem Shown.rebuild (h : n.Shown) (hsettings : n'.settings = n.settings) (hdb : n'.db = n.db)
    (r : ∀ s, Rebuilds n.db s n.catalog n'.catalog) : n'.Shown :=
  h.of_rebuilds hsettings hdb (r (.physical ⟨0⟩)) fun t ht =>
    (r .design).showsMTerm_of_ne h.mirrors (fun _ => LibrarySource.noConfusion) (h.mterms t ht)

theorem Regroups.shown (r : n.Regroups n') (h : n.Shown) : n'.Shown :=
  h.rebuild r.settings r.db fun _ => r.rebuilds h.mirrors

theorem exists_lib (hdb : db.WellFormed) {x : MTermId} (hx : x ∈ db.mterms.ids) :
    ∃ m a, db.mterms.find? x = some m ∧ db.masters.find? m.master = some a ∧
      a.lib ∈ db.libs.ids := by
  obtain ⟨m, hm⟩ := Table.mem_ids_iff.1 hx
  obtain ⟨a, ha⟩ := Table.mem_ids_iff.1 (hdb.mtermMaster hm)
  exact ⟨m, a, hm, ha, hdb.masterLib ha⟩

theorem Shown.loadLibrary (h : n.Shown) (hdb : n.db.WellFormed) {id : LibId} {r : LibraryId}
    (e : n.loadLibrary id = .ok (r, n')) : n'.Shown := by
  obtain ⟨hsettings, hdb', hr, hmterms⟩ := rebuilds_loadLibrary h.mirrors hdb e
  refine h.of_rebuilds hsettings hdb' hr fun t ht => ?_
  obtain ⟨m, a, hm, ha, -⟩ := exists_lib hdb ht
  exact hmterms t m a hm ha (.inr (h.mterms t ht))

theorem shown_of_loadDatabase (hdb : db.WellFormed) (e : n.loadDatabase db = .ok n') :
    n'.Shown := by
  obtain ⟨n₁, e₁, e⟩ := bind_eq_ok.1 e
  have hfold : (n₁.db = db ∧ n₁.catalog.Mirrors db) ∧ ∀ lib ∈ db.libs.ids, ∀ t m a,
      db.mterms.find? t = some m → db.masters.find? m.master = some a → a.lib = lib →
        n₁.catalog.ShowsMTerm t := by
    refine foldlM_ok_forall (motive := fun n : Network => n.db = db ∧ n.catalog.Mirrors db)
      (P := fun n lib => ∀ t m a, db.mterms.find? t = some m →
        db.masters.find? m.master = some a → a.lib = lib → n.catalog.ShowsMTerm t)
      (fun m lib m' hm hstep => ?_) ⟨rfl, Catalog.mirrors_empty db⟩ e₁
    obtain ⟨⟨r, m₁⟩, hload, hstep⟩ := bind_eq_ok.1 hstep
    cases pure_eq_ok.1 hstep
    obtain ⟨rfl, hm⟩ := hm
    obtain ⟨-, hdb', hr, hmterms⟩ := rebuilds_loadLibrary hm hdb hload
    refine ⟨⟨hdb', hr.mirrors⟩, fun t x a hx ha hlib => hmterms t x a hx ha (.inl hlib), ?_⟩
    intro lib' hshown t x a hx ha hlib
    exact hmterms t x a hx ha (.inr (hshown t x a hx ha hlib))
  obtain ⟨⟨rfl, hm⟩, hmterms⟩ := hfold
  have hall : ∀ t ∈ n₁.db.mterms.ids, n₁.catalog.ShowsMTerm t := by
    intro t ht
    obtain ⟨m, a, hx, ha, hlib⟩ := exists_lib hdb ht
    exact hmterms a.lib hlib t m a hx ha rfl
  extract_lets n₂ at e
  have r : n₁.Regroups n₂ := .foldl .recordTimingMasters (n₁.timingLibraries.map (·.1)) n₁
  have r' : Rebuilds n₁.db .design n₁.catalog n₂.catalog := r.rebuilds hm
  have hm₂ : n₂.catalog.Mirrors n₂.db := r.db.symm ▸ r'.mirrors
  have hall₂ : ∀ t ∈ n₂.db.mterms.ids, n₂.catalog.ShowsMTerm t := by
    rw [r.db]
    exact fun t ht => r'.showsMTerm_of_ne hm (fun _ => LibrarySource.noConfusion) (hall t ht)
  split at e
  · exact shown_of_loadDesign hm₂ (r.db.symm ▸ hdb) hall₂ e
  · next hsome =>
    have hnone : n₂.design? = none := by
      have hdesign : n₂.design? = n₁.db.design? := congrArg Database.design? r.db
      rw [hdesign]
      simpa using hsome
    rw [← pure_eq_ok.1 e]
    exact .of_none hnone hm₂ hall₂

theorem shown_of_empty (hdb : n.db = {}) (hc : n.catalog = {}) : n.Shown := by
  have hnone : n.design? = none := by
    rw [design?, hdb]
  refine .of_none hnone (hc ▸ Catalog.mirrors_empty n.db) fun x hx => ?_
  rw [hdb] at hx
  cases hx

theorem Load.shown (s : n.Load n') (hdb : n.db.WellFormed) (h : n.Shown) : n'.Shown := by
  cases s with
  | loadDatabase hdb' e => exact shown_of_loadDatabase hdb'.wellFormed e
  | loadLibrary e => exact h.loadLibrary hdb e
  | loadTiming library =>
    have hloaded : Shown { n with timing := n.timing ++ [library] } :=
      ⟨h.mirrors, h.mterms, h.top, h.boundaries, h.modules⟩
    exact (Regroups.relinkTiming _ _).shown hloaded
  | relinkTiming id => exact (Regroups.relinkTiming n id).shown h
  | loadDesign e => exact shown_of_loadDesign h.mirrors hdb h.mterms e
  | reload e =>
    unfold Network.reload at e
    split at e
    · exact shown_of_loadDesign h.mirrors hdb h.mterms e
    · cases pure_eq_ok.1 e
      exact ⟨h.mirrors, h.mterms, h.top, h.boundaries, h.modules⟩
  | teardown => exact shown_of_empty rfl rfl

end Network
end DesignView
