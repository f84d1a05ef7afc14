import DesignView.Proofs.Catalog.Indexed
import DesignView.Proofs.Network.LoadOrder
import DesignView.Proofs.Physical.SameFlat

/-!
Loading without the hierarchy. What is built over a database depends on its libraries, its masters
and its flat netlist alone: over a database that differs in the modules only, the same requests make
a network that differs in the database and in the index of boundary terminals only.
-/

namespace DesignView.Network

variable {n m n' : Network} {db db' : Database} {d d' : Design}
variable (b : OrderedMap (ModuleId × String) ModBTermId)

/-- The network over another database, with another index of the boundary terminals of modules. -/
def rebased (n : Network) (db : Database) (b : OrderedMap (ModuleId × String) ModBTermId) :
    Network := { n with db, catalog := n.catalog.indexed b }

theorem reportAll_rebased (n : Network) (causes : List Mismatch) :
    (n.rebased db b).reportAll causes = (n.reportAll causes).rebased db b :=
  List.foldl_hom (fun n : Network => n.rebased db b) fun _ _ => rfl

theorem msbFirst_rebased (h : n.db.SameFlat db) (bus cell : String) :
    (n.rebased db b).msbFirst bus cell = n.msbFirst bus cell := by
  show (db.design?.bind fun d => d.flag? _).getD true =
    (n.db.design?.bind fun d => d.flag? _).getD true
  rcases h.designs with ⟨hd, hd'⟩ | ⟨d, d', hd, hd', hsame⟩
  · rw [hd, hd']
  · rw [hd, hd', Option.bind_some, Option.bind_some, hsame.flags]

theorem groupCell_rebased (h : n.db.SameFlat db) (cell : CellId) (name : String) :
    (n.rebased db b).groupCell cell name = (n.groupCell cell name).rebased db b := by
  have hmsb : (fun bus => (n.rebased db b).msbFirst bus name) = fun bus => n.msbFirst bus name :=
    funext fun bus => msbFirst_rebased b h bus name
  have hcatalog : (n.rebased db b).catalog = n.catalog.indexed b := rfl
  unfold groupCell
  rw [hmsb, hcatalog, Catalog.groupBuses_indexed]
  exact reportAll_rebased b { n with
    catalog := (n.catalog.groupBuses cell fun bus => n.msbFirst bus name).1 } _

theorem linkCell?_rebased (n : Network) (cell : CellId) (id : TimingId) :
    (n.rebased db b).linkCell? cell id = (n.linkCell? cell id).map fun m => m.rebased db b := by
  have htiming : (n.rebased db b).timingLibrary? id = n.timingLibrary? id := rfl
  have hcell : (n.rebased db b).catalog.cells.find? cell = n.catalog.cells.find? cell := rfl
  have hcatalog : (n.rebased db b).catalog = n.catalog.indexed b := rfl
  unfold linkCell?
  rw [htiming, hcell]
  cases n.timingLibrary? id with
  | none => rfl
  | some library =>
    cases n.catalog.cells.find? cell with
    | none => rfl
    | some x =>
      cases htiming : library.cell? x.name with
      | none => simp [htiming]
      | some timing =>
        simp only [htiming, Option.bind_eq_bind, Option.bind_some, Option.pure_def, Option.map_some,
          hcatalog, Catalog.link_indexed]
        exact congrArg some (reportAll_rebased b { n with
          catalog := (n.catalog.link cell id library.name timing).1 } _)

theorem linkFirst_rebased (n : Network) (cell : CellId) (ids : List TimingId) :
    (n.rebased db b).linkFirst cell ids = (n.linkFirst cell ids).rebased db b := by
  induction ids with
  | nil => rfl
  | cons id ids ih =>
    unfold linkFirst
    rw [linkCell?_rebased, ih]
    cases n.linkCell? cell id <;> rfl

theorem recordMaster_rebased (n : Network) (master : MasterId) (name : String) :
    (n.rebased db b).recordMaster master name = (n.recordMaster master name).rebased db b := by
  rw [recordMaster_eq, recordMaster_eq]
  rfl

theorem loadMaster_rebased (h : n.db.SameFlat db) (library : LibraryId) (id : MasterId)
    (a : Master) : (n.rebased db b).loadMaster library id a =
      (n.loadMaster library id a).rebased db b := by
  have hports : masterPorts (n.rebased db b).db id = masterPorts n.db id :=
    congrArg (List.map _) (h.mtermsOf id)
  have hcatalog : (n.rebased db b).catalog = n.catalog.indexed b := rfl
  have hcell (c : Catalog) : ({ n.rebased db b with catalog := c.indexed b } : Network) =
      rebased { n with catalog := c } db b := rfl
  have hdb (c : Catalog) : ({ n with catalog := c } : Network).db.SameFlat db := h
  obtain ⟨m, hm, hload⟩ := n.loadMaster_eq library id a
  obtain ⟨m', hm', hload'⟩ := (n.rebased db b).loadMaster_eq library id a
  have hbuilt : m' = m.rebased db b := by
    rw [hm', hports, hcatalog, Catalog.buildCell_indexed, hcell]
    have hcount : (n.catalog.indexed b).count = n.catalog.count := rfl
    rw [hcount, groupCell_rebased b (hdb _), recordMaster_rebased, hm]
  have hcount : (n.rebased db b).catalog.count = n.catalog.count := rfl
  have htiming : (m.rebased db b).timingLibraries = m.timingLibraries := rfl
  rw [hload', hload, hbuilt, hcount, htiming]
  exact linkFirst_rebased b m _ _

theorem loadMasters_rebased (h : n.db.SameFlat db) (library : LibraryId)
    (es : List (MasterId × Master)) :
    es.foldl (fun n e => n.loadMaster library e.1 e.2) (n.rebased db b) =
      (es.foldl (fun n e => n.loadMaster library e.1 e.2) n).rebased db b := by
  induction es generalizing n with
  | nil => rfl
  | cons e es ih =>
    have hdb : (n.loadMaster library e.1 e.2).db = n.db := (Loads.loadMaster ..).db
    rw [List.foldl_cons, List.foldl_cons, loadMaster_rebased b h]
    exact ih (by rwa [hdb])

theorem only_loadMaster (n : Network) (library : LibraryId) (id : MasterId) (a : Master) :
    n.Only (n.loadMaster library id a) := by
  obtain ⟨m, hm, hload⟩ := n.loadMaster_eq library id a
  have hcell : n.Only { n with
      catalog := n.catalog.buildCell library a.name (.physical id) (masterPorts n.db id) } :=
    ⟨_, _, _, _, _, rfl⟩
  have hbuilt : n.Only m := by
    rw [hm]
    exact (hcell.trans (only_groupCell ..)).trans (only_recordMaster ..)
  rw [hload]
  exact hbuilt.trans (only_linkFirst ..)

theorem only_loadMasters (n : Network) (library : LibraryId) (es : List (MasterId × Master)) :
    n.Only (es.foldl (fun n e => n.loadMaster library e.1 e.2) n) :=
  List.foldlRecOn (motive := n.Only) es _ (.refl n) fun m hm e _ =>
    hm.trans (m.only_loadMaster library e.1 e.2)

theorem only_loadLibrary {id : LibId} {r : LibraryId} (e : n.loadLibrary id = .ok (r, n')) :
    n.Only n' := by
  obtain ⟨lib, m, -, -, rfl, rfl⟩ := loadLibrary_eq_ok e
  have hstart : n.Only { n with
      catalog := ((n.catalog.without (.physical id)).addLibrary lib.name (.physical id)).2 } :=
    ⟨_, _, _, _, _, rfl⟩
  exact (hstart.trans (only_loadMasters ..)).trans ⟨_, _, _, _, _, rfl⟩

theorem recordTimingMasters_rebased (n : Network) (id : TimingId) :
    (n.rebased db b).recordTimingMasters id = (n.recordTimingMasters id).rebased db b := by
  cases hl : n.timingLibrary? id with
  | none =>
    have hl' : (n.rebased db b).timingLibrary? id = none := hl
    rw [recordTimingMasters_of_none hl, recordTimingMasters_of_none hl']
  | some library =>
    have hl' : (n.rebased db b).timingLibrary? id = some library := hl
    rw [recordTimingMasters_eq hl, recordTimingMasters_eq hl']
    rfl

theorem linkCells_rebased (n : Network) (linked : Bool) (id : TimingId) (cells : List CellId) :
    cells.foldl (fun acc cell =>
      match acc.1.linkCell? cell id with
      | some n => (n, true)
      | none => (acc.1, acc.2)) (n.rebased db b, linked) =
    let acc := cells.foldl (fun acc cell =>
      match acc.1.linkCell? cell id with
      | some n => (n, true)
      | none => (acc.1, acc.2)) (n, linked)
    (acc.1.rebased db b, acc.2) := by
  induction cells generalizing n linked with
  | nil => rfl
  | cons cell cells ih =>
    simp only [List.foldl_cons, linkCell?_rebased]
    cases n.linkCell? cell id with
    | none => exact ih n linked
    | some m => exact ih m true

theorem relinkTiming_rebased (n : Network) (id : TimingId) :
    (n.rebased db b).relinkTiming id = (n.relinkTiming id).rebased db b := by
  have htiming : (n.rebased db b).timingLibrary? id = n.timingLibrary? id := rfl
  have hcells : (n.rebased db b).catalog.allCells = n.catalog.allCells := rfl
  unfold relinkTiming
  rw [htiming]
  cases n.timingLibrary? id with
  | none => rfl
  | some library =>
    dsimp only
    rw [hcells]
    generalize hacc : List.foldl _ (n, false) _ = acc
    generalize hacc' : List.foldl _ (n.rebased db b, false) _ = acc'
    have hlinked : acc' = (acc.1.rebased db b, acc.2) := by
      rw [← hacc, ← hacc']
      exact linkCells_rebased b n false id _
    rw [hlinked, recordTimingMasters_rebased]
    cases acc.2 <;> rfl

theorem loadTopCell_rebased (h : n.db.SameFlat db) (hd : d.SameFlat d') :
    (n.rebased db b).loadTopCell d' = (n.loadTopCell d).rebased db b := by
  have hports : topPorts d' = topPorts d := by
    rw [topPorts, Table.entries_congr hd.bterms, topPorts]
  have hcatalog : (n.rebased db b).catalog = n.catalog.indexed b := rfl
  have hlibrary : withTopLibrary (n.catalog.indexed b) d' =
      (withTopLibrary n.catalog d).indexed b := by
    rw [withTopLibrary, Catalog.without_indexed, hd.name]
    rfl
  have hwithout : ((n.catalog.indexed b).without .design).count =
      (n.catalog.without .design).count := by
    rw [Catalog.without_indexed]
    rfl
  have hcell (c : Catalog) : ({ n.rebased db b with catalog := c.indexed b } : Network) =
      rebased { n with catalog := c } db b := rfl
  have hdb (c : Catalog) : ({ n with catalog := c } : Network).db.SameFlat db := h
  rw [loadTopCell_eq, loadTopCell_eq, hports, hcatalog, hlibrary, hwithout, hd.name,
    Catalog.buildCell_indexed, hcell]
  exact groupCell_rebased b (hdb _) _ _

theorem withoutModules_rebased (n : Network) :
    (n.rebased db b).withoutModules = n.withoutModules.rebased db b := by
  have hfirst : (n.rebased db b).catalog.moduleLibrary? = n.catalog.moduleLibrary? := rfl
  unfold withoutModules
  rw [hfirst]
  split <;> rfl

theorem finishDesign_settings (n : Network) (d : Design) :
    (n.finishDesign d).settings = n.settings := rfl

theorem settings_withoutTop (n : Network) (d : Design) :
    (n.loadTopCell d).withoutModules.settings = n.settings := by
  have hout (m : Network) : m.withoutModules.settings = m.settings := by
    rw [withoutModules_eq]
  rw [hout, loadTopCell_eq, (only_groupCell ..).settings]

theorem finishDesign_rebased (n : Network) (hd : d.SameFlat d') :
    (n.rebased db b).finishDesign d' = (n.finishDesign d).rebased db (boundaryTable d') := by
  have hnets : d'.nets.entries = d.nets.entries := Table.entries_congr hd.nets
  unfold finishDesign
  rw [indexBoundaries_eq, indexBoundaries_eq, findConstants, findConstants, hnets, hd.name]
  rfl

theorem loadDatabase_of_libraries
    (e : db.libs.ids.foldlM (fun n id => return (← n.loadLibrary id).2) (n.reset db) = .ok n') :
    n.loadDatabase db =
      if db.design?.isSome then
        ((n'.timingLibraries.map (·.1)).foldl recordTimingMasters n').loadDesign
      else .ok ((n'.timingLibraries.map (·.1)).foldl recordTimingMasters n') := by
  unfold loadDatabase
  rw [e]
  rfl

/-- The networks differ in the database and in the index of boundary terminals only, and the
databases in the modules only. -/
def Twin (n m : Network) : Prop :=
  ∃ db b, n.db.SameFlat db ∧ m = n.rebased db b

namespace Twin

theorem loadLibrary (h : n.Twin m) {id : LibId} {r : LibraryId}
    (e : n.loadLibrary id = .ok (r, n')) : ∃ m', m.loadLibrary id = .ok (r, m') ∧ n'.Twin m' := by
  obtain ⟨db, b, hdb, rfl⟩ := h
  have honly := only_loadLibrary e
  obtain ⟨lib, n₁, hlib, rfl, hn₁, rfl⟩ := loadLibrary_eq_ok e
  have hlib' : (n.rebased db b).db.libs.find? id = some lib :=
    (congrFun (Table.find?_congr hdb.libs) id).trans hlib
  obtain ⟨r', m', e'⟩ := exists_loadLibrary ⟨lib, hlib'⟩
  obtain ⟨lib', m₁, hfound, hr, hm₁, hm'⟩ := loadLibrary_eq_ok e'
  obtain rfl : lib = lib' := Option.some.inj (hlib'.symm.trans hfound)
  have hcatalog : (n.rebased db b).catalog.without (.physical id) =
      (n.catalog.without (.physical id)).indexed b := n.catalog.without_indexed b _
  have hmasters : (n.rebased db b).db.mastersOf id = n.db.mastersOf id := hdb.mastersOf id
  have hr : r' = ⟨(n.catalog.without (.physical id)).count + 1⟩ := by
    rw [hr, hcatalog]
    rfl
  have hbuilt : m₁ = n₁.rebased db b := by
    rw [hm₁, hn₁, hcatalog, hmasters, hr]
    exact loadMasters_rebased b (n := { n with
      catalog := ((n.catalog.without (.physical id)).addLibrary lib.name (.physical id)).2 }) hdb _ _
  refine ⟨m', hr ▸ e', db, b, honly.db ▸ hdb, ?_⟩
  rw [hm', hbuilt, hr]
  rfl

theorem reset (h : n.Twin m) (hdb : db.SameFlat db') : (n.reset db).Twin (m.reset db') := by
  obtain ⟨_, b, -, rfl⟩ := h
  exact ⟨db', {}, hdb, rfl⟩

theorem recordTimingMasters (h : n.Twin m) (ids : List TimingId) :
    (ids.foldl Network.recordTimingMasters n).Twin
      (ids.foldl Network.recordTimingMasters m) := by
  obtain ⟨db, b, hdb, rfl⟩ := h
  have hkept : (ids.foldl Network.recordTimingMasters n).db = n.db :=
    (Loads.foldl .recordTimingMasters ids n).db
  refine ⟨db, b, hkept ▸ hdb, ?_⟩
  exact List.foldl_hom (fun n : Network => n.rebased db b) (recordTimingMasters_rebased b)

theorem relinkTiming (h : n.Twin m) (id : TimingId) :
    (n.relinkTiming id).Twin (m.relinkTiming id) := by
  obtain ⟨db, b, hdb, rfl⟩ := h
  refine ⟨db, b, ?_, relinkTiming_rebased b n id⟩
  rw [relinkTiming_db]
  exact hdb

theorem loadTiming (h : n.Twin m) (library : TimingLibrary) :
    (n.loadTiming library).2.Twin (m.loadTiming library).2 := by
  have hadded : Twin { n with timing := n.timing ++ [library] }
      { m with timing := m.timing ++ [library] } := by
    obtain ⟨db, b, hdb, rfl⟩ := h
    exact ⟨db, b, hdb, rfl⟩
  have hid : m.timing.length = n.timing.length := by
    obtain ⟨db, b, -, rfl⟩ := h
    rfl
  unfold Network.loadTiming
  rw [hid]
  exact hadded.relinkTiming _

theorem loadDesign (h : n.Twin m) (hn : n.hierarchy = false) (e : n.loadDesign = .ok n') :
    ∃ m', m.loadDesign = .ok m' ∧ n'.Twin m' ∧ n'.settings = n.settings := by
  obtain ⟨db, b, hdb, rfl⟩ := h
  obtain ⟨d, n₁, hd, hmodules, rfl⟩ := loadDesign_eq_ok e
  have hsettings : (n.loadTopCell d).withoutModules.settings = n.settings :=
    settings_withoutTop n d
  have hflat : (n.loadTopCell d).withoutModules.hierarchy = false :=
    (congrArg Settings.hierarchy hsettings).trans hn
  -- Only with the hierarchy are the modules of the design looked at.
  obtain ⟨hh, -⟩ | ⟨-, rfl⟩ := hmodules
  · cases hh.symm.trans hflat
  obtain ⟨hnone, -⟩ | ⟨d₁, d', hd₁, hd', hsame⟩ := hdb.designs
  · cases hnone.symm.trans hd
  obtain rfl : d = d₁ := Option.some.inj (hd.symm.trans hd₁)
  have hcells : ((n.rebased db b).loadTopCell d').withoutModules =
      (n.loadTopCell d).withoutModules.rebased db b := by
    rw [loadTopCell_rebased b hdb hsame, withoutModules_rebased]
  have hflat' : ((n.rebased db b).loadTopCell d').withoutModules.hierarchy = false := by
    rw [hcells]
    exact hflat
  have hkept : ((n.loadTopCell d).withoutModules.finishDesign d).db = n.db := loadDesign_db e
  have hm : (n.rebased db b).loadDesign =
      .ok (((n.rebased db b).loadTopCell d').withoutModules.finishDesign d') :=
    loadDesign_of_modules hd' (.inr ⟨hflat', rfl⟩)
  rw [hcells, finishDesign_rebased b _ hsame] at hm
  refine ⟨_, hm, ⟨db, boundaryTable d', ?_, rfl⟩, ?_⟩
  · rw [hkept]
    exact hdb
  · rw [finishDesign_settings]
    exact hsettings

theorem reload (h : n.Twin m) (hn : n.hierarchy = false) (e : n.reload = .ok n') :
    ∃ m', m.reload = .ok m' ∧ n'.Twin m' ∧ n'.settings = n.settings := by
  have hd : m.design?.isSome = n.design?.isSome := by
    obtain ⟨db, b, hdb, rfl⟩ := h
    exact hdb.isSome_design?
  unfold Network.reload at e ⊢
  rw [hd]
  split at e
  · next hsome =>
    rw [if_pos hsome]
    exact h.loadDesign hn e
  · next hnone =>
    cases pure_eq_ok.1 e
    obtain ⟨db, b, hdb, rfl⟩ := h
    rw [if_neg hnone]
    exact ⟨_, rfl, ⟨db, b, hdb, rfl⟩, rfl⟩

theorem loadLibraries (h : n.Twin m) (ids : List LibId)
    (e : ids.foldlM (fun n id => return (← n.loadLibrary id).2) n = .ok n') :
    ∃ m', ids.foldlM (fun n id => return (← n.loadLibrary id).2) m = .ok m' ∧
      n'.Twin m' ∧ n'.settings = n.settings := by
  refine foldlM_ok_lift (R := fun n₁ m₁ => n₁.Twin m₁ ∧ n₁.settings = n.settings)
    (fun n₁ m₁ id n₂ h₁ hstep => ?_) ⟨h, rfl⟩ e
  obtain ⟨⟨r, n₃⟩, e₁, hstep⟩ := bind_eq_ok.1 hstep
  cases pure_eq_ok.1 hstep
  obtain ⟨m₃, e₁', h₃⟩ := h₁.1.loadLibrary e₁
  exact ⟨m₃, bind_eq_ok.2 ⟨(r, m₃), e₁', rfl⟩, h₃, (only_loadLibrary e₁).settings.trans h₁.2⟩

theorem loadDatabase (h : n.Twin m) (hn : n.hierarchy = false) (hdb : db.SameFlat db')
    (e : n.loadDatabase db = .ok n') :
    ∃ m', m.loadDatabase db' = .ok m' ∧ n'.Twin m' ∧ n'.settings = n.settings := by
  obtain ⟨n₁, e₁, e⟩ := bind_eq_ok.1 e
  obtain ⟨m₁, e₁', h₁, hsettings₁⟩ := (h.reset hdb).loadLibraries db.libs.ids e₁
  have hids : db'.libs.ids = db.libs.ids := Table.ids_congr hdb.libs
  have htiming : m₁.timingLibraries = n₁.timingLibraries := by
    obtain ⟨_, _, -, rfl⟩ := h₁
    rfl
  rw [← hids] at e₁'
  rw [loadDatabase_of_libraries e₁', htiming, hdb.isSome_design?]
  have h₂ := h₁.recordTimingMasters (n₁.timingLibraries.map (·.1))
  have hsettings₂ : ((n₁.timingLibraries.map (·.1)).foldl Network.recordTimingMasters n₁).settings =
      n.settings :=
    (List.foldlRecOn (motive := n₁.Only) _ _ (.refl n₁) fun n hn id _ =>
      hn.trans (only_recordTimingMasters n id)).settings.trans hsettings₁
  generalize (n₁.timingLibraries.map (·.1)).foldl Network.recordTimingMasters n₁ = n₂
    at e h₂ hsettings₂
  generalize (n₁.timingLibraries.map (·.1)).foldl Network.recordTimingMasters m₁ = m₂ at h₂ ⊢
  by_cases hd : db.design?.isSome = true
  · rw [if_pos hd] at e ⊢
    obtain ⟨m', e', h', hsettings'⟩ :=
      h₂.loadDesign ((congrArg Settings.hierarchy hsettings₂).trans hn) e
    exact ⟨m', e', h', hsettings'.trans hsettings₂⟩
  · rw [if_neg hd] at e ⊢
    cases pure_eq_ok.1 e
    exact ⟨m₂, rfl, h₂, hsettings₂⟩

end Twin

theorem loadDatabase_ok (n : Network) (hdb : db.WellFormed) : ∃ n', n.loadDatabase db = .ok n' := by
  by_cases hd : db.design?.isSome = true
  · obtain ⟨n', -, e, -⟩ := exists_loadDatabase n hdb hd
    exact ⟨n', e⟩
  · have hlibs : ∀ id ∈ db.libs.ids, ∃ lib, db.libs.find? id = some lib :=
      fun id hid => OrderedMap.mem_keys_iff.1 hid
    obtain ⟨n₁, -, e₁, -⟩ := (loading_reset n hdb).loadLibraries hdb.libs.nodup hlibs <| by
      rintro id - ⟨a, ha⟩
      cases ha
    exact ⟨_, bind_eq_ok.2 ⟨n₁, e₁, if_neg hd⟩⟩

end DesignView.Network
