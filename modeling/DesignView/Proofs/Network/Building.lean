import DesignView.Proofs.Catalog.Building
import DesignView.Proofs.Network.FirstLink

/-!
What loads of a network do to its catalog. A load builds libraries and cells step by step, in place
of others or from nothing, and links each cell once: a cell that is built is not linked, and the
cells that a timing library is linked to are those that are not linked yet.
-/

namespace DesignView.Network

open Catalog (Builds SameCells)

variable {n n' : Network} {d : Design} {cell : CellId} {y : Cell}

theorem groupCell_builds (timing : List TimingLibrary) {c : Catalog} (hy : c.face? cell = some y)
    (hfree : y.timing = none) (n : Network) (name : String) :
    Builds timing c (Network.groupCell { n with catalog := c } cell name).catalog := by
  rw [groupCell_catalog]
  exact .single (.groupBuses hy hfree _)

theorem linkCell?_builds (hy : n.catalog.cells.find? cell = some y) (hfree : y.timing = none)
    {id : TimingId} (e : n.linkCell? cell id = some n') :
    Builds n.timing n.catalog n'.catalog := by
  obtain ⟨library, x, t, hl, hx, ht, rfl⟩ := linkCell?_eq_some e
  rw [reportAll_catalog]
  exact .single (.link hx (Option.some.inj (hy.symm.trans hx) ▸ hfree) hl ht)

theorem linkFirst_builds (hy : n.catalog.cells.find? cell = some y) (hfree : y.timing = none)
    (ids : List TimingId) : Builds n.timing n.catalog (n.linkFirst cell ids).catalog := by
  induction ids with
  | nil => exact .refl _
  | cons id ids ih =>
    unfold Network.linkFirst
    cases e : n.linkCell? cell id with
    | none => exact ih
    | some n' => exact linkCell?_builds hy hfree e

theorem recordTimingMasters_builds (ht : n.catalog.Tidy) (id : TimingId) :
    Builds n.timing n.catalog (n.recordTimingMasters id).catalog := by
  cases hl : n.timingLibrary? id with
  | none =>
    rw [recordTimingMasters_of_none hl]
    exact .refl _
  | some library =>
    rw [recordTimingMasters_eq hl]
    refine .single (.recordAll fun e he => ?_)
    obtain ⟨-, -, _, _, x, y, -, -, hx, -, -, hsource⟩ := (mem_timingEntries ht).1 he
    exact ⟨x, y.label, Catalog.cellLabel?_of_find? hx, hsource⟩

theorem linkCells_builds (id : TimingId) {cells : List CellId} (hnodup : cells.Nodup)
    (hcells : ∀ x ∈ cells, ∃ y, n.catalog.cells.find? x = some y ∧ y.timing = none)
    (linked : Bool) {m : Network} (hm : m = (cells.foldl (fun (acc : Network × Bool) cell =>
      match acc.1.linkCell? cell id with
      | some n => (n, true)
      | none => (acc.1, acc.2)) (n, linked)).1) :
    m.timing = n.timing ∧ Builds n.timing n.catalog m.catalog := by
  induction cells generalizing n linked with
  | nil => exact hm ▸ ⟨rfl, .refl _⟩
  | cons x cells ih =>
    obtain ⟨hnew, hnodup⟩ := List.nodup_cons.1 hnodup
    obtain ⟨y, hx, hy⟩ := hcells x List.mem_cons_self
    rw [List.foldl_cons] at hm
    dsimp only at hm
    cases e : n.linkCell? x id with
    | none =>
      rw [e] at hm
      exact ih hnodup (fun z hz => hcells z (List.mem_cons_of_mem x hz)) linked hm
    | some n₁ =>
      rw [e] at hm
      -- The cells to come are left as they are.
      have hrest : ∀ z ∈ cells, ∃ y, n₁.catalog.cells.find? z = some y ∧ y.timing = none := by
        intro z hz
        obtain ⟨y', hz', hfree⟩ := hcells z (List.mem_cons_of_mem x hz)
        have hne : z ≠ x := fun heq => hnew (heq ▸ hz)
        have hface := face?_linkCell? (Catalog.face?_of_find? hx) e z
        rw [if_neg hne, Catalog.face?_of_find? hz'] at hface
        obtain ⟨y₁, hy₁, hsame⟩ := Catalog.exists_of_face? hface
        have htiming : y₁.face.timing = y'.face.timing := by rw [hsame]
        exact ⟨y₁, hy₁, htiming.trans hfree⟩
      obtain ⟨htiming, hbuilds⟩ := ih hnodup hrest true hm
      rw [timing_linkCell? e] at htiming hbuilds
      exact ⟨htiming, (linkCell?_builds hx hy e).trans hbuilds⟩

theorem relinkTiming_builds (hi : n.catalog.Intact) (id : TimingId) :
    Builds n.timing n.catalog (n.relinkTiming id).catalog := by
  cases hl : n.timingLibrary? id with
  | none =>
    rw [relinkTiming_of_none hl]
    exact .refl _
  | some library =>
    rw [relinkTiming_catalog hl]
    have hfree : ∀ x ∈ (n.catalog.allCells.filter fun e => e.2.timing.isNone).map (·.1),
        ∃ y, n.catalog.cells.find? x = some y ∧ y.timing = none := by
      intro x hx
      obtain ⟨⟨x, y⟩, he, rfl⟩ := List.mem_map.1 hx
      obtain ⟨hcell, hnone⟩ := List.mem_filter.1 he
      obtain ⟨l, -, hcell⟩ := List.mem_flatMap.1 hcell
      exact ⟨y, ((Catalog.mem_cellsOf hi.tidy).1 hcell).1, by simpa using hnone⟩
    have hnodup : ((n.catalog.allCells.filter fun e => e.2.timing.isNone).map (·.1)).Nodup :=
      (nodup_allCells hi.tidy).sublist (List.filter_sublist.map _)
    obtain ⟨htiming, hlinked⟩ := linkCells_builds id hnodup hfree false rfl
    generalize List.foldl _ (n, false) _ = acc at htiming hlinked ⊢
    have hrecorded := recordTimingMasters_builds (hlinked.steps.intact hi).tidy id
    rw [htiming] at hrecorded
    exact hlinked.trans hrecorded

theorem without_builds {timing : List TimingLibrary} (c : Catalog) (s : LibrarySource) :
    Builds timing c (c.without s) := by
  unfold Catalog.without
  split
  · exact .single (.removeLibrary ..)
  · exact .refl _

theorem loadMaster_builds (hdb : n.db.WellFormed) (library : LibraryId) (id : MasterId)
    (a : Master) : Builds n.timing n.catalog (n.loadMaster library id a).catalog := by
  -- The cell is built and grouped, its master is recorded, and it is linked.
  obtain ⟨m, hm, hload⟩ := loadMaster_eq n library id a
  generalize hc : n.catalog.buildCell library a.name (.physical id) (masterPorts n.db id) = c at hm
  have hbuild : Builds n.timing n.catalog c := by
    rw [← hc]
    refine .single (.buildCell _ library a.name (.physical id) (masterPorts_nodup hdb id)
      (fun s hs b hb => absurd hb (masterPorts_source hs b)) fun s hs => ?_)
    obtain ⟨e, -, rfl⟩ := List.mem_map.1 hs
    exact PortSource.noConfusion
  have hface : c.face? ⟨n.catalog.count + 1⟩ =
      some { name := a.name, library, source := .physical id } := by
    rw [← hc, Catalog.face?_buildCell, if_pos rfl]
  have hgroup := groupCell_builds n.timing hface rfl n a.name
  have hgrouped : (Network.groupCell { n with catalog := c } ⟨n.catalog.count + 1⟩
      a.name).catalog.face? ⟨n.catalog.count + 1⟩ = c.face? ⟨n.catalog.count + 1⟩ := by
    rw [groupCell_catalog]
    exact (SameCells.groupBuses ..).faces _
  have htiming : m.timing = n.timing := by
    rw [hm]
    exact (only_recordMaster ..).timing.trans (only_groupCell ..).timing
  have hrecord : Builds n.timing (Network.groupCell { n with catalog := c }
      ⟨n.catalog.count + 1⟩ a.name).catalog m.catalog := by
    rw [hm, recordMaster_eq]
    refine .single (.recordAll fun e he => ?_)
    obtain ⟨t, -, rfl⟩ := List.mem_map.1 he
    obtain ⟨y, hy, hsame⟩ := Catalog.exists_of_face? (hgrouped.trans hface)
    refine ⟨_, _, Catalog.cellLabel?_of_find? hy, ?_⟩
    have hsource : y.face.source = .physical id := by rw [hsame]
    exact hsource
  have hrecorded : m.catalog.face? ⟨n.catalog.count + 1⟩ =
      some { name := a.name, library, source := .physical id } := by
    rw [hm, recordMaster_eq]
    exact hgrouped.trans hface
  obtain ⟨y, hy, hsame⟩ := Catalog.exists_of_face? hrecorded
  have hfree : y.face.timing = none := by rw [hsame]
  have hlink := linkFirst_builds hy hfree (m.timingLibraries.map (·.1))
  rw [htiming, ← hload] at hlink
  exact ((hbuild.trans hgroup).trans hrecord).trans hlink

theorem loadMasters_builds (hdb : n.db.WellFormed) (library : LibraryId)
    (es : List (MasterId × Master)) : Builds n.timing n.catalog
      (es.foldl (fun n e => n.loadMaster library e.1 e.2) n).catalog := by
  induction es generalizing n with
  | nil => exact .refl _
  | cons e es ih =>
    have hsame : (n.loadMaster library e.1 e.2).db = n.db := (Loads.loadMaster ..).db
    have htiming : (n.loadMaster library e.1 e.2).timing = n.timing := (Loads.loadMaster ..).timing
    have hone := loadMaster_builds hdb library e.1 e.2
    rw [List.foldl_cons]
    generalize n.loadMaster library e.1 e.2 = m at hsame htiming hone ⊢
    exact hone.trans (htiming ▸ ih (hsame.symm ▸ hdb))

theorem loadLibrary_builds (hdb : n.db.WellFormed) {id : LibId} {r : LibraryId}
    (e : n.loadLibrary id = .ok (r, n')) :
    Builds n.timing (n.catalog.without (.physical id)) n'.catalog := by
  obtain ⟨lib, m, -, -, hm, rfl⟩ := loadLibrary_eq_ok e
  have hlibrary : Builds n.timing (n.catalog.without (.physical id))
      ((n.catalog.without (.physical id)).addLibrary lib.name (.physical id)).2 :=
    .single (.addLibrary ..)
  generalize Prod.snd _ = c at hlibrary hm
  exact hlibrary.trans
    (hm ▸ loadMasters_builds (n := { n with catalog := c }) hdb r (n.db.mastersOf id))

theorem loadTopCell_builds (hdb : n.db.WellFormed) (hd : n.design? = some d) :
    Builds n.timing (n.catalog.without .design) (n.loadTopCell d).catalog := by
  rw [loadTopCell_eq]
  have hlibrary : Builds n.timing (n.catalog.without .design) (withTopLibrary n.catalog d) :=
    .single (.addLibrary ..)
  have hbuild := hlibrary.step
    (.buildCell _ ⟨(n.catalog.without .design).count + 1⟩ d.name .design
      (hdb.design hd).topPorts_nodup (fun s hs b hb => absurd hb (topPorts_source hs b))
      fun s hs => by
        obtain ⟨e, -, rfl⟩ := List.mem_map.1 hs
        exact PortSource.noConfusion)
  exact hbuild.trans (groupCell_builds n.timing
    ((Catalog.face?_buildCell ..).trans (if_pos rfl)) rfl n d.name)

theorem groupCells_builds {timing : List TimingLibrary} (cells : List (CellId × String))
    (hcells : ∀ e ∈ cells, ∃ y, n.catalog.face? e.1 = some y ∧ y.timing = none) :
    Builds timing n.catalog (cells.foldl (fun n e => n.groupCell e.1 e.2) n).catalog := by
  induction cells generalizing n with
  | nil => exact .refl _
  | cons e cells ih =>
    obtain ⟨y, hy, hfree⟩ := hcells e List.mem_cons_self
    have hone : Builds timing n.catalog (n.groupCell e.1 e.2).catalog :=
      groupCell_builds timing hy hfree n e.2
    refine hone.trans (ih fun e' he' => ?_)
    rw [groupCell_catalog, (SameCells.groupBuses ..).faces]
    exact hcells e' (List.mem_cons_of_mem e he')

theorem loadModuleCells_builds (hdb : n.db.WellFormed) (hd : n.design? = some d)
    (e : n.loadModuleCells d = .ok n') : Builds n.timing n.catalog n'.catalog := by
  obtain ⟨⟨c', added⟩, hcells, e⟩ := bind_eq_ok.1 e
  cases pure_eq_ok.1 e
  have hlibrary : Builds n.timing n.catalog
      (n.catalog.addLibrary n.settings.moduleLibrary .modules).2 := .single (.addLibrary ..)
  have hbuilt : Builds n.timing n.catalog c' ∧
      ∀ e ∈ added, ∃ y, c'.face? e.1 = some y ∧ y.timing = none := by
    refine foldlM_ok_induct (motive := fun acc : Catalog × List (CellId × String) =>
      Builds n.timing n.catalog acc.1 ∧ ∀ e ∈ acc.2, ∃ y, acc.1.face? e.1 = some y ∧
        y.timing = none) (fun acc e acc' hacc hstep => ?_)
      ⟨hlibrary, fun e he => absurd he List.not_mem_nil⟩ hcells
    dsimp only at hstep
    split at hstep
    · cases pure_eq_ok.1 hstep
      exact hacc
    · obtain ⟨m, -, hstep⟩ := bind_eq_ok.1 hstep
      cases pure_eq_ok.1 hstep
      simp only [addModuleCell_eq]
      refine ⟨hacc.1.step (.buildCell _ ⟨n.catalog.count + 1⟩ m.name (.module e.2.master)
        ((hdb.design hd).modulePorts_nodup e.2.master) (fun _ _ _ _ => ⟨_, rfl⟩) fun s hs => ?_),
        fun e' he' => ?_⟩
      · obtain ⟨t, -, rfl⟩ := List.mem_map.1 hs
        exact PortSource.noConfusion
      · rw [Catalog.face?_buildCell]
        split
        · exact ⟨_, rfl, rfl⟩
        · next hne =>
          rcases List.mem_append.1 he' with he' | he'
          · exact hacc.2 e' he'
          · cases List.mem_singleton.1 he'
            exact absurd rfl hne
  exact hbuilt.1.trans (groupCells_builds (n := { n with catalog := c' }) added hbuilt.2)

theorem afterTopCell_builds (hdb : n.db.WellFormed) (hd : n.design? = some d)
    (e : n.loadDesign = .ok n') : Builds n.timing (n.loadTopCell d).catalog n'.catalog := by
  obtain ⟨d', n₁, hd', hmodules, rfl⟩ := loadDesign_eq_ok e
  obtain rfl : d = d' := Option.some.inj (hd.symm.trans hd')
  have hsame : (n.loadTopCell d).db = n.db := (Loads.loadTopCell n d).db
  have htiming : (n.loadTopCell d).timing = n.timing := (Loads.loadTopCell n d).timing
  rw [withoutModules_eq] at hmodules
  generalize n.loadTopCell d = t at hmodules hsame htiming ⊢
  -- The cells of the modules are taken out, and built anew where the hierarchy is shown.
  have hout : Builds n.timing t.catalog (t.catalog.without .modules) := without_builds ..
  rw [finishDesign_catalog]
  refine Builds.step ?_ (.setBoundaries ..)
  rcases hmodules with ⟨-, e₁⟩ | ⟨-, rfl⟩
  · have hdt : t.design? = some d := (congrArg Database.design? hsame).trans hd
    have hbuilt := loadModuleCells_builds (n := { t with catalog := t.catalog.without .modules })
      (hsame.symm ▸ hdb) hdt e₁
    exact hout.trans (htiming ▸ hbuilt)
  · exact hout

theorem loadDesign_builds (hdb : n.db.WellFormed) (e : n.loadDesign = .ok n') :
    Builds n.timing (n.catalog.without .design) n'.catalog := by
  obtain ⟨d, -, hd, -⟩ := loadDesign_eq_ok e
  exact (loadTopCell_builds hdb hd).trans (afterTopCell_builds hdb hd e)

theorem loadDatabase_builds {db : Database} (hdb : db.WellFormed)
    (e : n.loadDatabase db = .ok n') :
    n'.timing = n.timing ∧ Builds n.timing {} n'.catalog := by
  have hrun := loadDatabase_induct (motive := fun m => Builds n.timing {} m.catalog) hdb (.refl _)
    (fun m m' id r hm h e' => ?_) (fun m id hm h => ?_) e
  · obtain ⟨m, hm, h, hdesign⟩ := hrun
    obtain rfl : m.db = db := hm.only.db
    have htiming : m.timing = n.timing := hm.only.timing
    rcases hdesign with ⟨-, e⟩ | ⟨-, rfl⟩
    · exact ⟨(timing_loadDesign e).trans htiming,
        (h.trans (without_builds ..)).trans (htiming ▸ loadDesign_builds hdb e)⟩
    · exact ⟨htiming, h⟩
  · obtain rfl : m.db = db := hm.only.db
    have htiming : m.timing = n.timing := hm.only.timing
    exact (h.trans (without_builds ..)).trans (htiming ▸ loadLibrary_builds hdb e')
  · have htiming : m.timing = n.timing := hm.only.timing
    have ht : m.catalog.Tidy := (h.steps.intact Catalog.intact_empty).tidy
    exact h.trans (htiming ▸ recordTimingMasters_builds ht id)

/-- A load goes on from the catalog that is there, or starts from nothing. -/
theorem Load.builds (s : n.Load n') (hdb : n.db.WellFormed) (hi : n.catalog.Intact) :
    Builds n'.timing n.catalog n'.catalog ∨ Builds n'.timing {} n'.catalog := by
  have hdesign {n' : Network} (e : n.loadDesign = .ok n') :
      Builds n'.timing n.catalog n'.catalog := by
    rw [timing_loadDesign e]
    exact (without_builds ..).trans (loadDesign_builds hdb e)
  cases s with
  | loadDatabase hdb' e =>
    obtain ⟨htiming, hbuilds⟩ := loadDatabase_builds hdb'.wellFormed e
    exact .inr (htiming ▸ hbuilds)
  | loadLibrary e =>
    rw [(Loads.loadLibrary e).1.timing]
    exact .inl ((without_builds ..).trans (loadLibrary_builds hdb e))
  | loadTiming library =>
    have hadded : (n.loadTiming library).2.timing = n.timing ++ [library] :=
      (Arranges.relinkTiming { n with timing := n.timing ++ [library] } _).only.timing
    rw [hadded]
    exact .inl (relinkTiming_builds (n := { n with timing := n.timing ++ [library] }) hi _)
  | relinkTiming id =>
    exact .inl ((Arranges.relinkTiming n id).only.timing ▸ relinkTiming_builds hi id)
  | loadDesign e => exact .inl (hdesign e)
  | reload e =>
    rcases reload_eq_ok e with e | rfl
    · exact .inl (hdesign e)
    · exact .inl (.refl _)
  | teardown => exact .inr (.refl _)

end DesignView.Network
