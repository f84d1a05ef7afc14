import DesignView.Proofs.Catalog.Part
import DesignView.Proofs.Network.Stored

/-!
Loading a design over a base. What is built for a design does not depend on what is in the catalog
already: it comes out as in a catalog without it, but under higher numbers.
-/

namespace DesignView.Network

variable {n m n' m' : Network} {d : Design} {g : Graft} {before before' : List LibraryIssue}

def repeatedBits (n : Network) (x : CellId) (name : String) : List Mismatch :=
  (n.catalog.groupBuses x fun bus => n.msbFirst bus name).2.filterMap fun p =>
    ((n.catalog.groupBuses x fun bus => n.msbFirst bus name).1.port? p).map fun q =>
      .duplicateBusBit name q.name

theorem groupCell_issues (n : Network) (x : CellId) (name : String) :
    (n.groupCell x name).issues.issues =
      n.issues.issues ++ (n.repeatedBits x name).map fun cause => ⟨cause, .warning⟩ :=
  congrArg (fun m : Network => m.issues.issues) (reportAll_eq ..)

/-- The catalog of the second network is that of the first one, put on a base. Both have reported
the same since the one had reported `before` and the other `before'`. -/
structure Over (g : Graft) (before before' : List LibraryIssue) (n m : Network) : Prop where
  settings : m.settings = n.settings
  db : m.db = n.db
  catalog : m.catalog = g.catalog n.catalog
  issues : ∃ reported, n.issues.issues = before ++ reported ∧ m.issues.issues = before' ++ reported

namespace Over

theorem setCatalog (h : Over g before before' n m) {g' : Graft} {c c' : Catalog}
    (hc : c' = g'.catalog c) :
    Over g' before before' { n with catalog := c } { m with catalog := c' } :=
  ⟨h.settings, h.db, hc, h.issues⟩

theorem msbFirst (h : Over g before before' n m) (bus cell : String) :
    m.msbFirst bus cell = n.msbFirst bus cell := by
  rw [Network.msbFirst, Network.design?, h.db, Network.msbFirst, Network.design?]

theorem groupBuses (h : Over g before before' n m) (x : CellId) (name : String) :
    (m.catalog.groupBuses (g.cellId x) fun bus => m.msbFirst bus name) =
      (g.catalog (n.catalog.groupBuses x fun bus => n.msbFirst bus name).1,
        (n.catalog.groupBuses x fun bus => n.msbFirst bus name).2.map g.portId) := by
  have hmsb : (fun bus => m.msbFirst bus name) = fun bus => n.msbFirst bus name :=
    funext fun bus => h.msbFirst bus name
  rw [h.catalog, hmsb, g.groupBuses]

theorem repeatedBits (h : Over g before before' n m) (x : CellId) (name : String) :
    m.repeatedBits (g.cellId x) name = n.repeatedBits x name := by
  simp only [Network.repeatedBits, h.groupBuses, List.filterMap_map, Function.comp_def,
    Catalog.port?, g.port?_catalog, Option.map_map]
  rfl

theorem groupCell (h : Over g before before' n m) (x : CellId) (name : String) :
    Over g before before' (n.groupCell x name) (m.groupCell (g.cellId x) name) := by
  have hn : n.Only (n.groupCell x name) := only_groupCell ..
  have hm : m.Only (m.groupCell (g.cellId x) name) := only_groupCell ..
  obtain ⟨reported, hreported, hreported'⟩ := h.issues
  refine ⟨hm.settings.trans (h.settings.trans hn.settings.symm),
    hm.db.trans (h.db.trans hn.db.symm), ?_,
    reported ++ (n.repeatedBits x name).map fun cause => ⟨cause, .warning⟩, ?_, ?_⟩
  · rw [groupCell_catalog, groupCell_catalog, h.groupBuses]
  · rw [groupCell_issues, hreported, List.append_assoc]
  · rw [groupCell_issues, hreported', List.append_assoc, h.repeatedBits]

theorem groupCells (h : Over g before before' n m) (cells : List (CellId × String)) :
    Over g before before' (cells.foldl (fun n e => n.groupCell e.1 e.2) n)
      ((cells.map fun e => (g.cellId e.1, e.2)).foldl (fun n e => n.groupCell e.1 e.2) m) := by
  induction cells generalizing n m with
  | nil => exact h
  | cons e cells ih => exact ih (h.groupCell e.1 e.2)

theorem loadTopCell (h : Over g before before' n m)
    (hfree : (n.catalog.libraries.firstKey? fun l => l.source = .design) = none) (d : Design) :
    Over (g.without .design) before before' (n.loadTopCell d) (m.loadTopCell d) := by
  have hself : n.catalog.without .design = n.catalog := by
    rw [Catalog.without, hfree]
  have hwithout : m.catalog.without .design = (g.without .design).catalog n.catalog := by
    rw [h.catalog, g.catalog_without hfree]
  have htop : withTopLibrary m.catalog d =
      (g.without .design).catalog (withTopLibrary n.catalog d) := by
    rw [withTopLibrary, hwithout, withTopLibrary, hself, Graft.addLibrary]
  have hcell : (withTopLibrary m.catalog d).buildCell ⟨(m.catalog.without .design).count + 1⟩
      d.name .design (topPorts d) =
        (g.without .design).catalog ((withTopLibrary n.catalog d).buildCell
          ⟨(n.catalog.without .design).count + 1⟩ d.name .design (topPorts d)) := by
    rw [htop, hwithout, hself]
    exact (g.without .design).buildCell _ ⟨n.catalog.count + 1⟩ d.name .design _
      fun s hs b hb => absurd hb (topPorts_source hs b)
  have hid : (g.without .design).cellId ⟨(withTopLibrary n.catalog d).count + 1⟩ =
      ⟨(withTopLibrary m.catalog d).count + 1⟩ := by
    rw [htop]
    rfl
  have hgroup := (h.setCatalog hcell).groupCell ⟨(withTopLibrary n.catalog d).count + 1⟩ d.name
  rw [loadTopCell_eq, loadTopCell_eq, ← hid]
  exact hgroup

theorem withoutModules (h : Over g before before' n m)
    (hfree : (n.catalog.libraries.firstKey? fun l => l.source = .modules) = none) :
    Over (g.without .modules) before before' n.withoutModules m.withoutModules := by
  have hself : n.catalog.without .modules = n.catalog := by
    rw [Catalog.without, hfree]
  rw [withoutModules_eq, withoutModules_eq]
  refine h.setCatalog ?_
  rw [hself, h.catalog, g.catalog_without hfree]

theorem loadModuleCells (h : Over g before before' n m)
    (hmodules : ∀ a ∈ g.base.cells.entries, ∀ id, a.2.source ≠ .module id)
    (hboundary : g.base.boundaryPorts.keys = []) (e : n.loadModuleCells d = .ok n') :
    ∃ m', m.loadModuleCells d = .ok m' ∧ Over g before before' n' m' := by
  obtain ⟨⟨c, added⟩, hcells, e⟩ := bind_eq_ok.1 e
  cases pure_eq_ok.1 e
  have hstart : m.catalog.addLibrary m.settings.moduleLibrary .modules =
      (g.libraryId ⟨n.catalog.count + 1⟩,
        g.catalog (n.catalog.addLibrary n.settings.moduleLibrary .modules).2) := by
    rw [h.catalog, h.settings, g.addLibrary]
    rfl
  have hfind (c : Catalog) (id : ModuleId) :
      ((g.catalog c).cellOfModule? id).isSome = (c.cellOfModule? id).isSome := by
    have hfirst : (g.catalog c).cellOfModule? id = (c.cellOfModule? id).map g.cellId :=
      OrderedMap.firstKey?_graft (fun a ha => decide_eq_false (hmodules a ha id)) fun _ => rfl
    rw [hfirst, Option.isSome_map]
  have hadd (c : Catalog) (id : ModuleId) (name : String) :
      addModuleCell (g.catalog c) (g.libraryId ⟨n.catalog.count + 1⟩) d id name =
        (g.cellId (addModuleCell c ⟨n.catalog.count + 1⟩ d id name).1,
          g.catalog (addModuleCell c ⟨n.catalog.count + 1⟩ d id name).2) := by
    rw [addModuleCell_eq, addModuleCell_eq, g.buildCell _ _ _ _ _ fun s _ b _ => ?_]
    · rfl
    · rw [hboundary]
      exact List.not_mem_nil
  unfold Network.loadModuleCells
  rw [hstart]
  refine bind_ok_lift (foldlM_ok_lift (R := fun (acc acc' : Catalog × List (CellId × String)) =>
    acc' = (g.catalog acc.1, acc.2.map fun e => (g.cellId e.1, e.2)))
    (fun acc acc' e acc₁ hacc hstep => ?_) rfl hcells) fun acc hacc => ?_
  · subst hacc
    dsimp only at hstep ⊢
    simp only [hfind, hadd]
    split at hstep
    · next hsome =>
      cases pure_eq_ok.1 hstep
      exact ⟨_, if_pos hsome, rfl⟩
    · next hnone =>
      obtain ⟨a, ha, hstep⟩ := bind_eq_ok.1 hstep
      cases pure_eq_ok.1 hstep
      refine ⟨_, (if_neg hnone).trans (bind_eq_ok.2 ⟨a, ha, rfl⟩), ?_⟩
      rw [List.map_append]
      rfl
  · subst hacc
    exact ⟨_, rfl, (h.setCatalog rfl).groupCells added⟩

end Over

theorem exists_loadModuleCells (hd : d.WellFormed) (n : Network) :
    ∃ n', n.loadModuleCells d = .ok n' := by
  unfold Network.loadModuleCells
  refine bind_ok_exists (foldlM_ok_exists (fun e he acc => ?_) _) fun acc => ⟨_, rfl⟩
  dsimp only
  split
  · exact ⟨_, rfl⟩
  · have hmaster : e.2.master ∈ d.modules.ids :=
      hd.modInstMaster (OrderedMap.find?_of_mem hd.modInsts.nodup he)
    obtain ⟨a, ha⟩ := OrderedMap.mem_keys_iff.1 hmaster
    exact bind_ok_exists ⟨a, Table.fetch_eq_ok.2 ha⟩ fun _ => ⟨_, rfl⟩

theorem exists_loadDesign (hdb : n.db.WellFormed) (hd : n.design? = some d) :
    ∃ n', n.loadDesign = .ok n' := by
  cases hh : (n.loadTopCell d).withoutModules.hierarchy with
  | false => exact ⟨_, loadDesign_of_modules hd (.inr ⟨hh, rfl⟩)⟩
  | true =>
    obtain ⟨n', e⟩ := exists_loadModuleCells (hdb.design hd) (n.loadTopCell d).withoutModules
    exact ⟨_, loadDesign_of_modules hd (.inl ⟨hh, e⟩)⟩

theorem firstKey?_eq_none {c : Catalog} {s : LibrarySource} (ht : c.Tidy) (h : ¬c.HasLibrary s) :
    (c.libraries.firstKey? fun l => l.source = s) = none := by
  cases hfirst : c.libraries.firstKey? fun l => l.source = s with
  | none => rfl
  | some l =>
    obtain ⟨a, ha, hsource⟩ := OrderedMap.exists_of_firstKey? ht.libraries.nodup hfirst
    have hlabel := (congrArg (Option.map Library.source) ha).trans
      (congrArg some (of_decide_eq_true hsource))
    exact absurd ⟨l, hlabel⟩ h

structure BothLoaded (g : Graft) (before before' : List LibraryIssue) (n m : Network) : Prop where
  catalog : m.catalog = { ((g.without .design).without .modules).catalog n.catalog with
    boundaries := n.catalog.boundaries }
  constants : m.constants = n.constants
  issues : ∃ reported, n.issues.issues = before ++ reported ∧ m.issues.issues = before' ++ reported

theorem Over.loadDesign (h : Over g before before' n m) (hm : n.catalog.Mirrors n.db)
    (hdb : n.db.WellFormed) (hn : n.catalog.Stocked n.db)
    (hphysical : ∀ s, n.catalog.HasLibrary s → ∃ id, s = .physical id)
    (hbase : g.base.Mirrors n.db) (e : n.loadDesign = .ok n') :
    ∃ m', m.loadDesign = .ok m' ∧ BothLoaded g before before' n' m' := by
  obtain ⟨d, n₁, hd, hmodules, rfl⟩ := loadDesign_eq_ok e
  have hd' : m.design? = some d := (congrArg Database.design? h.db).trans hd
  -- The top cells.
  have hfree : ¬n.catalog.HasLibrary .design := fun hlibrary => by
    obtain ⟨id, hid⟩ := hphysical _ hlibrary
    cases hid
  have htop := h.loadTopCell (firstKey?_eq_none hm.tidy hfree) d
  obtain ⟨-, hstocked, hlibraries⟩ := stocked_loadTopCell hm hdb hd hn
  have hfree : ¬(n.loadTopCell d).catalog.HasLibrary .modules := by
    rw [hlibraries]
    rintro (hs | hlibrary)
    · cases hs
    · obtain ⟨id, hid⟩ := hphysical _ hlibrary
      cases hid
  have hout := htop.withoutModules (firstKey?_eq_none hstocked.intact.tidy hfree)
  -- The cells of the modules.
  obtain ⟨hbase', hnone⟩ := (hbase.without .design).1.mirrors.without .modules
  have hintact : ((g.base.without .design).without .modules).Intact :=
    (g.intact.without .design).without .modules
  have hcells : ∀ a ∈ ((g.base.without .design).without .modules).cells.entries, ∀ id,
      a.2.source ≠ .module id := fun a ha id =>
    hbase'.mirrors.source_ne_module hnone
      (OrderedMap.find?_of_mem hbase'.mirrors.tidy.cells.nodup ha) id
  have hall : ∃ m₁, ((m.loadTopCell d).withoutModules.hierarchy = true ∧
        (m.loadTopCell d).withoutModules.loadModuleCells d = .ok m₁ ∨
      (m.loadTopCell d).withoutModules.hierarchy = false ∧
        m₁ = (m.loadTopCell d).withoutModules) ∧
      Over ((g.without .design).without .modules) before before' n₁ m₁ := by
    have hh : (m.loadTopCell d).withoutModules.hierarchy =
        (n.loadTopCell d).withoutModules.hierarchy := congrArg Settings.hierarchy hout.settings
    rcases hmodules with ⟨hhn, e₁⟩ | ⟨hhn, rfl⟩
    · have hboundary := hbase'.mirrors.boundaryPorts_eq_empty hintact hnone
      obtain ⟨m₁, e₁', h₁⟩ := hout.loadModuleCells hcells hboundary e₁
      exact ⟨m₁, .inl ⟨hh.trans hhn, e₁'⟩, h₁⟩
    · exact ⟨_, .inr ⟨hh.trans hhn, rfl⟩, hout⟩
  obtain ⟨m₁, hmodules', h₁⟩ := hall
  refine ⟨m₁.finishDesign d, loadDesign_of_modules hd' hmodules', ?_, rfl, h₁.issues⟩
  rw [finishDesign_catalog, finishDesign_catalog, h₁.catalog]
  rfl

end DesignView.Network
