import DesignView.Proofs.Network.Arrange
import DesignView.Proofs.Network.Outline
import DesignView.Proofs.Network.Shown

/-!
The store of libraries. In every network that has a history, each cell is in one stored library
under a name of its own and each port in one stored cell, whatever refers to a cell or a port finds
it, and there are libraries for the design and its modules exactly when the design is loaded.
-/

namespace DesignView

def Database.nameOf? (db : Database) : CellSource → Option String
  | .physical id => (db.masters.find? id).map (·.name)
  | .module id => (db.design?.bind fun d => d.modules.find? id).map (·.name)
  | .design => db.design?.map (·.name)

namespace Database

variable {db : Database} {d : Design} {name : String}

theorem nameOf?_physical {id : MasterId} {m : Master} (h : db.masters.find? id = some m) :
    db.nameOf? (.physical id) = some m.name := by
  rw [nameOf?, h, Option.map_some]

theorem nameOf?_module {id : ModuleId} {m : Module} (hd : db.design? = some d)
    (h : d.modules.find? id = some m) : db.nameOf? (.module id) = some m.name := by
  rw [nameOf?, hd, Option.bind_some, h, Option.map_some]

theorem nameOf?_design (hd : db.design? = some d) : db.nameOf? .design = some d.name := by
  rw [nameOf?, hd, Option.map_some]

end Database

namespace Design.WellFormed

variable {d : Design}

theorem topPorts_nodup (h : d.WellFormed) :
    ((Network.topPorts d).map (·.name)).Nodup := by
  have hall : d.bterms.entries = d.bterms.select fun _ => true := (List.filter_true _).symm
  rw [Network.topPorts, List.map_map, hall]
  exact h.bterms.nodup_map_values fun _ _ _ _ hx hy _ _ e => h.btermNames hx hy e

theorem modulePorts_nodup (h : d.WellFormed) (m : ModuleId) :
    ((Network.modulePorts d m).map (·.name)).Nodup := by
  rw [Network.modulePorts, List.map_map]
  exact h.modBTerms.nodup_map_values fun _ _ _ _ hx hy hmx hmy e => h.modBTermNames hx hy
    (Prod.ext ((of_decide_eq_true hmx).trans (of_decide_eq_true hmy).symm) e)

end Design.WellFormed

namespace Catalog

variable {c c' : Catalog} {db : Database} {s s' : LibrarySource} {x : CellId}

structure Stocked (c : Catalog) (db : Database) : Prop where
  intact : c.Intact
  named : ∀ ⦃x y⦄, c.cells.find? x = some y → db.nameOf? y.source = some y.name

theorem stocked_empty (db : Database) : ({} : Catalog).Stocked db :=
  ⟨intact_empty, fun _ _ h => by cases h⟩

namespace Stocked

theorem of_heads (h : c.Stocked db) (hc : c'.Intact) (hheads : ∀ x, c'.head? x = c.head? x) :
    c'.Stocked db := by
  refine ⟨hc, fun x y' hx => ?_⟩
  have hhead : c.head? x = some y'.head :=
    (hheads x).symm.trans (congrArg (Option.map Cell.head) hx)
  obtain ⟨y, hy, hsame⟩ := Option.map_eq_some_iff.1 hhead
  have hnamed : db.nameOf? y.source = some y.name := h.named hy
  have hsource : y.source = y'.source := (Cell.mk.inj hsame).2.2.1
  have hname : y.name = y'.name := (Cell.mk.inj hsame).1
  rw [← hsource, ← hname, hnamed]

theorem addLibrary (h : c.Stocked db) (name : String) (s : LibrarySource) :
    (c.addLibrary name s).2.Stocked db := ⟨h.intact.addLibrary name s, h.named⟩

theorem removeLibrary (h : c.Stocked db) (id : LibraryId) : (c.removeLibrary id).Stocked db := by
  refine ⟨h.intact.removeLibrary id, fun x y hx => ?_⟩
  rw [h.intact.tidy.cells_removeLibrary, Option.filter_eq_some_iff] at hx
  exact h.named hx.1

theorem without (h : c.Stocked db) (s : LibrarySource) : (c.without s).Stocked db := by
  unfold Catalog.without
  split
  · exact h.removeLibrary _
  · exact h

theorem buildCell (h : c.Stocked db) (library : LibraryId) {name : String} {source : CellSource}
    (hnamed : db.nameOf? source = some name) {ps : List PortSpec}
    (hnodup : (ps.map (·.name)).Nodup)
    (hsources : ∀ s ∈ ps, ∀ b, s.source = .moduleBoundary b → ∃ m, source = .module m) :
    (c.buildCell library name source ps).Stocked db := by
  have hcell : (c.addCell library name source).2.Stocked db := by
    refine ⟨h.intact.addCell .., fun x y hx => ?_⟩
    have hx : (c.cells.insert ⟨c.count + 1⟩ { name, library, source }).find? x = some y := hx
    rw [OrderedMap.find?_insert] at hx
    split at hx
    · cases hx
      exact hnamed
    · exact h.named hx
  exact hcell.of_heads (h.intact.buildCell library name source hnodup hsources)
    fun x => head?_of_face? ((SameCells.addPorts ..).faces x)

end Stocked

def HasLibrary (c : Catalog) (s : LibrarySource) : Prop := ∃ a, c.librarySource? a = some s

theorem Tidy.hasLibrary_addLibrary (h : c.Tidy) (name : String) :
    (c.addLibrary name s').2.HasLibrary s ↔ s = s' ∨ c.HasLibrary s := by
  constructor
  · rintro ⟨a, ha⟩
    rw [Catalog.librarySource?_addLibrary] at ha
    split at ha
    · exact .inl (Option.some.inj ha).symm
    · exact .inr ⟨a, ha⟩
  · rintro (rfl | ⟨a, ha⟩)
    · exact ⟨_, (Catalog.librarySource?_addLibrary c name s _).trans (if_pos rfl)⟩
    · exact ⟨a, h.librarySource?_addLibrary ha name s'⟩

theorem Mirrors.hasLibrary_without (h : c.Mirrors db) :
    (c.without s').HasLibrary s ↔ s ≠ s' ∧ c.HasLibrary s := by
  have hnone := (h.without s').2
  constructor
  · rintro ⟨a, ha⟩
    refine ⟨fun e => hnone a (e ▸ ha), a, ?_⟩
    unfold Catalog.without at ha
    split at ha
    · rw [librarySource?_removeLibrary] at ha
      split at ha
      · cases ha
      · exact ha
    · exact ha
  · rintro ⟨hne, a, ha⟩
    refine ⟨a, ?_⟩
    unfold Catalog.without
    split
    · next old hold =>
      obtain ⟨lib, hlib, hsource⟩ := OrderedMap.exists_of_firstKey? h.tidy.libraries.nodup hold
      have hold : c.librarySource? old = some s' :=
        (congrArg (Option.map _) hlib).trans (congrArg some (of_decide_eq_true hsource))
      rw [librarySource?_removeLibrary, if_neg, ha]
      rintro rfl
      exact hne (Option.some.inj (ha.symm.trans hold))
    · exact ha

theorem hasLibrary_congr (h : c'.libraries = c.libraries) : c'.HasLibrary s ↔ c.HasLibrary s := by
  rw [HasLibrary, HasLibrary]
  simp only [librarySource?, h]

end Catalog

namespace Network

open Catalog (HasLibrary)

variable {n n' n'' : Network} {d : Design}

theorem Arranges.stocked {db : Database} (h : n.Arranges n') (hn : n.catalog.Stocked db) :
    n'.catalog.Stocked db := hn.of_heads (h.intact hn.intact) h.heads

structure Stocks (n n' : Network) : Prop where
  only : n.Only n'
  libraries : n'.catalog.libraries = n.catalog.libraries
  stocked : n.catalog.Stocked n.db → n'.catalog.Stocked n.db

theorem Arranges.stocks (h : n.Arranges n') : n.Stocks n' := ⟨h.only, h.libraries, h.stocked⟩

theorem Stocks.trans (h : n.Stocks n') (h' : n'.Stocks n'') : n.Stocks n'' :=
  ⟨h.only.trans h'.only, h'.libraries.trans h.libraries,
    fun hn => h.only.db ▸ h'.stocked (h.only.db.symm ▸ h.stocked hn)⟩

theorem masterPorts_nodup (hdb : n.db.WellFormed) (id : MasterId) :
    ((masterPorts n.db id).map (·.name)).Nodup := by
  rw [masterPorts, List.map_map]
  exact hdb.mtermsOf_names_nodup id

theorem masterPorts_source {id : MasterId} {s : PortSpec} (hs : s ∈ masterPorts n.db id)
    (b : ModBTermId) : s.source ≠ .moduleBoundary b := by
  obtain ⟨e, -, rfl⟩ := List.mem_map.1 hs
  exact PortSource.noConfusion

theorem topPorts_source {s : PortSpec} (hs : s ∈ topPorts d) (b : ModBTermId) :
    s.source ≠ .moduleBoundary b := by
  obtain ⟨e, -, rfl⟩ := List.mem_map.1 hs
  exact PortSource.noConfusion

theorem stocks_loadMaster (hdb : n.db.WellFormed) {id : MasterId} {a : Master}
    (ha : n.db.masters.find? id = some a) (library : LibraryId) :
    n.Stocks (n.loadMaster library id a) := by
  obtain ⟨m, hm, hload⟩ := loadMaster_eq n library id a
  generalize hc : n.catalog.buildCell library a.name (.physical id) (masterPorts n.db id) = c at hm
  have hlibraries : c.libraries = n.catalog.libraries :=
    hc ▸ (Catalog.SameCells.addPorts ..).libraries
  have hbuild : n.Stocks { n with catalog := c } := by
    refine ⟨⟨_, _, _, _, _, rfl⟩, hlibraries, fun h => ?_⟩
    rw [← hc]
    exact h.buildCell library (Database.nameOf?_physical ha) (masterPorts_nodup hdb id)
      fun s hs b hb => absurd hb (masterPorts_source hs b)
  have hlabel : c.cellLabel? ⟨n.catalog.count + 1⟩ = some ⟨library, .physical id⟩ := by
    rw [← hc, Catalog.cellLabel?_buildCell, if_pos rfl]
  have hgroup : Arranges { n with catalog := c }
      (Network.groupCell { n with catalog := c } ⟨n.catalog.count + 1⟩ a.name) := .groupCell ..
  have hrecord := Arranges.recordMaster
    ((Catalog.cellLabel?_of_head? (hgroup.heads _)).trans hlabel) rfl a.name
  rw [← hm] at hrecord
  rw [hload]
  exact hbuild.trans ((hgroup.trans hrecord).trans (.linkFirst ..)).stocks

theorem stocks_loadMasters (hdb : n.db.WellFormed) (library : LibraryId)
    {es : List (MasterId × Master)} (hes : ∀ e ∈ es, n.db.masters.find? e.1 = some e.2) :
    n.Stocks (es.foldl (fun n e => n.loadMaster library e.1 e.2) n) := by
  induction es generalizing n with
  | nil => exact (Arranges.refl n).stocks
  | cons e es ih =>
    have hone : n.Stocks (n.loadMaster library e.1 e.2) :=
      stocks_loadMaster hdb (hes e List.mem_cons_self) library
    rw [List.foldl_cons]
    generalize n.loadMaster library e.1 e.2 = n₁ at hone ⊢
    have hdb₁ : n₁.db = n.db := hone.only.db
    refine hone.trans (ih (hdb₁.symm ▸ hdb) fun e' he' => ?_)
    rw [hdb₁]
    exact hes e' (List.mem_cons_of_mem e he')

theorem stocked_loadLibrary (hm : n.catalog.Mirrors n.db) (hdb : n.db.WellFormed)
    (hn : n.catalog.Stocked n.db) {id : LibId} {r : LibraryId}
    (e : n.loadLibrary id = .ok (r, n')) : n.Only n' ∧ n'.catalog.Stocked n.db ∧
      ∀ s, n'.catalog.HasLibrary s ↔ s = .physical id ∨ n.catalog.HasLibrary s := by
  obtain ⟨lib, -, e⟩ := bind_eq_ok.1 e
  obtain ⟨-, rfl⟩ := Prod.mk.inj (pure_eq_ok.1 e)
  obtain ⟨c, hc⟩ : ∃ c, c = ((n.catalog.without (.physical id)).addLibrary lib.name
      (.physical id)).2 := ⟨_, rfl⟩
  have hes : ∀ e ∈ n.db.mastersOf id, n.db.masters.find? e.1 = some e.2 := by
    intro e he
    exact (hdb.masters.mem_select.1 he).1
  have hmasters := stocks_loadMasters (n := { n with catalog := c }) hdb
    ⟨(n.catalog.without (.physical id)).count + 1⟩ hes
  have hstocked : c.Stocked n.db := hc ▸ (hn.without _).addLibrary ..
  have hout := (hm.without (.physical id)).1.mirrors
  have hlibraries (s : LibrarySource) :
      c.HasLibrary s ↔ s = .physical id ∨ n.catalog.HasLibrary s := by
    rw [hc, hout.tidy.hasLibrary_addLibrary, hm.hasLibrary_without]
    by_cases hs : s = .physical id <;> simp [hs]
  subst hc
  refine ⟨?_, hmasters.stocked hstocked,
    fun s => (Catalog.hasLibrary_congr hmasters.libraries).trans (hlibraries s)⟩
  have hone : n.Only { n with
      catalog := ((n.catalog.without (.physical id)).addLibrary lib.name (.physical id)).2 } :=
    ⟨_, _, _, _, _, rfl⟩
  exact (hone.trans hmasters.only).trans ⟨_, _, _, _, _, rfl⟩

theorem stocked_loadTopCell (hm : n.catalog.Mirrors n.db) (hdb : n.db.WellFormed)
    (hd : n.design? = some d) (hn : n.catalog.Stocked n.db) : n.Only (n.loadTopCell d) ∧
      (n.loadTopCell d).catalog.Stocked n.db ∧
      ∀ s, (n.loadTopCell d).catalog.HasLibrary s ↔ s = .design ∨ n.catalog.HasLibrary s := by
  rw [loadTopCell_eq]
  generalize hc : (withTopLibrary n.catalog d).buildCell ⟨(n.catalog.without .design).count + 1⟩
    d.name .design (topPorts d) = c
  have hstocked : (withTopLibrary n.catalog d).Stocked n.db := (hn.without _).addLibrary ..
  have hbuilt : c.Stocked n.db := by
    rw [← hc]
    exact hstocked.buildCell _ (Database.nameOf?_design hd) (hdb.design hd).topPorts_nodup
      fun s hs b hb => absurd hb (topPorts_source hs b)
  have hlibraries (s : LibrarySource) : c.HasLibrary s ↔ s = .design ∨ n.catalog.HasLibrary s := by
    have hsame : c.libraries = (withTopLibrary n.catalog d).libraries :=
      hc ▸ (Catalog.SameCells.addPorts ..).libraries
    have hout := (hm.without .design).1.mirrors
    rw [Catalog.hasLibrary_congr hsame, withTopLibrary, hout.tidy.hasLibrary_addLibrary,
      hm.hasLibrary_without]
    by_cases hs : s = .design <;> simp [hs]
  generalize (⟨(withTopLibrary n.catalog d).count + 1⟩ : CellId) = cell
  have hgroup : Arranges { n with catalog := c }
      (Network.groupCell { n with catalog := c } cell d.name) := .groupCell ..
  have hone : n.Only { n with catalog := c } := ⟨_, _, _, _, _, rfl⟩
  exact ⟨hone.trans hgroup.only, hgroup.stocked hbuilt,
    fun s => (Catalog.hasLibrary_congr hgroup.libraries).trans (hlibraries s)⟩

theorem stocked_loadModuleCells (ht : n.catalog.Tidy) (hdb : n.db.WellFormed)
    (hd : n.design? = some d) (hn : n.catalog.Stocked n.db) (e : n.loadModuleCells d = .ok n') :
    n.Only n' ∧ n'.catalog.Stocked n.db ∧
      ∀ s, n'.catalog.HasLibrary s ↔ s = .modules ∨ n.catalog.HasLibrary s := by
  obtain ⟨⟨c', added⟩, hcells, e⟩ := bind_eq_ok.1 e
  cases pure_eq_ok.1 e
  have hfold : c'.Stocked n.db ∧ c'.libraries =
      (n.catalog.addLibrary n.settings.moduleLibrary .modules).2.libraries := by
    refine foldlM_ok_induct (motive := fun acc : Catalog × List (CellId × String) =>
      acc.1.Stocked n.db ∧ acc.1.libraries =
        (n.catalog.addLibrary n.settings.moduleLibrary .modules).2.libraries)
      (fun acc e acc' hacc hstep => ?_) ⟨hn.addLibrary _ _, rfl⟩ hcells
    dsimp only at hstep
    split at hstep
    · cases pure_eq_ok.1 hstep
      exact hacc
    · obtain ⟨m, hm, hstep⟩ := bind_eq_ok.1 hstep
      cases pure_eq_ok.1 hstep
      have hcell := hacc.1.buildCell ⟨n.catalog.count + 1⟩
        (Database.nameOf?_module hd (Table.fetch_eq_ok.1 hm))
        ((hdb.design hd).modulePorts_nodup e.2.master) fun _ _ _ _ => ⟨_, rfl⟩
      simp only [addModuleCell_eq]
      exact ⟨hcell, (Catalog.SameCells.addPorts ..).libraries.trans hacc.2⟩
  have hgroup : Arranges { n with catalog := c' }
      (added.foldl (fun n e => n.groupCell e.1 e.2) { n with catalog := c' }) := .groupCells _ added
  have hone : n.Only { n with catalog := c' } := ⟨_, _, _, _, _, rfl⟩
  refine ⟨hone.trans hgroup.only, hgroup.stocked hfold.1, fun s => ?_⟩
  rw [Catalog.hasLibrary_congr hgroup.libraries, Catalog.hasLibrary_congr hfold.2,
    ht.hasLibrary_addLibrary]

/-- The catalog is stocked, and there are libraries for the design and for its modules exactly when
these are loaded. -/
structure Stored (n : Network) : Prop where
  stocked : n.catalog.Stocked n.db
  loaded : n.designLoaded = n.design?.isSome
  top : n.catalog.HasLibrary .design ↔ n.designLoaded = true
  modules : n.catalog.HasLibrary .modules ↔ n.designLoaded = true ∧ n.hierarchy = true
  boundaries : n.design? = none → n.catalog.boundaries = {}

theorem Stored.of_finish (hd : n.design? = some d) (hn : n.catalog.Stocked n.db)
    (htop : n.catalog.HasLibrary .design)
    (hmodules : n.catalog.HasLibrary .modules ↔ n.hierarchy = true) :
    (n.finishDesign d).Stored := by
  have hm := finishDesign_catalog n d
  refine ⟨?_, (congrArg Option.isSome hd).symm, ?_, ?_, fun hnone => by cases hnone.symm.trans hd⟩
  · rw [hm]
    exact ⟨hn.intact.setBoundaries _, hn.named⟩
  · rw [hm]
    exact ⟨fun _ => rfl, fun _ => htop⟩
  · rw [hm]
    exact hmodules.trans ⟨fun h => ⟨rfl, h⟩, fun h => h.2⟩

theorem stored_of_loadDesign (hm : n.catalog.Mirrors n.db) (hdb : n.db.WellFormed)
    (hn : n.catalog.Stocked n.db) (e : n.loadDesign = .ok n') : n'.Stored := by
  obtain ⟨d, n₁, hd, hmodules, rfl⟩ := loadDesign_eq_ok e
  obtain ⟨honly, hstocked, hlibraries⟩ := stocked_loadTopCell hm hdb hd hn
  obtain ⟨-, hdbt, rt, -⟩ := rebuilds_loadTopCell hm d
  rw [withoutModules_eq] at hmodules
  generalize n.loadTopCell d = t at honly hstocked hlibraries hdbt rt hmodules
  have hdt : t.design? = some d := (congrArg Database.design? hdbt).trans hd
  have hout : (t.catalog.without .modules).HasLibrary .design :=
    rt.mirrors.hasLibrary_without.2 ⟨LibrarySource.noConfusion, (hlibraries _).2 (.inl rfl)⟩
  have hstocked : (t.catalog.without .modules).Stocked t.db := hdbt.symm ▸ hstocked.without .modules
  rcases hmodules with ⟨hh, e₁⟩ | ⟨hh, rfl⟩
  · have ht := (rt.mirrors.without .modules).1.mirrors.tidy
    obtain ⟨honly₁, hstocked₁, hlibraries₁⟩ := stocked_loadModuleCells
      (n := { t with catalog := t.catalog.without .modules }) ht (hdbt.symm ▸ hdb) hdt hstocked e₁
    have hh₁ : n₁.hierarchy = true := (congrArg Settings.hierarchy honly₁.settings).trans hh
    refine .of_finish ((congrArg Database.design? honly₁.db).trans hdt) (honly₁.db.symm ▸ hstocked₁)
      ((hlibraries₁ _).2 (.inr hout)) ⟨fun _ => hh₁, fun _ => (hlibraries₁ _).2 (.inl rfl)⟩
  · refine .of_finish hdt hstocked hout ⟨fun h => ?_, fun h => ?_⟩
    · exact absurd rfl (rt.mirrors.hasLibrary_without.1 h).1
    · cases hh.symm.trans h

theorem Arranges.stored (h : n.Arranges n') (hn : n.Stored) : n'.Stored := by
  have hd : n'.design? = n.design? := congrArg Database.design? h.only.db
  have hh : n'.hierarchy = n.hierarchy := congrArg Settings.hierarchy h.only.settings
  refine ⟨h.only.db.symm ▸ h.stocked hn.stocked, ?_, ?_, ?_, fun hnone => ?_⟩
  · rw [h.only.designLoaded, hd, hn.loaded]
  · rw [Catalog.hasLibrary_congr h.libraries, h.only.designLoaded, hn.top]
  · rw [Catalog.hasLibrary_congr h.libraries, h.only.designLoaded, hh, hn.modules]
  · rw [h.boundaries, hn.boundaries (hd.symm.trans hnone)]

theorem Stored.loadLibrary (h : n.Stored) (hm : n.catalog.Mirrors n.db) (hdb : n.db.WellFormed)
    {id : LibId} {r : LibraryId} (e : n.loadLibrary id = .ok (r, n')) : n'.Stored := by
  obtain ⟨honly, hstocked, hlibraries⟩ := stocked_loadLibrary hm hdb h.stocked e
  have hd : n'.design? = n.design? := congrArg Database.design? honly.db
  have hh : n'.hierarchy = n.hierarchy := congrArg Settings.hierarchy honly.settings
  have hother {s : LibrarySource} (hs : s ≠ .physical id) :
      n'.catalog.HasLibrary s ↔ n.catalog.HasLibrary s := by
    rw [hlibraries, or_iff_right hs]
  refine ⟨honly.db.symm ▸ hstocked, ?_, ?_, ?_, fun hnone => ?_⟩
  · rw [honly.designLoaded, hd, h.loaded]
  · rw [hother LibrarySource.noConfusion, honly.designLoaded, h.top]
  · rw [hother LibrarySource.noConfusion, honly.designLoaded, hh, h.modules]
  · rw [(Loads.loadLibrary e).1.catalog.boundaries, h.boundaries (hd.symm.trans hnone)]

structure LoadsFrom (n : Network) (db : Database) (m : Network) : Prop where
  only : (n.reset db).Only m
  mirrors : m.catalog.Mirrors db
  stocked : m.catalog.Stocked db

theorem loadDatabase_induct {motive : Network → Prop} {db : Database} (hdb : db.WellFormed)
    (hreset : motive (n.reset db))
    (hlibrary : ∀ ⦃m m' id r⦄, n.LoadsFrom db m → motive m → m.loadLibrary id = .ok (r, m') →
      motive m')
    (hrecord : ∀ ⦃m⦄ id, n.LoadsFrom db m → motive m → motive (m.recordTimingMasters id))
    (e : n.loadDatabase db = .ok n') : ∃ m, n.LoadsFrom db m ∧ motive m ∧
      ((db.design?.isSome = true ∧ m.loadDesign = .ok n') ∨ db.design? = none ∧ n' = m) := by
  obtain ⟨n₁, e₁, e⟩ := bind_eq_ok.1 e
  have hlibraries : n.LoadsFrom db n₁ ∧ motive n₁ := by
    refine foldlM_ok_induct (motive := fun m : Network => n.LoadsFrom db m ∧ motive m)
      (fun m id m' hm hstep => ?_)
      ⟨⟨.refl _, Catalog.mirrors_empty db, Catalog.stocked_empty db⟩, hreset⟩ e₁
    obtain ⟨⟨r, m₁⟩, hload, hstep⟩ := bind_eq_ok.1 hstep
    cases pure_eq_ok.1 hstep
    obtain ⟨hm, hmotive⟩ := hm
    obtain rfl : m.db = db := hm.only.db
    obtain ⟨-, -, hr, -⟩ := rebuilds_loadLibrary hm.mirrors hdb hload
    obtain ⟨honly, hstocked, -⟩ := stocked_loadLibrary hm.mirrors hdb hm.stocked hload
    exact ⟨⟨hm.only.trans honly, hr.mirrors, hstocked⟩, hlibrary hm hmotive hload⟩
  extract_lets n₂ at e
  have hrecorded : n.LoadsFrom db n₂ ∧ motive n₂ := by
    refine List.foldlRecOn (motive := fun m : Network => n.LoadsFrom db m ∧ motive m) _ _
      hlibraries fun m hm id _ => ?_
    obtain ⟨hm, hmotive⟩ := hm
    have r := Arranges.recordTimingMasters m id
    obtain rfl : m.db = db := hm.only.db
    exact ⟨⟨hm.only.trans r.only,
      ((Regroups.recordTimingMasters m id).rebuilds (s := .design) hm.mirrors).mirrors,
      r.stocked hm.stocked⟩, hrecord id hm hmotive⟩
  have hdesign : n₂.db = db := hrecorded.1.only.db
  refine ⟨n₂, hrecorded.1, hrecorded.2, ?_⟩
  split at e
  · next hsome => exact .inl ⟨hsome, e⟩
  · next hnone =>
    exact .inr ⟨by simpa using hnone, (pure_eq_ok.1 e).symm⟩

structure OnlyPhysical (n : Network) : Prop where
  libraries : ∀ s, n.catalog.HasLibrary s → ∃ id, s = .physical id
  boundaries : n.catalog.boundaries = {}

theorem OnlyPhysical.loadLibrary (h : n.OnlyPhysical) (hm : n.catalog.Mirrors n.db)
    (hdb : n.db.WellFormed) (hn : n.catalog.Stocked n.db) {id : LibId} {r : LibraryId}
    (e : n.loadLibrary id = .ok (r, n')) : n'.OnlyPhysical := by
  obtain ⟨-, -, hlibraries⟩ := stocked_loadLibrary hm hdb hn e
  refine ⟨fun s hs => ?_, (Loads.loadLibrary e).1.catalog.boundaries.trans h.boundaries⟩
  rcases (hlibraries s).1 hs with rfl | hs
  · exact ⟨id, rfl⟩
  · exact h.libraries s hs

theorem OnlyPhysical.arranges (h : n.OnlyPhysical) (r : n.Arranges n') : n'.OnlyPhysical :=
  ⟨fun s hs => h.libraries s ((Catalog.hasLibrary_congr r.libraries).1 hs),
    r.boundaries.trans h.boundaries⟩

theorem OnlyPhysical.stored (h : n.OnlyPhysical) (hn : n.catalog.Stocked n.db)
    (hd : n.design? = none) (hl : n.designLoaded = false) : n.Stored := by
  have hother {s : LibrarySource} (hs : ∀ id, s ≠ .physical id) : ¬n.catalog.HasLibrary s := by
    intro hlibrary
    obtain ⟨id, rfl⟩ := h.libraries s hlibrary
    exact hs id rfl
  have htop : ¬n.catalog.HasLibrary .design := hother fun _ => LibrarySource.noConfusion
  have hmodules : ¬n.catalog.HasLibrary .modules := hother fun _ => LibrarySource.noConfusion
  refine ⟨hn, ?_, ?_, ?_, fun _ => h.boundaries⟩
  · rw [hl, hd]
    rfl
  · simp [htop, hl]
  · simp [hmodules, hl]

theorem stored_of_empty (hd : n.design? = none) (hl : n.designLoaded = false)
    (hc : n.catalog = {}) : n.Stored := by
  have h : n.OnlyPhysical := by
    refine ⟨?_, by rw [hc]⟩
    rintro s ⟨a, ha⟩
    rw [hc] at ha
    cases ha
  exact h.stored (hc.symm ▸ Catalog.stocked_empty n.db) hd hl

theorem onlyPhysical_reset (n : Network) (db : Database) : (n.reset db).OnlyPhysical := by
  refine ⟨?_, rfl⟩
  rintro s ⟨a, ha⟩
  cases ha

theorem stored_of_loadDatabase {db : Database} (hdb : db.WellFormed)
    (e : n.loadDatabase db = .ok n') : n'.Stored := by
  have hrun := loadDatabase_induct hdb (onlyPhysical_reset n db)
    (fun m _ _ _ hm h e' => by
      obtain rfl : m.db = db := hm.only.db
      exact h.loadLibrary hm.mirrors hdb hm.stocked e')
    (fun m id _ h => h.arranges (.recordTimingMasters m id)) e
  obtain ⟨m, hm, h, hdesign⟩ := hrun
  obtain rfl : m.db = db := hm.only.db
  rcases hdesign with ⟨-, e⟩ | ⟨hnone, rfl⟩
  · exact stored_of_loadDesign hm.mirrors hdb hm.stocked e
  · exact h.stored hm.stocked hnone hm.only.designLoaded

theorem Load.stored (s : n.Load n') (hdb : n.db.WellFormed) (hm : n.catalog.Mirrors n.db)
    (h : n.Stored) : n'.Stored := by
  cases s with
  | loadDatabase hdb' e => exact stored_of_loadDatabase hdb'.wellFormed e
  | loadLibrary e => exact h.loadLibrary hm hdb e
  | loadTiming library =>
    have hloaded : Stored { n with timing := n.timing ++ [library] } :=
      ⟨h.stocked, h.loaded, h.top, h.modules, h.boundaries⟩
    exact (Arranges.relinkTiming _ _).stored hloaded
  | relinkTiming id => exact (Arranges.relinkTiming n id).stored h
  | loadDesign e => exact stored_of_loadDesign hm hdb h.stocked e
  | reload e =>
    unfold Network.reload at e
    split at e
    · exact stored_of_loadDesign hm hdb h.stocked e
    · cases pure_eq_ok.1 e
      exact ⟨h.stocked, h.loaded, h.top, h.modules, h.boundaries⟩
  | teardown => exact stored_of_empty rfl rfl rfl

theorem Stored.congr (h : n.Stored) (hsettings : n'.settings = n.settings) (hdb : n'.db = n.db)
    (hcatalog : n'.catalog = n.catalog) (hloaded : n'.designLoaded = n.designLoaded) :
    n'.Stored := by
  have hd : n'.design? = n.design? := congrArg Database.design? hdb
  have hh : n'.hierarchy = n.hierarchy := congrArg Settings.hierarchy hsettings
  refine ⟨hcatalog ▸ hdb.symm ▸ h.stocked, ?_, ?_, ?_, fun hnone => ?_⟩
  · rw [hloaded, hd, h.loaded]
  · rw [hcatalog, hloaded, h.top]
  · rw [hcatalog, hloaded, hh, h.modules]
  · rw [hcatalog, h.boundaries (hd.symm.trans hnone)]

theorem nameOf?_withDesign {d' : Design} (hd : n.design? = some d)
    (hnames : d'.name = d.name ∧ d'.modules = d.modules) (s : CellSource) :
    (n.withDesign d').db.nameOf? s = n.db.nameOf? s := by
  have hd : n.db.design? = some d := hd
  cases s with
  | physical id => rfl
  | module id => simp only [Database.nameOf?, withDesign, hd, Option.bind_some, hnames.2]
  | design => simp only [Database.nameOf?, withDesign, hd, Option.map_some, hnames.1]

theorem Stored.withDesign (h : n.Stored) {d' : Design} (hd : n.design? = some d)
    (hnames : d'.name = d.name ∧ d'.modules = d.modules) {c : Catalog} (hc : c.Intact)
    (hlibraries : c.libraries = n.catalog.libraries)
    (hheads : ∀ x, c.head? x = n.catalog.head? x) :
    Stored ({ n with catalog := c }.withDesign d') := by
  have hc' : c.Stocked n.db := h.stocked.of_heads hc hheads
  refine ⟨⟨hc, fun x y hx => ?_⟩, ?_, ?_, ?_, fun hnone => by cases hnone⟩
  · have hn := nameOf?_withDesign (n := { n with catalog := c }) hd hnames y.source
    exact hn.trans (hc'.named hx)
  · have hloaded := h.loaded
    rw [hd] at hloaded
    exact hloaded
  · exact (Catalog.hasLibrary_congr hlibraries).trans h.top
  · exact (Catalog.hasLibrary_congr hlibraries).trans h.modules

theorem Stored.setDesign (h : n.Stored) {d' : Design} (hd : n.design? = some d)
    (hnames : d'.name = d.name ∧ d'.modules = d.modules) : (n.withDesign d').Stored :=
  h.withDesign hd hnames h.stocked.intact rfl fun _ => rfl

theorem setTopPort_intact (h : n.catalog.Intact) (name : String) (direction : PortDirection) :
    ∃ c, n.setTopPort name direction = { n with catalog := c } ∧ c.Intact ∧
      n.catalog.SameCells c := by
  unfold Network.setTopPort
  split
  · exact ⟨_, rfl, h, .refl _⟩
  · next top htop =>
    obtain ⟨y, hy, -⟩ := OrderedMap.exists_of_firstKey? h.tidy.cells.nodup htop
    split
    · exact ⟨_, rfl, h.setDirection _ _, .setPorts ..⟩
    · next hfree =>
      have hnames := (Catalog.portNamed?_eq_none_iff h.tidy.ports.nodup).1 hfree
      have hi := h.addPort (Catalog.cellLabel?_of_find? hy) hnames
        (fun b (hb : PortSource.design = .moduleBoundary b) => by cases hb) direction
      exact ⟨_, rfl, hi, .addPort ..⟩

theorem Change.stored (s : n.Change n') (h : n.Stored) : n'.Stored := by
  have hi := h.stocked.intact
  cases s.outline with
  | aside | forgetConstant => exact h.congr rfl rfl rfl rfl
  | trim hd ht => exact h.setDesign hd ⟨ht.name, ht.modules⟩
  | createModInst _ _ hd e =>
    obtain ⟨-, -, -, -, -, -, rfl⟩ := Design.createModInst_ok e
    exact h.setDesign hd ⟨rfl, rfl⟩
  | createNet hd e =>
    obtain ⟨-, -, rfl⟩ := Design.createNet_ok e
    exact h.setDesign hd ⟨rfl, rfl⟩
  | @topTerminal name direction sig io id d d' hd hmade _ =>
    have hnames : (d'.setBTermTypes id sig io).name = d.name ∧
        (d'.setBTermTypes id sig io).modules = d.modules := by
      rcases hmade with ⟨-, rfl⟩ | e
      · exact ⟨rfl, rfl⟩
      · obtain ⟨-, -, hmade⟩ := Design.createBTerm_ok e
        obtain rfl : d' = { d with bterms := (d.bterms.insert { name }).2 } := hmade
        exact ⟨rfl, rfl⟩
    obtain ⟨c, hc, hintact, hsame⟩ :=
      setTopPort_intact (n := n.withDesign (d'.setBTermTypes id sig io)) hi name direction
    rw [hc]
    exact h.withDesign hd hnames hintact hsame.libraries fun x =>
      Catalog.head?_of_face? (hsame.faces x)
  | @destroyNet _ d d' hd e =>
    have hnames : d'.name = d.name ∧ d'.modules = d.modules := by
      obtain ⟨-, rfl⟩ := Design.destroyNet_ok e
      exact ⟨rfl, rfl⟩
    exact (h.setDesign hd hnames).congr rfl rfl rfl rfl
  | @destroyModBTerm id d d' hd e =>
    have hnames : d'.name = d.name ∧ d'.modules = d.modules := by
      obtain ⟨-, rfl⟩ := Design.destroyModBTerm_ok e
      exact ⟨rfl, rfl⟩
    exact h.withDesign hd hnames (hi.forgetBoundary id) rfl fun _ => rfl
  | bundle e =>
    have hsame := Catalog.SameCells.bundle e
    have hbuilt : n.catalog.Built 0 _ := .bundle e
    exact Arranges.stored ⟨⟨_, _, _, _, _, rfl⟩, hsame.libraries,
      fun x => Catalog.head?_of_face? (hsame.faces x), hbuilt.boundaries, fun hi => hi.bundle e⟩ h

theorem Changes.stored (hrun : n.Changes n') (h : n.Stored) : n'.Stored := by
  induction hrun with
  | refl => exact h
  | tail _ s ih => exact s.stored ih

theorem Query.stored (s : n.Query n') (h : n.Stored) : n'.Stored := by
  obtain ⟨_, _, _, rfl⟩ := s.exists_eq
  exact h.congr rfl rfl rfl rfl

end Network
end DesignView
