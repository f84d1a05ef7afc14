import DesignView.Proofs.Catalog.Mirror
import DesignView.Proofs.Network.Origin

/-!
Loading makes a catalog that mirrors the database. The cells of a physical library show all its
masters, the top cell shows the boundary of the design, and with the hierarchy the module cells show
the modules that are instantiated.
-/

namespace DesignView.Network

open Database (home?_physical)

variable {n n' n'' : Network} {d : Design} {s : LibrarySource}

/-- Ports are grouped and linked; no cell or port comes to stand for something else. -/
structure Regroups (n n' : Network) : Prop where
  settings : n'.settings = n.settings
  db : n'.db = n.db
  catalog : n.catalog.Tidy → n.catalog.Gains (fun _ => False) (·.source = .group) n'.catalog

namespace Regroups

theorem refl : n.Regroups n := ⟨rfl, rfl, .refl⟩

theorem trans (h : n.Regroups n') (h' : n'.Regroups n'') : n.Regroups n'' :=
  ⟨h'.settings.trans h.settings, h'.db.trans h.db,
    fun ht => (h.catalog ht).trans (h'.catalog (h.catalog ht).tidy)⟩

theorem foldl {ε : Type} {step : Network → ε → Network}
    (hstep : ∀ (n : Network) (e : ε), n.Regroups (step n e)) (es : List ε) (n : Network) :
    n.Regroups (es.foldl step n) :=
  List.foldlRecOn (motive := n.Regroups) es step refl fun m hm e _ => hm.trans (hstep m e)

theorem setCatalog {c : Catalog}
    (h : n.catalog.Tidy → n.catalog.Gains (fun _ => False) (·.source = .group) c) :
    n.Regroups { n with catalog := c } := ⟨rfl, rfl, h⟩

theorem reportAll (n : Network) (causes : List Mismatch) : n.Regroups (n.reportAll causes) := by
  have hstep (n : Network) (cause : Mismatch) : n.Regroups (n.report cause) := ⟨rfl, rfl, .refl⟩
  exact foldl hstep causes n

theorem groupCell (n : Network) (cell : CellId) (name : String) :
    n.Regroups (n.groupCell cell name) :=
  (setCatalog fun ht => ht.groupBuses cell fun bus => n.msbFirst bus name).trans (reportAll _ _)

theorem groupCells (n : Network) (cells : List (CellId × String)) :
    n.Regroups (cells.foldl (fun n e => n.groupCell e.1 e.2) n) :=
  foldl (fun n (e : CellId × String) => groupCell n e.1 e.2) cells n

theorem linkCell? {cell : CellId} {id : TimingId} (e : n.linkCell? cell id = some n') :
    n.Regroups n' := by
  obtain ⟨library, -, e⟩ := Option.bind_eq_some_iff.1 e
  obtain ⟨x, -, e⟩ := Option.bind_eq_some_iff.1 e
  obtain ⟨timing, -, e⟩ := Option.bind_eq_some_iff.1 e
  cases e
  exact (setCatalog fun ht => ht.link cell id library.name timing).trans (reportAll ..)

theorem linkFirst (n : Network) (cell : CellId) (ids : List TimingId) :
    n.Regroups (n.linkFirst cell ids) := by
  induction ids with
  | nil => exact refl
  | cons id ids ih =>
    unfold Network.linkFirst
    cases e : n.linkCell? cell id with
    | none => exact ih
    | some n' => exact linkCell? e

theorem recordMaster (n : Network) (master : MasterId) (name : String) :
    n.Regroups (n.recordMaster master name) := by
  refine foldl (fun n e => ?_) _ n
  split
  · exact setCatalog fun ht => ht.recordTimingMaster e.1 name master
  · exact refl

theorem recordTimingMasters (n : Network) (id : TimingId) :
    n.Regroups (n.recordTimingMasters id) := by
  unfold Network.recordTimingMasters
  split
  · exact refl
  · refine setCatalog fun ht => .foldl (.refl ht) fun c e hc => ?_
    split
    · split
      · exact hc.recordTimingMaster ..
      · exact .refl hc
    · exact .refl hc

theorem relinkTiming (n : Network) (id : TimingId) : n.Regroups (n.relinkTiming id) := by
  unfold Network.relinkTiming
  split
  · exact ⟨rfl, rfl, .refl⟩
  · dsimp only
    generalize hacc : List.foldl _ (n, false) _ = acc
    have hlinked : n.Regroups acc.1 := by
      rw [← hacc]
      refine List.foldlRecOn (motive := fun acc : Network × Bool => n.Regroups acc.1) _ _ refl
        fun acc hacc cell _ => ?_
      cases e : acc.1.linkCell? cell id with
      | none => exact hacc
      | some m => exact hacc.trans (linkCell? e)
    obtain ⟨m, linked⟩ := acc
    have hrecorded := hlinked.trans (recordTimingMasters m id)
    cases linked with
    | true => exact ⟨hrecorded.settings, hrecorded.db, hrecorded.catalog⟩
    | false => exact ⟨hrecorded.settings, hrecorded.db, hrecorded.catalog⟩

theorem indexBoundaries (n : Network) (d : Design) : n.Regroups (n.indexBoundaries d) := by
  refine setCatalog fun ht => ?_
  rw [foldl_recordBoundary]
  exact ht.setBoundaries _

theorem rebuilds (r : n.Regroups n') (h : n.catalog.Mirrors n.db) :
    Catalog.Rebuilds n.db s n.catalog n'.catalog := .regroup h (r.catalog h.tidy)

end Regroups

structure LoadsMasters (n : Network) (ids : List MasterId) (n' : Network) : Prop where
  settings : n'.settings = n.settings
  db : n'.db = n.db
  mirrors : n'.catalog.Mirrors n.db
  gains : n.catalog.Gains (fun l => ∃ id ∈ ids, l.source = .physical id)
    (fun l => ∀ b, l.source ≠ .moduleBoundary b) n'.catalog
  mterms : ∀ ⦃t m⦄, n.db.mterms.find? t = some m → m.master ∈ ids → n'.catalog.ShowsMTerm t

theorem loadsMaster (hm : n.catalog.Mirrors n.db) (hdb : n.db.WellFormed) {id : MasterId}
    {a : Master} (ha : n.db.masters.find? id = some a) {library : LibraryId}
    (hlibrary : n.catalog.librarySource? library = some (.physical a.lib))
    (hfree : ∀ x l, n.catalog.cellLabel? x = some l → l.source ≠ .physical id) :
    n.LoadsMasters [id] (n.loadMaster library id a) := by
  have hhome : n.db.home? (.physical id) = some (.physical a.lib) := home?_physical ha
  have hterms : ∀ e ∈ n.db.mtermsOf id, n.db.mterms.find? e.1 = some e.2 ∧ e.2.master = id := by
    intro e he
    obtain ⟨hfind, hmaster⟩ := hdb.mterms.mem_select.1 he
    exact ⟨hfind, of_decide_eq_true hmaster⟩
  obtain ⟨c, hc⟩ : ∃ c, c = (n.db.mtermsOf id).foldl (fun c e => (c.addPort ⟨n.catalog.count + 1⟩
      e.2.name (.physical e.1) (.ofTypes e.2.sig e.2.io)).2)
        (n.catalog.addCell library a.name (.physical id)).2 := ⟨_, rfl⟩
  obtain ⟨hbuilt, g, -, hports⟩ := hm.buildCell hlibrary hhome hfree a.name (·.2.name)
    (.physical ·.1) (fun e => .ofTypes e.2.sig e.2.io) (n.db.mtermsOf id) (fun e he t ht => by
      obtain ⟨hfind, hmaster⟩ := hterms e he
      cases ht
      exact ⟨e.2, hfind, rfl, congrArg CellSource.physical hmaster.symm⟩) hc
  have r : Regroups { n with catalog := c } (n.loadMaster library id a) := by
    rw [hc]
    exact ((Regroups.groupCell ..).trans (.recordMaster ..)).trans (.linkFirst ..)
  have gr := r.catalog hbuilt.tidy
  refine ⟨r.settings, r.db, hbuilt.regroup gr, (g.mono ?_ ?_).trans (gr.mono ?_ ?_), ?_⟩
  · rintro l rfl
    exact ⟨id, List.mem_singleton_self id, rfl⟩
  · rintro l ⟨e, -, rfl⟩ b hb
    cases hb
  · exact fun _ => False.elim
  · intro l hl b hb
    cases hl.symm.trans hb
  · intro t m ht hmaster
    have hin : (t, m) ∈ n.db.mtermsOf id :=
      hdb.mterms.mem_select.2 ⟨ht, decide_eq_true (List.mem_singleton.1 hmaster)⟩
    obtain ⟨⟨p, hp⟩, -⟩ := hports (t, m) hin
    exact ⟨p, _, gr.keptPorts hp, rfl⟩

theorem LoadsMasters.trans {ids ids' : List MasterId} (h : n.LoadsMasters ids n')
    (h' : n'.LoadsMasters ids' n'') : n.LoadsMasters (ids ++ ids') n'' := by
  refine ⟨h'.settings.trans h.settings, h'.db.trans h.db, h.db ▸ h'.mirrors,
    (h.gains.mono ?_ fun _ => id).trans (h'.gains.mono ?_ fun _ => id), fun t m ht hmaster => ?_⟩
  · rintro l ⟨id, hid, hl⟩
    exact ⟨id, List.mem_append_left _ hid, hl⟩
  · rintro l ⟨id, hid, hl⟩
    exact ⟨id, List.mem_append_right _ hid, hl⟩
  · rcases List.mem_append.1 hmaster with hmaster | hmaster
    · obtain ⟨p, l, hp, hl⟩ := h.mterms ht hmaster
      exact ⟨p, l, h'.gains.keptPorts hp, hl⟩
    · exact h'.mterms (h.db ▸ ht) hmaster

theorem loadsMasters (hm : n.catalog.Mirrors n.db) (hdb : n.db.WellFormed) {library : LibraryId}
    {lib : LibId} (hlibrary : n.catalog.librarySource? library = some (.physical lib))
    {es : List (MasterId × Master)} (hnodup : (es.map (·.1)).Nodup)
    (hes : ∀ e ∈ es, n.db.masters.find? e.1 = some e.2 ∧ e.2.lib = lib)
    (hfree : ∀ e ∈ es, ∀ x l, n.catalog.cellLabel? x = some l → l.source ≠ .physical e.1) :
    n.LoadsMasters (es.map (·.1)) (es.foldl (fun n e => n.loadMaster library e.1 e.2) n) := by
  induction es generalizing n with
  | nil =>
    exact ⟨rfl, rfl, hm, .refl hm.tidy, fun t m ht hmaster => by cases hmaster⟩
  | cons e es ih =>
    obtain ⟨hnew, hnodup⟩ := List.nodup_cons.1 hnodup
    obtain ⟨he, hlib⟩ := hes e List.mem_cons_self
    have hone : n.LoadsMasters [e.1] (n.loadMaster library e.1 e.2) :=
      loadsMaster hm hdb he (hlib ▸ hlibrary) (hfree e List.mem_cons_self)
    rw [List.foldl_cons, List.map_cons]
    generalize n.loadMaster library e.1 e.2 = n₁ at hone ⊢
    have hm₁ : n₁.catalog.Mirrors n₁.db := by
      rw [hone.db]
      exact hone.mirrors
    refine hone.trans (ih hm₁ (hone.db ▸ hdb) ?_ hnodup ?_ ?_)
    · rw [Catalog.librarySource?, hone.gains.libraries]
      exact hlibrary
    · intro e' he'
      rw [hone.db]
      exact hes e' (List.mem_cons_of_mem e he')
    · intro e' he' x l hx hl
      rcases hone.gains.addedCells hx with hx | ⟨id, hid, hsource⟩
      · exact hfree e' (List.mem_cons_of_mem e he') x l hx hl
      · -- The cell that was added stands for another master.
        cases hl.symm.trans hsource
        exact hnew (List.mem_map.2 ⟨e', he', List.mem_singleton.1 hid⟩)

theorem rebuilds_loadLibrary (hm : n.catalog.Mirrors n.db) (hdb : n.db.WellFormed) {id : LibId}
    {r : LibraryId} (e : n.loadLibrary id = .ok (r, n')) :
    n'.settings = n.settings ∧ n'.db = n.db ∧
      Catalog.Rebuilds n.db (.physical id) n.catalog n'.catalog ∧
      ∀ t m a, n.db.mterms.find? t = some m → n.db.masters.find? m.master = some a →
        a.lib = id ∨ n.catalog.ShowsMTerm t → n'.catalog.ShowsMTerm t := by
  obtain ⟨lib, -, e⟩ := bind_eq_ok.1 e
  obtain ⟨-, rfl⟩ := Prod.mk.inj (pure_eq_ok.1 e)
  obtain ⟨c, hc⟩ : ∃ c, c = ((n.catalog.without (.physical id)).addLibrary lib.name
      (.physical id)).2 := ⟨_, rfl⟩
  obtain ⟨hnew, hlibrary, hempty⟩ := hm.anew (.physical id) lib.name hc
  have hes : ∀ e ∈ n.db.mastersOf id, n.db.masters.find? e.1 = some e.2 ∧ e.2.lib = id := by
    intro e he
    obtain ⟨hfind, hlib⟩ := hdb.masters.mem_select.1 he
    exact ⟨hfind, of_decide_eq_true hlib⟩
  have hmasters := loadsMasters (n := { n with catalog := c }) hnew.mirrors hdb hlibrary
    (hdb.masters.nodup_map_select _) hes (fun e he x l hx hl => by
      obtain ⟨hfind, hlib⟩ := hes e he
      exact hempty x l hx (hl ▸ hlib ▸ home?_physical hfind))
  subst hc
  have hrest : Catalog.Rebuilds n.db (.physical id) _ _ :=
    .of_gains hmasters.mirrors hmasters.gains (by
      rintro l ⟨i, hi, hl⟩
      obtain ⟨e, he, rfl⟩ := List.mem_map.1 hi
      obtain ⟨hfind, hlib⟩ := hes e he
      rw [hl]
      exact hlib ▸ home?_physical hfind)
      fun _ l b hl => hl b
  have hall := hnew.trans hrest
  refine ⟨hmasters.settings, hmasters.db, hall, fun t m a ht ha hshown => ?_⟩
  by_cases hlib : a.lib = id
  · refine hmasters.mterms ht (List.mem_map.2 ⟨(m.master, a), ?_, rfl⟩)
    exact hdb.masters.mem_select.2 ⟨ha, decide_eq_true hlib⟩
  · refine hall.showsMTerm hm (fun m' ht' e => ?_) (hshown.resolve_left hlib)
    obtain rfl : m = m' := Option.some.inj (ht.symm.trans ht')
    rw [home?_physical ha] at e
    cases e
    exact hlib rfl

end DesignView.Network
