import DesignView.Proofs.Inventory.Fills
import DesignView.Proofs.Network.Integrity

/-!
The store of libraries as it is stored. Every load and every edit comes down to calls that change
the store, from nothing or from what was there before; the inventory that these calls leave holds
what the catalog of the network says. So the tables that are written by hand with each change agree
with each other and with what is loaded.
-/

namespace DesignView

namespace Catalog

variable {c c' : Catalog} {db : Database}

theorem Led.without (h : c'.Led c) (hm : c.Mirrors db) (hi : c.Intact) (s : LibrarySource) :
    c'.Led (c.without s) := by
  unfold Catalog.without
  split
  · next old hold =>
    obtain ⟨a, ha, -⟩ := OrderedMap.exists_of_firstKey? hm.tidy.libraries.nodup hold
    refine h.removeLibrary hi (fun x x' y y' m m' hx hx' hy hy' => ?_) ha
    -- The cells of the modules are all in the one library that is built from them.
    have hhome ⦃x y m⦄ (hx : c.cells.find? x = some y) (hy : y.source = .module m) :
        c.librarySource? y.library = some .modules := by
      obtain ⟨s, hs, hl⟩ := hm.home (cellLabel?_of_find? hx)
      have hs : db.home? y.source = some s := hs
      rw [hy] at hs
      exact hl.trans hs.symm
    exact hm.libraries (hhome hx hy) (hhome hx' hy')
  · exact h

end Catalog

namespace Network

variable {n n' : Network} {c : Catalog}

theorem led_loadLibrary (h : c.Led n.catalog) (hm : n.catalog.Mirrors n.db)
    (hdb : n.db.WellFormed) (hn : n.catalog.Stocked n.db) {id : LibId} {r : LibraryId}
    (e : n.loadLibrary id = .ok (r, n')) : c.Led n'.catalog := by
  obtain ⟨-, hdb', hr, -⟩ := rebuilds_loadLibrary hm hdb e
  obtain ⟨-, hstocked, -⟩ := stocked_loadLibrary hm hdb hn e
  have hd : n'.catalog.Distinct :=
    distinct (hdb'.symm ▸ hdb) (hdb'.symm ▸ hr.mirrors) (hdb'.symm ▸ hstocked)
  exact (h.without hm hn.intact (.physical id)).fills (loadLibrary_fills e) hd

theorem led_loadDesign (h : c.Led n.catalog) (hm : n.catalog.Mirrors n.db)
    (hdb : n.db.WellFormed) (hn : n.catalog.Stocked n.db) (e : n.loadDesign = .ok n') :
    c.Led n'.catalog := by
  have hd' : n'.catalog.Distinct := by
    obtain ⟨d, -, -, hd, -⟩ := of_loadDesign e
    obtain ⟨hdb', r, -⟩ := rebuilds_afterTopCell hm hdb hd e
    exact distinct (hdb'.symm ▸ hdb) (hdb'.symm ▸ r.mirrors)
      (stored_of_loadDesign hm hdb hn e).stocked
  obtain ⟨d, n₁, hd, hmodules, rfl⟩ := loadDesign_eq_ok e
  obtain ⟨-, hstocked, -⟩ := stocked_loadTopCell hm hdb hd hn
  obtain ⟨-, hdbt, rt, -⟩ := rebuilds_loadTopCell hm d
  have hdt : (n.loadTopCell d).catalog.Distinct :=
    distinct (hdbt.symm ▸ hdb) (hdbt.symm ▸ rt.mirrors) (hdbt.symm ▸ hstocked)
  have htop : c.Led (n.loadTopCell d).catalog :=
    (h.without hm hn.intact .design).fills (loadTopCell_fills n d) hdt
  rw [withoutModules_eq] at hmodules
  generalize n.loadTopCell d = t at hstocked rt htop hmodules
  have hout : c.Led (t.catalog.without .modules) :=
    htop.without rt.mirrors hstocked.intact .modules
  refine hout.fills (Catalog.Fills.trans ?_ (finishDesign_fills n₁ d)) hd'
  rcases hmodules with ⟨-, e₁⟩ | ⟨-, rfl⟩
  · exact loadModuleCells_fills (n := { t with catalog := t.catalog.without .modules }) e₁
  · exact .refl _

theorem led_loadDatabase {db : Database} (hdb : db.WellFormed)
    (e : n.loadDatabase db = .ok n') : ({} : Catalog).Led n'.catalog := by
  have hrun := loadDatabase_induct (motive := fun m => ({} : Catalog).Led m.catalog) hdb
    (.refl Catalog.placed_empty)
    (fun m _ _ _ hm h e' => by
      obtain rfl : m.db = db := hm.only.db
      exact led_loadLibrary h hm.mirrors hdb hm.stocked e')
    (fun m id hm h => by
      obtain rfl : m.db = db := hm.only.db
      have r := Arranges.recordTimingMasters m id
      have hmirrors := (Regroups.recordTimingMasters m id).rebuilds (s := .design) hm.mirrors
      exact h.fills (recordTimingMasters_fills m id)
        (distinct (r.only.db.symm ▸ hdb) (r.only.db.symm ▸ hmirrors.mirrors)
          (r.only.db.symm ▸ r.stocked hm.stocked))) e
  obtain ⟨m, hm, h, hdesign⟩ := hrun
  obtain rfl : m.db = db := hm.only.db
  rcases hdesign with ⟨-, e⟩ | ⟨-, rfl⟩
  · exact led_loadDesign h hm.mirrors hdb hm.stocked e
  · exact h

/-- A completed request, with the catalog that it starts from: nothing, when a database is loaded or
everything is torn down, and otherwise what is there. -/
inductive StepFrom (n : Network) : Catalog → Network → Prop
  | loadDatabase {db m} (hdb : db.Reachable) (e : n.loadDatabase db = .ok m) : StepFrom n {} m
  | teardown : StepFrom n {} n.teardown
  | loadLibrary {id r m} (e : n.loadLibrary id = .ok (r, m)) : StepFrom n n.catalog m
  | loadTiming (library) : StepFrom n n.catalog (n.loadTiming library).2
  | relinkTiming (id) : StepFrom n n.catalog (n.relinkTiming id)
  | loadDesign {m} (e : n.loadDesign = .ok m) : StepFrom n n.catalog m
  | reload {m} (e : n.reload = .ok m) : StepFrom n n.catalog m
  | edit {m} (s : n.Edit m) : StepFrom n n.catalog m
  | query {m} (s : n.Query m) : StepFrom n n.catalog m

theorem Step.exists_from (s : n.Step n') : ∃ c, n.StepFrom c n' := by
  cases s with
  | load s =>
    cases s with
    | loadDatabase hdb e => exact ⟨{}, .loadDatabase hdb e⟩
    | loadLibrary e => exact ⟨n.catalog, .loadLibrary e⟩
    | loadTiming library => exact ⟨n.catalog, .loadTiming library⟩
    | relinkTiming id => exact ⟨n.catalog, .relinkTiming id⟩
    | loadDesign e => exact ⟨n.catalog, .loadDesign e⟩
    | reload e => exact ⟨n.catalog, .reload e⟩
    | teardown => exact ⟨{}, .teardown⟩
  | edit s => exact ⟨n.catalog, .edit s⟩
  | query s => exact ⟨n.catalog, .query s⟩

theorem StepFrom.step (s : n.StepFrom c n') : n.Step n' := by
  cases s with
  | loadDatabase hdb e => exact .load (.loadDatabase hdb e)
  | teardown => exact .load .teardown
  | loadLibrary e => exact .load (.loadLibrary e)
  | loadTiming library => exact .load (.loadTiming library)
  | relinkTiming id => exact .load (.relinkTiming id)
  | loadDesign e => exact .load (.loadDesign e)
  | reload e => exact .load (.reload e)
  | edit s => exact .edit s
  | query s => exact .query s

theorem Reachable.distinct (h : n.Reachable) : n.catalog.Distinct :=
  Network.distinct h.current.sound.db h.shown.mirrors h.stored.stocked

theorem StepFrom.led (s : n.StepFrom c n') (h : n.Reachable) (hp : n.catalog.Placed) :
    c.Led n'.catalog := by
  have hstart : n.catalog.Led n.catalog := .refl hp
  have hdb := h.current.sound.db
  have hm := h.shown.mirrors
  have hn := h.stored.stocked
  have hd : n'.catalog.Distinct := (h.step s.step).distinct
  cases s with
  | loadDatabase hdb' e => exact led_loadDatabase hdb'.wellFormed e
  | teardown => exact .refl Catalog.placed_empty
  | loadLibrary e => exact led_loadLibrary hstart hm hdb hn e
  | loadTiming library =>
    exact hstart.fills (relinkTiming_fills { n with timing := n.timing ++ [library] } _) hd
  | relinkTiming id => exact hstart.fills (relinkTiming_fills n id) hd
  | loadDesign e => exact led_loadDesign hstart hm hdb hn e
  | reload e =>
    unfold Network.reload at e
    split at e
    · exact led_loadDesign hstart hm hdb hn e
    · cases pure_eq_ok.1 e
      exact hstart
  | edit s => exact hstart.fills (s.changes.fills hp) hd
  | query s => exact s.same.1.symm ▸ hstart

theorem Reachable.led (h : n.Reachable) : ({} : Catalog).Led n.catalog := by
  induction h using Reachable.induct with
  | new => exact .refl Catalog.placed_empty
  | step hbefore s ih =>
    obtain ⟨c, s⟩ := s.exists_from
    have hled := s.led hbefore ih.placed
    -- Either the request starts from nothing, or from where the calls have led so far.
    cases s with
    | loadDatabase | teardown => exact hled
    | _ => exact ih.trans hled

end Network

/-- A store agrees with itself and with what is loaded. -/
structure Inventory.Integrity (s : Inventory) (n : Network) : Prop where
  cells : ∀ ⦃x y⦄, s.cells.find? x = some y → (∃ a, s.libraries.find? y.library = some a) ∧
    ∀ l name, s.cellIn? l name = some x ↔ l = y.library ∧ name = y.name
  listed : ∀ ⦃l a name x⦄, s.libraries.find? l = some a → (name, x) ∈ a.cells.entries →
    ∃ y, s.cells.find? x = some y ∧ y.library = l ∧ y.name = name
  ports : ∀ ⦃p q⦄, s.ports.find? p = some q → (∃ y, s.cells.find? q.cell = some y) ∧
    ∀ x name, s.portNamed? x name = some p ↔ x = q.cell ∧ name = q.name
  named : ∀ ⦃x y name p⦄, s.cells.find? x = some y → (name, p) ∈ y.portNames.entries →
    ∃ q, s.ports.find? p = some q ∧ q.cell = x ∧ q.name = name
  top : ∀ ⦃x y p⦄, s.cells.find? x = some y → p ∈ y.ports →
    ∃ q, s.ports.find? p = some q ∧ q.cell = x
  members : ∀ ⦃p q m⦄, s.ports.find? p = some q → m ∈ q.shape.members →
    ∃ q', s.ports.find? m = some q' ∧ q'.cell = q.cell
  buses : ∀ ⦃p q bus i⦄, s.ports.find? p = some q → q.shape = .busBit bus i →
    ∃ q', s.ports.find? bus = some q' ∧ q'.cell = q.cell
  libraryFor : ∀ u l, s.libraryFor? u = some l ↔
    ∃ a, s.libraries.find? l = some a ∧ a.source = u
  cellFor : ∀ u x, s.cellFor? u = some x ↔ ∃ y, s.cells.find? x = some y ∧ y.source = u
  mtermPorts : ∀ t p, s.mtermPorts.find? t = some p ↔
    ∃ q, s.ports.find? p = some q ∧ q.source = .physical t
  boundaryPorts : ∀ ⦃b p⦄, s.boundaryPorts.find? b = some p →
    ∃ q, s.ports.find? p = some q ∧ q.source = .moduleBoundary b
  timingMasters : ∀ ⦃t name m⦄, s.timingMasters.find? (t, name) = some m →
    ∃ x, s.masterCells.find? m = some x
  boundaries : ∀ ⦃m name b⦄, s.boundary? m name = some b → ∃ d t, n.design? = some d ∧
    d.modBTerms.find? b = some t ∧ t.module = m ∧ t.name = name
  loaded : n.designLoaded = n.design?.isSome
  topLibrary : (∃ l, s.topLibrary? = some l) ↔ n.designLoaded = true
  topCell : ∀ ⦃l⦄, s.topLibrary? = some l → ∃ a x y, s.libraries.find? l = some a ∧
    s.topCell? = some x ∧ s.cells.find? x = some y ∧ y.source = .design ∧
    a.cells.entries = [(y.name, x)]
  moduleLibrary : (∃ l, s.moduleLibrary? = some l) ↔ n.designLoaded = true ∧ n.hierarchy = true

namespace Inventory

variable {s : Inventory} {c : Catalog} {n : Network}

theorem Holds.find?_libraries (h : s.Holds c) {l : LibraryId} {b : StoredLibrary} :
    s.libraries.find? l = some b ↔ ∃ a, c.libraries.find? l = some a ∧ c.storedLibrary l a = b := by
  rw [h.libraries, OrderedMap.find?_mapValues, Option.map_eq_some_iff]

theorem Holds.find?_cells (h : s.Holds c) {x : CellId} {z : StoredCell} :
    s.cells.find? x = some z ↔ ∃ y, c.cells.find? x = some y ∧ c.storedCell x y = z := by
  rw [h.cells, OrderedMap.find?_mapValues, Option.map_eq_some_iff]

theorem Holds.cellIn? (h : s.Holds c) (ht : c.Tidy) (hd : c.Distinct)
    (hhoused : ∀ ⦃x y⦄, c.cells.find? x = some y → ∃ a, c.libraries.find? y.library = some a)
    (l : LibraryId) (name : String) : s.cellIn? l name = c.cellIn? l name := by
  refine Option.ext fun x => ?_
  have hnames : (c.cellNames l).find? name = some x ↔
      ∃ y, c.cells.find? x = some y ∧ y.library = l ∧ y.name = name := by
    rw [Catalog.cellNames, OrderedMap.find?_names ht.cells.nodup]
    · simp only [decide_eq_true_eq]
    · intro x x' y y' hx hx' hl hl'
      exact hd.cellNames hx hx' ((of_decide_eq_true hl).trans (of_decide_eq_true hl').symm)
  rw [hd.cellIn?_eq_some_iff ht.cells.nodup, ← hnames, Inventory.cellIn?, Option.bind_eq_some_iff]
  constructor
  · rintro ⟨b, hb, hx⟩
    obtain ⟨a, -, rfl⟩ := h.find?_libraries.1 hb
    exact hx
  · intro hx
    obtain ⟨y, hy, rfl, -⟩ := hnames.1 hx
    obtain ⟨a, ha⟩ := hhoused hy
    exact ⟨_, h.find?_libraries.2 ⟨a, ha, rfl⟩, hx⟩

theorem Holds.portNamed? (h : s.Holds c) (ht : c.Tidy) (hd : c.Distinct)
    (howned : ∀ ⦃p q⦄, c.ports.find? p = some q → ∃ y, c.cells.find? q.cell = some y)
    (x : CellId) (name : String) : s.portNamed? x name = c.portNamed? x name := by
  refine Option.ext fun p => ?_
  have hnames : (c.portNames x).find? name = some p ↔
      ∃ q, c.ports.find? p = some q ∧ q.cell = x ∧ q.name = name := by
    rw [Catalog.portNames, OrderedMap.find?_names ht.ports.nodup]
    · simp only [decide_eq_true_eq]
    · intro p p' q q' hp hp' hx hx'
      exact hd.portNames hp hp' ((of_decide_eq_true hx).trans (of_decide_eq_true hx').symm)
  rw [hd.portNamed?_eq_some_iff ht.ports.nodup, ← hnames, Inventory.portNamed?,
    Option.bind_eq_some_iff]
  constructor
  · rintro ⟨z, hz, hp⟩
    obtain ⟨y, -, rfl⟩ := h.find?_cells.1 hz
    exact hp
  · intro hp
    obtain ⟨q, hq, rfl, -⟩ := hnames.1 hp
    obtain ⟨y, hy⟩ := howned hq
    exact ⟨_, h.find?_cells.2 ⟨y, hy, rfl⟩, hp⟩

theorem Holds.libraryFor_iff (h : s.Holds c) (u : LibrarySource) (l : LibraryId) :
    s.libraryFor? u = some l ↔ ∃ a, s.libraries.find? l = some a ∧ a.source = u := by
  rw [h.libraryFor]
  constructor
  · rintro ⟨a, ha, hu⟩
    exact ⟨_, h.find?_libraries.2 ⟨a, ha, rfl⟩, hu⟩
  · rintro ⟨_, hb, hu⟩
    obtain ⟨a, ha, rfl⟩ := h.find?_libraries.1 hb
    exact ⟨a, ha, hu⟩

theorem Holds.cellFor_iff (h : s.Holds c) (u : CellSource) (x : CellId) :
    s.cellFor? u = some x ↔ ∃ z, s.cells.find? x = some z ∧ z.source = u := by
  rw [h.cellFor]
  constructor
  · rintro ⟨y, hy, hu⟩
    exact ⟨_, h.find?_cells.2 ⟨y, hy, rfl⟩, hu⟩
  · rintro ⟨_, hz, hu⟩
    obtain ⟨y, hy, rfl⟩ := h.find?_cells.1 hz
    exact ⟨y, hy, hu⟩

theorem Holds.libraryFor?_eq (h : s.Holds c) (ht : c.Tidy) (hd : c.Distinct) (u : LibrarySource) :
    s.libraryFor? u = c.libraries.firstKey? fun a => a.source = u :=
  Option.ext fun l =>
    (h.libraryFor u l).trans (hd.libraryFor_eq_some_iff ht.libraries.nodup).symm

theorem Holds.cellFor?_eq (h : s.Holds c) (ht : c.Tidy) (hd : c.Distinct) (u : CellSource) :
    s.cellFor? u = c.cells.firstKey? fun y => y.source = u :=
  Option.ext fun x => (h.cellFor u x).trans (hd.cellFor_eq_some_iff ht.cells.nodup).symm

theorem Holds.integrity (h : s.Holds n.catalog) (ht : n.catalog.Tidy) (hd : n.catalog.Distinct)
    (hn : n.Integrity) : s.Integrity n := by
  have htop : s.topLibrary? = n.catalog.topLibrary? := h.libraryFor?_eq ht hd .design
  have hmodules : s.moduleLibrary? = n.catalog.moduleLibrary? := h.libraryFor?_eq ht hd .modules
  have hport {p : PortId} {q : Port} :
      s.ports.find? p = some q ↔ n.catalog.ports.find? p = some q := by
    rw [h.ports]
  constructor
  case cells =>
    intro x z hz
    obtain ⟨y, hy, rfl⟩ := h.find?_cells.1 hz
    obtain ⟨⟨a, ha⟩, -, hfind⟩ := hn.cells hy
    refine ⟨⟨_, h.find?_libraries.2 ⟨a, ha, rfl⟩⟩, fun l name => ?_⟩
    rw [h.cellIn? ht hd fun x y hx => (hn.cells hx).1]
    exact hfind l name
  case listed =>
    intro l b name x hb hx
    obtain ⟨a, -, rfl⟩ := h.find?_libraries.1 hb
    obtain ⟨y, hy, hl, hname⟩ := OrderedMap.mem_names.1 hx
    exact ⟨_, h.find?_cells.2 ⟨y, OrderedMap.find?_of_mem ht.cells.nodup hy, rfl⟩,
      of_decide_eq_true hl, hname⟩
  case ports =>
    intro p q hq
    obtain ⟨⟨y, hy⟩, hfind⟩ := hn.ports (hport.1 hq)
    refine ⟨⟨_, h.find?_cells.2 ⟨y, hy, rfl⟩⟩, fun x name => ?_⟩
    rw [h.portNamed? ht hd fun p q hp => (hn.ports hp).1]
    exact hfind x name
  case named =>
    intro x z name p hz hp
    obtain ⟨y, -, rfl⟩ := h.find?_cells.1 hz
    obtain ⟨q, hq, hx, hname⟩ := OrderedMap.mem_names.1 hp
    exact ⟨q, hport.2 (OrderedMap.find?_of_mem ht.ports.nodup hq), of_decide_eq_true hx, hname⟩
  case top =>
    intro x z p hz hp
    obtain ⟨y, hy, rfl⟩ := h.find?_cells.1 hz
    obtain ⟨q, hq, hx⟩ := hn.top hy hp
    exact ⟨q, hport.2 hq, hx⟩
  case members =>
    intro p q m hq hm
    obtain ⟨q', hq', hx⟩ := hn.members (hport.1 hq) hm
    exact ⟨q', hport.2 hq', hx⟩
  case buses =>
    intro p q bus i hq hbus
    obtain ⟨q', hq', hx⟩ := hn.buses (hport.1 hq) hbus
    exact ⟨q', hport.2 hq', hx⟩
  case libraryFor => exact h.libraryFor_iff
  case cellFor => exact h.cellFor_iff
  case mtermPorts =>
    intro t p
    rw [h.mtermPorts, h.ports]
  case boundaryPorts =>
    intro b p hb
    rw [h.boundaryPorts] at hb
    rw [h.ports]
    exact hn.portOfModBTerm hb
  case timingMasters =>
    intro t name m hm
    rw [h.timingMasters] at hm
    obtain ⟨x, hx⟩ := hn.timingMaster hm
    exact ⟨x, (h.cellFor?_eq ht hd (.physical m)).trans hx⟩
  case boundaries =>
    intro m name b hb
    rw [h.boundaries] at hb
    exact hn.boundary hb
  case loaded => exact hn.loaded
  case topLibrary => exact htop ▸ hn.topLibrary
  case topCell =>
    intro l hl
    obtain ⟨a, ha, -⟩ := (h.libraryFor .design l).1 hl
    obtain ⟨x, y, hx, hcells, hsource⟩ := hn.topCell (htop.symm.trans hl)
    have hy : n.catalog.cells.find? x = some y :=
      hn.listed (hcells.symm ▸ List.mem_singleton_self (x, y))
    have hentries : (n.catalog.cellNames l).entries = [(y.name, x)] :=
      congrArg (List.map fun e : CellId × Cell => (e.2.name, e.1)) hcells
    exact ⟨_, x, _, h.find?_libraries.2 ⟨a, ha, rfl⟩, (h.cellFor?_eq ht hd .design).trans hx,
      h.find?_cells.2 ⟨y, hy, rfl⟩, hsource, hentries⟩
  case moduleLibrary => exact hmodules ▸ hn.moduleLibrary

end Inventory

namespace Network

variable {n : Network}

/-- The store is in order, however it is read: look-ups that are computed are exact, and so are
those in tables that are written by hand. Each request comes down to calls that lead from the
catalog it starts from to the one it leaves; with every one of them, any store that said what the
catalog did says what the catalog has become. -/
theorem Reachable.store_integrity (h : n.Reachable) : n.Integrity ∧
    (∃ calls : List Inventory.Call, Catalog.after calls = n.catalog ∧
      (∀ i, (Inventory.after (calls.take i)).Holds (Catalog.after (calls.take i))) ∧
      (Inventory.after calls).Integrity n) ∧
    ∀ c n', n.StepFrom c n' → ∃ calls : List Inventory.Call,
      calls.foldl Catalog.call c = n'.catalog ∧ ∀ s : Inventory, s.Holds c →
        (∀ i, ((calls.take i).foldl Inventory.call s).Holds
          ((calls.take i).foldl Catalog.call c)) ∧
        (calls.foldl Inventory.call s).Integrity n' := by
  have hintegrity {n : Network} (h : n.Reachable) {s : Inventory} (hs : s.Holds n.catalog) :
      s.Integrity n := hs.integrity h.led.placed.tidy h.distinct h.catalog_integrity
  refine ⟨h.catalog_integrity, ?_, fun c n' s => ?_⟩
  · obtain ⟨calls, hleads⟩ := h.led
    exact ⟨calls, hleads.catalog, hleads.holds Inventory.holds_empty,
      hintegrity h (hleads.last Inventory.holds_empty)⟩
  · obtain ⟨calls, hleads⟩ := s.led h h.led.placed
    exact ⟨calls, hleads.catalog, fun _ hs =>
      ⟨hleads.holds hs, hintegrity (h.step s.step) (hleads.last hs)⟩⟩

/-- Two more loads of a design with a module leave as many objects as the first; then two ports of
the top cell are bundled. -/
theorem integrity_reloaded : ∃ n m, Reachable n ∧
    (n.Integrity ∧ ∃ calls : List Inventory.Call, Catalog.after calls = n.catalog ∧
      (∀ i, (Inventory.after (calls.take i)).Holds (Catalog.after (calls.take i))) ∧
      (Inventory.after calls).Integrity n) ∧
    (n.StepFrom n.catalog m ∧ ∃ calls : List Inventory.Call,
      calls.foldl Catalog.call n.catalog = m.catalog ∧ ∀ s : Inventory, s.Holds n.catalog →
        (∀ i, ((calls.take i).foldl Inventory.call s).Holds
          ((calls.take i).foldl Catalog.call n.catalog)) ∧
        (calls.foldl Inventory.call s).Integrity m) ∧
    m.generation = 3 ∧ m.catalog.libraries.size = 3 ∧ m.catalog.cells.size = 3 ∧
    m.catalog.ports.size = 5 ∧ m.catalog.topPorts ⟨19⟩ = [⟨25⟩] := by
  have hrun : ∃ db, Database.Reachable db ∧ (do
      let n ← (Network.new .hierarchical).loadDatabase db
      let n ← n.reload
      let n ← n.reload
      let (_, n) ← n.makeBundle ⟨19⟩ "both" [⟨20⟩, ⟨21⟩]
      return (n.generation, n.catalog.libraries.size, n.catalog.cells.size, n.catalog.ports.size,
        n.catalog.topPorts ⟨19⟩)) =
        (.ok (3, 3, 3, 5, [⟨25⟩]) : Except Fault (Nat × Nat × Nat × Nat × List PortId)) := by
    refine ⟨_, Relation.ReflTransGen.refl
      |>.tail (@Database.Step.createLib _ "cells" _ _ rfl)
      |>.tail (@Database.Step.createMaster _ ⟨1⟩ "BUF" _ _ rfl)
      |>.tail (@Database.Step.createMTerm _ ⟨1⟩ "A" .signal .input _ _ rfl)
      |>.tail (@Database.Step.createDesign _ "top" _ _ rfl)
      |>.tail (.design rfl (@Design.Step.createBTerm _ "in" none _ _ rfl))
      |>.tail (.design rfl (@Design.Step.createBTerm _ "en" none _ _ rfl))
      |>.tail (.design rfl (@Design.Step.createModule _ "cell" _ _ rfl))
      |>.tail (.design rfl (@Design.Step.createModInst _ ⟨1⟩ ⟨2⟩ "u2" _ _ rfl))
      |>.tail (.design rfl (@Design.Step.createModBTerm _ ⟨2⟩ "a" _ _ rfl)), ?_⟩
    cbv
  obtain ⟨db, hdb, hrun⟩ := hrun
  obtain ⟨n₁, e₁, hrun⟩ := bind_eq_ok.1 hrun
  obtain ⟨n₂, e₂, hrun⟩ := bind_eq_ok.1 hrun
  obtain ⟨n₃, e₃, hrun⟩ := bind_eq_ok.1 hrun
  obtain ⟨⟨r, n⟩, e, hrun⟩ := bind_eq_ok.1 hrun
  have h : Reachable n₃ := ⟨_, Relation.ReflTransGen.refl
    |>.tail (.load (.loadDatabase hdb e₁))
    |>.tail (.load (.reload e₂))
    |>.tail (.load (.reload e₃))⟩
  have s : n₃.StepFrom n₃.catalog n := .edit (.makeBundle e)
  obtain ⟨hintegrity, hstore, hsteps⟩ := h.store_integrity
  have hcounts := pure_eq_ok.1 hrun
  simp only [Prod.mk.injEq] at hcounts
  exact ⟨n₃, n, h, ⟨hintegrity, hstore⟩, ⟨s, hsteps _ _ s⟩, hcounts⟩

end Network
end DesignView
