import DesignView.Catalog.Inventory
import DesignView.Proofs.Catalog.Face
import DesignView.Proofs.Container.DrawnMap

/-!
An inventory holds what a catalog says: the same libraries, cells and ports, with the names that the
catalog reads off them, and in its tables what the catalog finds for each native object. Every call
that adds or changes something keeps it so, provided that what is added is new.
-/

namespace DesignView

namespace Catalog

variable {c : Catalog}

def cellNames (c : Catalog) (l : LibraryId) : OrderedMap String CellId :=
  c.cells.names (fun y => y.library = l) (·.name)

def portNames (c : Catalog) (x : CellId) : OrderedMap String PortId :=
  c.ports.names (fun q => q.cell = x) (·.name)

def storedLibrary (c : Catalog) (l : LibraryId) (a : Library) : Inventory.StoredLibrary :=
  { name := a.name, source := a.source, cells := c.cellNames l }

def storedCell (c : Catalog) (x : CellId) (y : Cell) : Inventory.StoredCell :=
  { name := y.name, library := y.library, source := y.source, ports := y.ports
    portNames := c.portNames x, timing := y.timing }

/-- Everything has one number, and what it belongs to has been numbered. -/
structure Placed (c : Catalog) : Prop where
  tidy : c.Tidy
  libraries : ∀ ⦃x l⦄, c.cellLabel? x = some l → l.library.num ≤ c.count
  cells : ∀ ⦃p l⦄, c.portLabel? p = some l → l.cell.num ≤ c.count
  boundaries : c.boundaries.keys.Nodup

theorem placed_empty : ({} : Catalog).Placed :=
  ⟨tidy_empty, fun _ _ h => (by cases h), fun _ _ h => (by cases h), List.nodup_nil⟩

theorem Placed.cellNames_next (h : c.Placed) : c.cellNames ⟨c.count + 1⟩ = {} := by
  have hnone : (c.cells.entries.filter fun e => decide (e.2.library = ⟨c.count + 1⟩)) = [] := by
    refine List.filter_eq_nil_iff.2 fun e he hl => ?_
    have hle : e.2.library.num ≤ c.count :=
      h.libraries (cellLabel?_of_find? (OrderedMap.find?_of_mem h.tidy.cells.nodup he))
    rw [of_decide_eq_true hl] at hle
    exact absurd hle (Nat.not_succ_le_self _)
  rw [cellNames, OrderedMap.names, hnone, List.map_nil]

theorem Placed.portNames_next (h : c.Placed) : c.portNames ⟨c.count + 1⟩ = {} := by
  have hnone : (c.ports.entries.filter fun e => decide (e.2.cell = ⟨c.count + 1⟩)) = [] := by
    refine List.filter_eq_nil_iff.2 fun e he hx => ?_
    have hle : e.2.cell.num ≤ c.count :=
      h.cells (portLabel?_of_find? (OrderedMap.find?_of_mem h.tidy.ports.nodup he))
    rw [of_decide_eq_true hx] at hle
    exact absurd hle (Nat.not_succ_le_self _)
  rw [portNames, OrderedMap.names, hnone, List.map_nil]

end Catalog

namespace Inventory

open Catalog (Placed)

/-- The inventory holds the cells and ports of the catalog, and lists them. -/
structure HoldsCells (s : Inventory) (c : Catalog) : Prop where
  count : s.count = c.count
  libraries : s.libraries = c.libraries.mapValues c.storedLibrary
  cells : s.cells = c.cells.mapValues c.storedCell
  ports : s.ports = c.ports
  cellFor : ∀ source x, s.cellFor? source = some x ↔
    ∃ y, c.cells.find? x = some y ∧ y.source = source
  mtermPorts : ∀ t p, s.mtermPorts.find? t = some p ↔
    ∃ q, c.ports.find? p = some q ∧ q.source = .physical t
  boundaryPorts : s.boundaryPorts = c.boundaryPorts
  boundaries : ∀ m name, s.boundary? m name = c.boundary? m name
  boundaryNames : ∀ ⦃m names⦄, s.boundaries.find? m = some names → names.keys.Nodup
  timingMasters : s.timingMasters = c.timingMasters

structure Holds (s : Inventory) (c : Catalog) : Prop extends HoldsCells s c where
  libraryFor : ∀ source l, s.libraryFor? source = some l ↔
    ∃ a, c.libraries.find? l = some a ∧ a.source = source

theorem holds_empty : ({} : Inventory).Holds {} where
  count := rfl
  libraries := rfl
  cells := rfl
  ports := rfl
  cellFor source x := by
    cases source <;> exact ⟨fun h => (by cases h), fun ⟨_, h, _⟩ => by cases h⟩
  mtermPorts t p := ⟨fun h => (by cases h), fun ⟨_, h, _⟩ => by cases h⟩
  boundaryPorts := rfl
  boundaries _ _ := rfl
  boundaryNames _ _ h := by cases h
  timingMasters := rfl
  libraryFor source l := by
    cases source <;> exact ⟨fun h => (by cases h), fun ⟨_, h, _⟩ => by cases h⟩

variable {s : Inventory} {c : Catalog}

theorem find_new_iff {κ α σ : Type} [DecidableEq κ] {m : OrderedMap κ α} {P : σ → α → Prop} {k : κ}
    (hk : k ∉ m.keys) {a : α} {look : σ → Option κ} (hlook : ∀ u x, look u = some x ↔
      ∃ b, m.find? x = some b ∧ P u b) (hnew : ∀ u x b, P u a → m.find? x = some b → ¬P u b)
    (u : σ) [Decidable (P u a)] (x : κ) : (if P u a then some k else look u) = some x ↔
      ∃ b, (m.insert k a).find? x = some b ∧ P u b := by
  simp only [OrderedMap.find?_insert]
  have hnone : m.find? k = none := OrderedMap.find?_eq_none_iff.2 hk
  split
  · next hu =>
    constructor
    · intro h
      obtain rfl : k = x := Option.some.inj h
      exact ⟨a, if_pos rfl, hu⟩
    · rintro ⟨b, hb, hbu⟩
      split at hb
      · next hx => rw [hx]
      · exact absurd hbu (hnew u x b hu hb)
  · next hu =>
    rw [hlook]
    constructor
    · rintro ⟨b, hb, hbu⟩
      refine ⟨b, ?_, hbu⟩
      rw [if_neg, hb]
      rintro rfl
      cases hnone.symm.trans hb
    · rintro ⟨b, hb, hbu⟩
      split at hb
      · cases hb
        exact absurd hbu hu
      · exact ⟨b, hb, hbu⟩

theorem libraryFor?_addLibrary (s : Inventory) (name : String) (source u : LibrarySource) :
    (s.addLibrary name source).libraryFor? u =
      if source = u then some ⟨s.count + 1⟩ else s.libraryFor? u := by
  cases source <;> cases u <;>
    simp [addLibrary, libraryFor?, OrderedMap.find?_insert, eq_comm]

theorem cellFor?_addCell (s : Inventory) (library : LibraryId) (name : String)
    (source u : CellSource) : (s.addCell library name source).cellFor? u =
      if source = u then some ⟨s.count + 1⟩ else s.cellFor? u := by
  cases source <;> cases u <;>
    simp [addCell, cellFor?, OrderedMap.find?_insert, eq_comm]

theorem find?_mtermPorts_addPort (s : Inventory) (cell : CellId) (name : String)
    (source : PortSource) (direction : PortDirection) (t : MTermId) :
    (s.addPort cell name source direction).mtermPorts.find? t =
      if source = .physical t then some ⟨s.count + 1⟩ else s.mtermPorts.find? t := by
  cases source <;> simp [addPort, OrderedMap.find?_insert, eq_comm]

theorem Holds.addLibrary (h : s.Holds c) (hp : c.Placed) (name : String) {source : LibrarySource}
    (hnew : ∀ l a, c.libraries.find? l = some a → a.source ≠ source) :
    (s.addLibrary name source).Holds (c.addLibrary name source).2 := by
  have hfresh : (⟨c.count + 1⟩ : LibraryId) ∉ c.libraries.keys := hp.tidy.libraries.fresh rfl
  have hlibraries : s.libraries.insert ⟨s.count + 1⟩ { name, source } =
      (c.libraries.insert ⟨c.count + 1⟩ ⟨name, source⟩).mapValues c.storedLibrary := by
    rw [OrderedMap.insert_mapValues, ← h.libraries, ← h.count, Catalog.storedLibrary, h.count,
      hp.cellNames_next]
  have hcells : (s.addLibrary name source).HoldsCells (c.addLibrary name source).2 := by
    have hcount : s.count + 1 = c.count + 1 := congrArg (· + 1) h.count
    cases source <;> exact ⟨hcount, hlibraries, h.cells, h.ports, h.cellFor, h.mtermPorts,
      h.boundaryPorts, h.boundaries, h.boundaryNames, h.timingMasters⟩
  refine ⟨hcells, fun u l => ?_⟩
  rw [libraryFor?_addLibrary, h.count]
  exact find_new_iff (P := fun u (a : Library) => a.source = u) (a := ⟨name, source⟩) hfresh
    h.libraryFor (fun u x b hu hb => hu ▸ hnew x b hb) u l

theorem Holds.addCell (h : s.Holds c) (hp : c.Placed) {library : LibraryId} {name : String}
    {source : CellSource} (hname : ∀ x y, c.cells.find? x = some y → y.library = library →
      y.name ≠ name) (hnew : ∀ x y, c.cells.find? x = some y → y.source ≠ source) :
    (s.addCell library name source).Holds (c.addCell library name source).2 := by
  have hfresh : (⟨c.count + 1⟩ : CellId) ∉ c.cells.keys := hp.tidy.cells.fresh rfl
  have hnames (l : LibraryId) : (c.addCell library name source).2.cellNames l =
      if library = l then (c.cellNames l).insert name ⟨c.count + 1⟩ else c.cellNames l := by
    by_cases hl : library = l
    · subst hl
      rw [if_pos rfl]
      refine OrderedMap.names_insert hfresh (decide_eq_true rfl) fun x y hy hl => ?_
      exact hname x y (OrderedMap.find?_of_mem hp.tidy.cells.nodup hy) (of_decide_eq_true hl)
    · rw [if_neg hl]
      exact OrderedMap.names_insert_of_not hfresh (decide_eq_false hl)
  have hlibraries : (s.libraries.modify library fun l =>
      { l with cells := l.cells.insert name ⟨s.count + 1⟩ }) =
        c.libraries.mapValues (c.addCell library name source).2.storedLibrary := by
    rw [h.libraries, h.count]
    refine (OrderedMap.mapValues_eq_modify (fun a => ?_) fun l a hl => ?_).symm
    · rw [Catalog.storedLibrary, hnames, if_pos rfl, Catalog.storedLibrary]
    · rw [Catalog.storedLibrary, hnames, if_neg (Ne.symm hl), Catalog.storedLibrary]
  have hcells : s.cells.insert ⟨s.count + 1⟩ { name, library, source } =
      (c.cells.insert ⟨c.count + 1⟩ { name, library, source }).mapValues c.storedCell := by
    rw [OrderedMap.insert_mapValues, ← h.cells, h.count, Catalog.storedCell, hp.portNames_next]
  have hfor (u : CellSource) (x : CellId) : (s.addCell library name source).cellFor? u = some x ↔
      ∃ y, (c.addCell library name source).2.cells.find? x = some y ∧ y.source = u := by
    rw [cellFor?_addCell, h.count]
    exact find_new_iff (P := fun u (y : Cell) => y.source = u) (a := { name, library, source })
      hfresh h.cellFor (fun u x y hu hy => hu ▸ hnew x y hy) u x
  have hcount : s.count + 1 = c.count + 1 := congrArg (· + 1) h.count
  cases source <;> exact ⟨⟨hcount, hlibraries, hcells, h.ports, hfor, h.mtermPorts,
    h.boundaryPorts, h.boundaries, h.boundaryNames, h.timingMasters⟩, h.libraryFor⟩

theorem HoldsCells.cells_insertPort (h : s.HoldsCells c) (hp : c.Placed) {q : Port}
    (hname : ∀ p q', c.ports.find? p = some q' → q'.cell = q.cell → q'.name ≠ q.name)
    {f g : List PortId → List PortId} (hfg : f = g) : (s.cells.modify q.cell fun x =>
      { x with ports := f x.ports, portNames := x.portNames.insert q.name ⟨s.count + 1⟩ }) =
        (c.cells.modify q.cell fun y => { y with ports := g y.ports }).mapValues
          (Catalog.storedCell { c with ports := c.ports.insert ⟨c.count + 1⟩ q }) := by
  have hfresh : (⟨c.count + 1⟩ : PortId) ∉ c.ports.keys := hp.tidy.ports.fresh rfl
  have hnames (x : CellId) :
      Catalog.portNames { c with ports := c.ports.insert ⟨c.count + 1⟩ q } x =
        if q.cell = x then (c.portNames x).insert q.name ⟨c.count + 1⟩ else c.portNames x := by
    by_cases hx : q.cell = x
    · subst hx
      rw [if_pos rfl]
      refine OrderedMap.names_insert hfresh (decide_eq_true rfl) fun p q' hq hx => ?_
      exact hname p q' (OrderedMap.find?_of_mem hp.tidy.ports.nodup hq) (of_decide_eq_true hx)
    · rw [if_neg hx]
      exact OrderedMap.names_insert_of_not hfresh (decide_eq_false hx)
  rw [h.cells, h.count, hfg]
  refine (OrderedMap.modify_mapValues (fun y => ?_) fun x y hx => ?_).symm
  · rw [Catalog.storedCell, hnames, if_pos rfl, Catalog.storedCell]
  · rw [Catalog.storedCell, hnames, if_neg (Ne.symm hx), Catalog.storedCell]

theorem HoldsCells.libraries_modify (h : s.HoldsCells c) {f : Cell → Cell}
    (hf : ∀ y, (f y).head = y.head) (x : CellId) : s.libraries = c.libraries.mapValues
      (Catalog.storedLibrary { c with cells := c.cells.modify x f }) := by
  have hname (y : Cell) : (f y).head.name = y.head.name := congrArg Cell.name (hf y)
  have hlibrary (y : Cell) : (f y).head.library = y.head.library := congrArg Cell.library (hf y)
  rw [h.libraries]
  refine OrderedMap.mapValues_congr fun l a _ => ?_
  have hnames : Catalog.cellNames { c with cells := c.cells.modify x f } l = c.cellNames l :=
    OrderedMap.names_modify (fun y => congrArg (fun z => decide (z = l)) (hlibrary y)) hname
  rw [Catalog.storedLibrary, Catalog.storedLibrary, hnames]

theorem HoldsCells.cellFor_modify (h : s.HoldsCells c) {f : Cell → Cell}
    (hf : ∀ y, (f y).head = y.head) (x' : CellId) (source : CellSource) (x : CellId) :
    s.cellFor? source = some x ↔
      ∃ y, (c.cells.modify x' f).find? x = some y ∧ y.source = source := by
  have hsource (y : Cell) : (f y).head.source = y.head.source := congrArg Cell.source (hf y)
  rw [h.cellFor, ← Option.map_eq_some_iff, ← Option.map_eq_some_iff,
    OrderedMap.map_find?_modify (g := Cell.source) (f := f) hsource]

theorem Holds.addPort (h : s.Holds c) (hp : c.Placed) {cell : CellId} {name : String}
    {source : PortSource}
    (hname : ∀ p q, c.ports.find? p = some q → q.cell = cell → q.name ≠ name)
    (hnew : ∀ p q t, source = .physical t → c.ports.find? p = some q → q.source ≠ .physical t)
    (direction : PortDirection) : (s.addPort cell name source direction).Holds
      (c.addPort cell name source direction).2 := by
  have hfresh : (⟨c.count + 1⟩ : PortId) ∉ c.ports.keys := hp.tidy.ports.fresh rfl
  have hcount : s.count + 1 = c.count + 1 := congrArg (· + 1) h.count
  have hlibraries := h.libraries_modify (f := fun y =>
    { y with ports := y.ports ++ [⟨c.count + 1⟩] }) (fun _ => rfl) cell
  have hcells := h.cells_insertPort hp (q := { name, cell, source, direction }) hname
    (f := (· ++ [⟨s.count + 1⟩])) (by rw [h.count])
  have hports : s.ports.insert ⟨s.count + 1⟩ { name, cell, source, direction } =
      c.ports.insert ⟨c.count + 1⟩ { name, cell, source, direction } := by
    rw [h.ports, h.count]
  have hfor := h.cellFor_modify (f := fun y => { y with ports := y.ports ++ [⟨c.count + 1⟩] })
    (fun _ => rfl) cell
  have hterms (t : MTermId) (p : PortId) :
      (s.addPort cell name source direction).mtermPorts.find? t = some p ↔
        ∃ q, (c.addPort cell name source direction).2.ports.find? p = some q ∧
          q.source = .physical t := by
    rw [find?_mtermPorts_addPort, h.count]
    exact find_new_iff (P := fun t (q : Port) => q.source = .physical t)
      (a := { name, cell, source, direction }) hfresh h.mtermPorts
      (fun t p q ht hq => hnew p q t ht hq) t p
  cases source with
  | moduleBoundary b =>
    have hboundary : s.boundaryPorts.insert b ⟨s.count + 1⟩ =
        c.boundaryPorts.insert b ⟨c.count + 1⟩ := by
      rw [h.boundaryPorts, h.count]
    exact ⟨⟨hcount, hlibraries, hcells, hports, hfor, hterms, hboundary, h.boundaries,
      h.boundaryNames, h.timingMasters⟩, h.libraryFor⟩
  | physical | design | group => exact ⟨⟨hcount, hlibraries, hcells, hports, hfor, hterms,
      h.boundaryPorts, h.boundaries, h.boundaryNames, h.timingMasters⟩, h.libraryFor⟩

theorem insertIdx_place (ports members : List PortId) (group : PortId) :
    (ports.filter (· ∉ members)).insertIdx (place ports members) group =
      Catalog.regroup ports members group := by
  induction ports with
  | nil => rfl
  | cons p ports ih =>
    unfold place Catalog.regroup at ih ⊢
    by_cases hp : p ∈ members
    · simp [List.findIdx_cons, hp]
    · simpa [List.findIdx_cons, hp] using ih

theorem Holds.addGroup (h : s.Holds c) (hp : c.Placed) {cell : CellId} {name : String}
    (hname : ∀ p q, c.ports.find? p = some q → q.cell = cell → q.name ≠ name)
    (shape : PortShape) :
    (s.addGroup cell name shape).Holds (c.addGroup cell name shape).2 := by
  have hfresh : (⟨c.count + 1⟩ : PortId) ∉ c.ports.keys := hp.tidy.ports.fresh rfl
  have hcount : s.count + 1 = c.count + 1 := congrArg (· + 1) h.count
  have hlibraries := h.libraries_modify (f := fun y =>
    { y with ports := Catalog.regroup y.ports shape.members ⟨c.count + 1⟩ }) (fun _ => rfl) cell
  have hdirection : PortDirection.common
      (shape.members.filterMap fun p => (s.ports.find? p).map (·.direction)) =
        c.commonDirection shape.members := by
    rw [h.ports]
    rfl
  have hcells := h.cells_insertPort hp
    (q := { name, cell, source := .group, direction := c.commonDirection shape.members, shape })
    hname (f := fun ports =>
      (ports.filter (· ∉ shape.members)).insertIdx (place ports shape.members) ⟨s.count + 1⟩)
    (g := fun ports => Catalog.regroup ports shape.members ⟨c.count + 1⟩)
    (by simp only [insertIdx_place, h.count])
  have hports : (s.addGroup cell name shape).ports = c.ports.insert ⟨c.count + 1⟩
      { name, cell, source := .group, direction := c.commonDirection shape.members, shape } := by
    rw [← hdirection, ← h.ports, ← h.count]
    rfl
  have hfor := h.cellFor_modify (f := fun y =>
    { y with ports := Catalog.regroup y.ports shape.members ⟨c.count + 1⟩ }) (fun _ => rfl) cell
  have hterms (t : MTermId) (p : PortId) : s.mtermPorts.find? t = some p ↔
      ∃ q, (c.addGroup cell name shape).2.ports.find? p = some q ∧ q.source = .physical t :=
    find_new_iff (P := fun t (q : Port) => q.source = .physical t)
      (a := { name, cell, source := .group, direction := c.commonDirection shape.members, shape })
      hfresh h.mtermPorts (fun t p q ht => nomatch ht) t p
  exact ⟨⟨hcount, hlibraries, hcells, hports, hfor, hterms, h.boundaryPorts, h.boundaries,
    h.boundaryNames, h.timingMasters⟩, h.libraryFor⟩

theorem Holds.modifyPort (h : s.Holds c) {f : Port → Port} (hf : ∀ q, (f q).label = q.label)
    (p : PortId) :
    Holds { s with ports := s.ports.modify p f } { c with ports := c.ports.modify p f } := by
  have hname (q : Port) : (f q).label.name = q.label.name := congrArg PortLabel.name (hf q)
  have hcell (q : Port) : (f q).label.cell = q.label.cell := congrArg PortLabel.cell (hf q)
  have hsource (q : Port) : (f q).label.source = q.label.source := congrArg PortLabel.source (hf q)
  have hcells : s.cells = c.cells.mapValues
      (Catalog.storedCell { c with ports := c.ports.modify p f }) := by
    rw [h.cells]
    refine OrderedMap.mapValues_congr fun x y _ => ?_
    have hnames : Catalog.portNames { c with ports := c.ports.modify p f } x = c.portNames x :=
      OrderedMap.names_modify (fun q => congrArg (fun z => decide (z = x)) (hcell q)) hname
    rw [Catalog.storedCell, Catalog.storedCell, hnames]
  have hterms (t : MTermId) (p' : PortId) : s.mtermPorts.find? t = some p' ↔
      ∃ q, (c.ports.modify p f).find? p' = some q ∧ q.source = .physical t := by
    rw [h.mtermPorts, ← Option.map_eq_some_iff (f := Port.source), ← Option.map_eq_some_iff,
      OrderedMap.map_find?_modify (g := Port.source) (f := f) hsource]
  have hports : s.ports.modify p f = c.ports.modify p f := by rw [h.ports]
  exact ⟨⟨h.count, h.libraries, hcells, hports, h.cellFor, hterms, h.boundaryPorts, h.boundaries,
    h.boundaryNames, h.timingMasters⟩, h.libraryFor⟩

theorem Holds.setCellTiming (h : s.Holds c) (cell : CellId) (timing : TimingCellRef) :
    (s.setCellTiming cell timing).Holds (c.setCellTiming cell timing) := by
  have hlibraries := h.libraries_modify (f := fun y => { y with timing := some timing })
    (fun _ => rfl) cell
  have hfor := h.cellFor_modify (f := fun y => { y with timing := some timing })
    (fun _ => rfl) cell
  have hcells : (s.cells.modify cell fun x => { x with timing := some timing }) =
      (c.cells.modify cell fun y => { y with timing := some timing }).mapValues c.storedCell := by
    rw [h.cells]
    exact (OrderedMap.modify_mapValues (f := c.storedCell) (fun _ => rfl) fun _ _ _ => rfl).symm
  exact ⟨⟨h.count, hlibraries, hcells, h.ports, hfor, h.mtermPorts, h.boundaryPorts, h.boundaries,
    h.boundaryNames, h.timingMasters⟩, h.libraryFor⟩

theorem Holds.recordTimingMaster (h : s.Holds c) (library : TimingId) (cell : String)
    (master : MasterId) : (s.recordTimingMaster library cell master).Holds
      (c.recordTimingMaster library cell master) := by
  have hmasters : s.timingMasters.insert (library, cell) master =
      c.timingMasters.insert (library, cell) master := by
    rw [h.timingMasters]
  exact ⟨⟨h.count, h.libraries, h.cells, h.ports, h.cellFor, h.mtermPorts, h.boundaryPorts,
    h.boundaries, h.boundaryNames, hmasters⟩, h.libraryFor⟩

theorem boundary?_recordBoundary (s : Inventory) (module m : ModuleId) (name n : String)
    (b : ModBTermId) : (s.recordBoundary module name b).boundary? m n =
      if (m, n) = (module, name) then some b else s.boundary? m n := by
  rw [boundary?, recordBoundary, OrderedMap.find?_insert, boundary?]
  by_cases hm : m = module
  · subst hm
    rw [if_pos rfl, Option.bind_some, OrderedMap.find?_insert]
    by_cases hn : n = name
    · rw [if_pos hn, if_pos (by rw [hn])]
    · rw [if_neg hn, if_neg fun e => hn (Prod.mk.inj e).2]
      cases s.boundaries.find? m <;> rfl
  · rw [if_neg hm, if_neg fun e => hm (Prod.mk.inj e).1]

theorem Holds.recordBoundary (h : s.Holds c) (module : ModuleId) (name : String)
    (b : ModBTermId) : (s.recordBoundary module name b).Holds (c.recordBoundary module name b) := by
  refine ⟨⟨h.count, h.libraries, h.cells, h.ports, h.cellFor, h.mtermPorts, h.boundaryPorts,
    fun m n => ?_, fun m names hm => ?_, h.timingMasters⟩, h.libraryFor⟩
  · rw [boundary?_recordBoundary, h.boundaries]
    exact (OrderedMap.find?_insert ..).symm
  · have hm : (s.boundaries.insert module (((s.boundaries.find? module).getD {}).insert name
        b)).find? m = some names := hm
    rw [OrderedMap.find?_insert] at hm
    split at hm
    · cases hm
      refine OrderedMap.keys_nodup_insert ?_ name b
      cases hfind : s.boundaries.find? module with
      | none => exact List.nodup_nil
      | some names => exact h.boundaryNames hfind
    · exact h.boundaryNames hm

theorem Holds.clearBoundaries (h : s.Holds c) : s.clearBoundaries.Holds c.clearBoundaries :=
  ⟨⟨h.count, h.libraries, h.cells, h.ports, h.cellFor, h.mtermPorts, h.boundaryPorts,
    fun _ _ => rfl, fun _ _ hm => (by cases hm), h.timingMasters⟩, h.libraryFor⟩

theorem Holds.forgetBoundary (h : s.Holds c) (hp : c.Placed) (b : ModBTermId) :
    (s.forgetBoundary b).Holds (c.forgetBoundary b) := by
  have hfind (m : ModuleId) : (s.forgetBoundary b).boundaries.find? m =
      (s.boundaries.find? m).map fun names => names.filter fun _ b' => b' ≠ b :=
    OrderedMap.find?_mapValues s.boundaries (fun _ names => names.filter fun _ b' => b' ≠ b) m
  refine ⟨⟨h.count, h.libraries, h.cells, h.ports, h.cellFor, h.mtermPorts,
    congrArg (·.erase b) h.boundaryPorts, fun m n => ?_, fun m names hm => ?_, h.timingMasters⟩,
    h.libraryFor⟩
  · have hflat : (c.forgetBoundary b).boundary? m n = (c.boundary? m n).filter (· ≠ b) :=
      OrderedMap.find?_filter hp.boundaries (fun _ b' => b' ≠ b) (m, n)
    rw [hflat, ← h.boundaries, boundary?, hfind, boundary?]
    cases hm : s.boundaries.find? m with
    | none => rfl
    | some names => exact OrderedMap.find?_filter (h.boundaryNames hm) (fun _ b' => b' ≠ b) n
  · obtain ⟨names, hold, rfl⟩ := Option.map_eq_some_iff.1 ((hfind m).symm.trans hm)
    exact OrderedMap.keys_nodup_filter (h.boundaryNames hold) _

end Inventory
end DesignView
