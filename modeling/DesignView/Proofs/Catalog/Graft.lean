import DesignView.Proofs.Catalog.Without

/-!
Grafts. One catalog is put on top of another: its objects come after those of the base, under the
numbers that they would have been given there, with their links or without. Building and grouping
cells comes to the same before and after a catalog is grafted.
-/

namespace DesignView

/-- The number above `k` that stands for `n`. Zero, which no object has, stands for itself. -/
def above (k : Nat) : Nat → Nat
  | 0 => 0
  | n + 1 => n + k + 1

theorem above_injective (k : Nat) : Function.Injective (above k) := by
  intro m n h
  cases m <;> cases n <;> simp only [above] at h <;> omega

theorem above_ne {k m : Nat} (hpos : 0 < m) (hle : m ≤ k) (n : Nat) : above k n ≠ m := by
  cases n <;> simp only [above] <;> omega

theorem above_above (j k n : Nat) : above k (above j n) = above (j + k) n := by
  cases n with
  | zero => rfl
  | succ n =>
    simp only [above]
    omega

namespace OrderedMap

variable {κ α : Type}

/-- Entries are put after those of `base`, under other keys and with other values. -/
def graft (base : OrderedMap κ α) (key : κ → κ) (val : α → α) (m : OrderedMap κ α) :
    OrderedMap κ α := ⟨base.entries ++ m.entries.map fun e => (key e.1, val e.2)⟩

variable [DecidableEq κ] {base m : OrderedMap κ α} {key : κ → κ} {val : α → α} {k : κ}

theorem find?_graft (hkey : Function.Injective key) (hk : key k ∉ base.keys) :
    (base.graft key val m).find? (key k) = (m.find? k).map val := by
  have hbase : base.entries.find? (fun e => e.1 = key k) = none := by
    simpa [find?] using find?_eq_none_iff.2 hk
  simp only [find?, graft, List.find?_append, hbase, Option.none_or, List.find?_map, Option.map_map]
  simp only [Function.comp_def, hkey.eq_iff]

theorem find?_graft_of_mem (hk : k ∈ base.keys) :
    (base.graft key val m).find? k = base.find? k := by
  obtain ⟨a, ha⟩ := mem_keys_iff.1 hk
  obtain ⟨e, he, -⟩ := Option.map_eq_some_iff.1 ha
  simp only [find?, graft, List.find?_append, he, Option.some_or]

theorem modify_graft (hkey : Function.Injective key) (hk : key k ∉ base.keys) (f f' : α → α)
    (hf : ∀ a, f' (val a) = val (f a)) :
    (base.graft key val m).modify (key k) f' = base.graft key val (m.modify k f) := by
  have hbase : ∀ e ∈ base.entries, (if e.1 = key k then (e.1, f' e.2) else e) = e :=
    fun e he => if_neg fun h => hk (List.mem_map.2 ⟨e, he, h⟩)
  simp only [modify, graft, List.map_append, List.map_congr_left hbase, List.map_id', List.map_map,
    mk.injEq, List.append_cancel_left_eq]
  refine List.map_congr_left fun e _ => ?_
  by_cases he : e.1 = k <;> simp [he, hf, hkey.eq_iff]

theorem graft_modify {f : α → α} (hf : ∀ a, val (f a) = val a) (k : κ) :
    base.graft key val (m.modify k f) = base.graft key val m := by
  simp only [graft, modify, List.map_map, mk.injEq, List.append_cancel_left_eq]
  refine List.map_congr_left fun e _ => ?_
  by_cases he : e.1 = k <;> simp [he, hf]

theorem contains_graft (hkey : Function.Injective key) (hk : key k ∉ base.keys) :
    (base.graft key val m).contains (key k) = m.contains k := by
  rw [Bool.eq_iff_iff, contains_iff, contains_iff, ← not_iff_not, ← find?_eq_none_iff,
    ← find?_eq_none_iff, find?_graft hkey hk, Option.map_eq_none_iff]

theorem insert_graft (hkey : Function.Injective key) (hk : key k ∉ base.keys) (a : α) :
    (base.graft key val m).insert (key k) (val a) = base.graft key val (m.insert k a) := by
  rw [insert, contains_graft hkey hk, insert]
  split
  · exact modify_graft hkey hk _ _ fun _ => rfl
  · simp [graft]

omit [DecidableEq κ] in
theorem firstKey?_graft_or {p p' : α → Bool} (hp : ∀ a, p' (val a) = p a) :
    (base.graft key val m).firstKey? p' = (base.firstKey? p').or ((m.firstKey? p).map key) := by
  simp only [firstKey?, graft, List.find?_append, List.find?_map, Option.map_or, Option.map_map,
    Function.comp_def, hp]

omit [DecidableEq κ] in
theorem firstKey?_graft {p p' : α → Bool} (hbase : ∀ e ∈ base.entries, p' e.2 = false)
    (hp : ∀ a, p' (val a) = p a) :
    (base.graft key val m).firstKey? p' = (m.firstKey? p).map key := by
  have hnone : base.entries.find? (fun e => p' e.2) = none :=
    List.find?_eq_none.2 fun e he => by simp [hbase e he]
  rw [firstKey?_graft_or hp, firstKey?, hnone, Option.map_none, Option.none_or]

omit [DecidableEq κ] in
theorem filter_graft {f g : κ → α → Bool} (hbase : ∀ e ∈ base.entries, f e.1 e.2 = g e.1 e.2)
    (hm : ∀ e ∈ m.entries, f (key e.1) (val e.2) = true) :
    (base.graft key val m).filter f = (base.filter g).graft key val m := by
  have hkept : (m.entries.map fun e => (key e.1, val e.2)).filter (fun e => f e.1 e.2) =
      m.entries.map fun e => (key e.1, val e.2) := by
    refine List.filter_eq_self.2 fun a ha => ?_
    obtain ⟨e, he, rfl⟩ := List.mem_map.1 ha
    exact hm e he
  simp only [filter, graft, List.filter_append, hkept]
  rw [List.filter_congr hbase]

end OrderedMap

/-- How objects are moved: up by how many numbers, and whether they keep their links. -/
structure Shift where
  offset : Nat
  links : Bool

namespace Shift

variable (s : Shift)

def libraryId (l : LibraryId) : LibraryId := ⟨above s.offset l.num⟩

def cellId (x : CellId) : CellId := ⟨above s.offset x.num⟩

def portId (p : PortId) : PortId := ⟨above s.offset p.num⟩

def shape : PortShape → PortShape
  | .scalar => .scalar
  | .bus first last members => .bus first last (members.map s.portId)
  | .busBit bus index => .busBit (s.portId bus) index
  | .bundle members => .bundle (members.map s.portId)

def cell (y : Cell) : Cell := { y with
  library := s.libraryId y.library
  ports := y.ports.map s.portId
  timing := y.timing.filter fun _ => s.links }

def port (q : Port) : Port := { q with
  cell := s.cellId q.cell
  shape := s.shape q.shape
  timing := q.timing.filter fun _ => s.links }

theorem libraryId_injective : Function.Injective s.libraryId := fun a b h => by
  have hnum : a.num = b.num := above_injective _ (congrArg LibraryId.num h)
  cases a
  exact congrArg LibraryId.mk hnum

theorem cellId_injective : Function.Injective s.cellId := fun a b h => by
  have hnum : a.num = b.num := above_injective _ (congrArg CellId.num h)
  cases a
  exact congrArg CellId.mk hnum

theorem portId_injective : Function.Injective s.portId := fun a b h => by
  have hnum : a.num = b.num := above_injective _ (congrArg PortId.num h)
  cases a
  exact congrArg PortId.mk hnum

def comp (s t : Shift) : Shift := ⟨s.offset + t.offset, s.links && t.links⟩

variable (t : Shift)

theorem libraryId_comp (l : LibraryId) : (s.comp t).libraryId l = t.libraryId (s.libraryId l) :=
  congrArg LibraryId.mk (above_above ..).symm

theorem cellId_comp (x : CellId) : (s.comp t).cellId x = t.cellId (s.cellId x) :=
  congrArg CellId.mk (above_above ..).symm

theorem portId_comp (p : PortId) : (s.comp t).portId p = t.portId (s.portId p) :=
  congrArg PortId.mk (above_above ..).symm

theorem map_portId_comp (ps : List PortId) :
    ps.map (s.comp t).portId = (ps.map s.portId).map t.portId := by
  rw [List.map_map]
  exact List.map_congr_left fun p _ => portId_comp s t p

theorem shape_comp (a : PortShape) : (s.comp t).shape a = t.shape (s.shape a) := by
  cases a <;> simp only [shape, map_portId_comp, portId_comp]

theorem filter_comp {α : Type} (o : Option α) : o.filter (fun _ => (s.comp t).links) =
    (o.filter fun _ => s.links).filter fun _ => t.links := by
  cases o <;> cases hs : s.links <;> cases ht : t.links <;> simp [comp, hs, ht]

theorem cell_comp (y : Cell) : (s.comp t).cell y = t.cell (s.cell y) := by
  simp only [cell, libraryId_comp, map_portId_comp, filter_comp]

theorem port_comp (q : Port) : (s.comp t).port q = t.port (s.port q) := by
  simp only [port, cellId_comp, shape_comp, filter_comp]

theorem members_shape (t : PortShape) : (s.shape t).members = t.members.map s.portId := by
  cases t <;> rfl

end Shift

/-- A base to put other catalogs on, and whether they keep their links there. -/
structure Graft where
  base : Catalog
  links : Bool
  intact : base.Intact

namespace Graft

variable (g : Graft)

def shift : Shift := ⟨g.base.count, g.links⟩

abbrev libraryId (l : LibraryId) : LibraryId := g.shift.libraryId l

abbrev cellId (x : CellId) : CellId := g.shift.cellId x

abbrev portId (p : PortId) : PortId := g.shift.portId p

def catalog (e : Catalog) : Catalog where
  count := e.count + g.base.count
  libraries := g.base.libraries.graft g.libraryId id e.libraries
  cells := g.base.cells.graft g.cellId g.shift.cell e.cells
  ports := g.base.ports.graft g.portId g.shift.port e.ports
  boundaryPorts := g.base.boundaryPorts.graft id g.portId e.boundaryPorts
  boundaries := g.base.boundaries
  timingMasters := g.base.timingMasters

theorem libraryId_not_mem (l : LibraryId) : g.libraryId l ∉ g.base.libraries.keys := fun h =>
  above_ne (g.intact.tidy.libraries.pos _ h) (g.intact.tidy.libraries.le _ h) l.num rfl

theorem cellId_not_mem (x : CellId) : g.cellId x ∉ g.base.cells.keys := fun h =>
  above_ne (g.intact.tidy.cells.pos _ h) (g.intact.tidy.cells.le _ h) x.num rfl

theorem portId_not_mem (p : PortId) : g.portId p ∉ g.base.ports.keys := fun h =>
  above_ne (g.intact.tidy.ports.pos _ h) (g.intact.tidy.ports.le _ h) p.num rfl

theorem cell?_catalog (e : Catalog) (x : CellId) :
    (g.catalog e).cells.find? (g.cellId x) = (e.cells.find? x).map g.shift.cell :=
  OrderedMap.find?_graft g.shift.cellId_injective (g.cellId_not_mem x)

theorem port?_catalog (e : Catalog) (p : PortId) :
    (g.catalog e).ports.find? (g.portId p) = (e.ports.find? p).map g.shift.port :=
  OrderedMap.find?_graft g.shift.portId_injective (g.portId_not_mem p)

theorem insert_ports (e : Catalog) (p : PortId) (q : Port) :
    (g.catalog e).ports.insert (g.portId p) (g.shift.port q) =
      g.base.ports.graft g.portId g.shift.port (e.ports.insert p q) :=
  OrderedMap.insert_graft g.shift.portId_injective (g.portId_not_mem p) q

theorem modify_cells (e : Catalog) (x : CellId) (f f' : Cell → Cell)
    (hf : ∀ y, f' (g.shift.cell y) = g.shift.cell (f y)) :
    (g.catalog e).cells.modify (g.cellId x) f' =
      g.base.cells.graft g.cellId g.shift.cell (e.cells.modify x f) :=
  OrderedMap.modify_graft g.shift.cellId_injective (g.cellId_not_mem x) f f' hf

theorem topPorts_catalog (e : Catalog) (x : CellId) :
    (g.catalog e).topPorts (g.cellId x) = (e.topPorts x).map g.portId := by
  simp only [Catalog.topPorts, cell?_catalog]
  cases e.cells.find? x <;> rfl

theorem portNamed?_catalog (e : Catalog) (x : CellId) (name : String) :
    (g.catalog e).portNamed? (g.cellId x) name = (e.portNamed? x name).map g.portId := by
  refine OrderedMap.firstKey?_graft (fun a ha => ?_) fun q => ?_
  · have hfind := OrderedMap.find?_of_mem g.intact.tidy.ports.nodup (k := a.1) (a := a.2) ha
    obtain ⟨k, hk⟩ := g.intact.owned (Catalog.portLabel?_of_find? hfind)
    obtain ⟨y, hy, -⟩ := Option.map_eq_some_iff.1 hk
    have hne : a.2.cell ≠ g.cellId x := by
      intro heq
      exact g.cellId_not_mem x (heq ▸ OrderedMap.mem_keys_iff.2 ⟨y, hy⟩)
    simp [hne]
  · exact congrArg (· && _) (decide_eq_decide.2 g.shift.cellId_injective.eq_iff)

theorem catalog_empty : g.catalog {} = g.base := by
  simp [catalog, OrderedMap.graft]

theorem count_succ (e : Catalog) : (g.catalog e).count + 1 = e.count + 1 + g.base.count :=
  Nat.add_right_comm ..

theorem addLibrary (e : Catalog) (name : String) (s : LibrarySource) :
    (g.catalog e).addLibrary name s =
      (g.libraryId (e.addLibrary name s).1, g.catalog (e.addLibrary name s).2) := by
  have hinsert : (g.catalog e).libraries.insert (g.libraryId ⟨e.count + 1⟩) ⟨name, s⟩ =
      g.base.libraries.graft g.libraryId id (e.libraries.insert ⟨e.count + 1⟩ ⟨name, s⟩) :=
    OrderedMap.insert_graft g.shift.libraryId_injective (g.libraryId_not_mem _) _
  refine Prod.ext rfl ?_
  simp only [Catalog.addLibrary, catalog, Catalog.mk.injEq, and_true]
  exact ⟨g.count_succ e, hinsert⟩

theorem addCell (e : Catalog) (library : LibraryId) (name : String) (source : CellSource) :
    (g.catalog e).addCell (g.libraryId library) name source =
      (g.cellId (e.addCell library name source).1,
        g.catalog (e.addCell library name source).2) := by
  have hinsert : (g.catalog e).cells.insert (g.cellId ⟨e.count + 1⟩)
      (g.shift.cell { name, library, source }) =
      g.base.cells.graft g.cellId g.shift.cell
        (e.cells.insert ⟨e.count + 1⟩ { name, library, source }) :=
    OrderedMap.insert_graft g.shift.cellId_injective (g.cellId_not_mem _) _
  refine Prod.ext rfl ?_
  simp only [Catalog.addCell, catalog, Catalog.mk.injEq, and_true, true_and]
  exact ⟨g.count_succ e, hinsert⟩

theorem addPort (e : Catalog) (x : CellId) (name : String) (source : PortSource)
    (direction : PortDirection)
    (hfree : ∀ b, source = .moduleBoundary b → b ∉ g.base.boundaryPorts.keys) :
    (g.catalog e).addPort (g.cellId x) name source direction =
      (g.portId (e.addPort x name source direction).1,
        g.catalog (e.addPort x name source direction).2) := by
  have hinsert := g.insert_ports e ⟨e.count + 1⟩ { name, cell := x, source, direction }
  have hmodify := g.modify_cells e x (fun y => { y with ports := y.ports ++ [⟨e.count + 1⟩] })
    (fun y => { y with ports := y.ports ++ [g.portId ⟨e.count + 1⟩] }) fun y => by simp [Shift.cell]
  refine Prod.ext rfl ?_
  simp only [Catalog.addPort, catalog, Catalog.mk.injEq, and_true, true_and]
  refine ⟨g.count_succ e, hmodify, hinsert, ?_⟩
  cases source with
  | moduleBoundary b =>
    have hboundary : (g.base.boundaryPorts.graft id g.portId e.boundaryPorts).insert (id b)
        (g.portId ⟨e.count + 1⟩) = g.base.boundaryPorts.graft id g.portId
          (e.boundaryPorts.insert b ⟨e.count + 1⟩) :=
      OrderedMap.insert_graft Function.injective_id (hfree b rfl) _
    exact hboundary
  | physical | design | group => rfl

theorem addPorts (e : Catalog) (x : CellId) (ps : List PortSpec)
    (hfree : ∀ s ∈ ps, ∀ b, s.source = .moduleBoundary b → b ∉ g.base.boundaryPorts.keys) :
    (g.catalog e).addPorts (g.cellId x) ps = g.catalog (e.addPorts x ps) := by
  induction ps generalizing e with
  | nil => rfl
  | cons s ps ih =>
    have hone := g.addPort e x s.name s.source s.direction (hfree s List.mem_cons_self)
    have hrest := ih (e.addPort x s.name s.source s.direction).2
      fun s' hs' => hfree s' (List.mem_cons_of_mem s hs')
    simp only [Catalog.addPorts, List.foldl_cons, hone] at hrest ⊢
    exact hrest

theorem buildCell (e : Catalog) (library : LibraryId) (name : String) (source : CellSource)
    (ps : List PortSpec)
    (hfree : ∀ s ∈ ps, ∀ b, s.source = .moduleBoundary b → b ∉ g.base.boundaryPorts.keys) :
    (g.catalog e).buildCell (g.libraryId library) name source ps =
      g.catalog (e.buildCell library name source ps) := by
  rw [Catalog.buildCell, addCell]
  exact g.addPorts _ ⟨e.count + 1⟩ ps hfree

theorem regroup_map {f : PortId → PortId} (hf : Function.Injective f) (ports members : List PortId)
    (p : PortId) : Catalog.regroup (ports.map f) (members.map f) (f p) =
      (Catalog.regroup ports members p).map f := by
  have hmem (q : PortId) : f q ∉ members.map f ↔ q ∉ members := by
    rw [List.mem_map_of_injective hf]
  simp only [Catalog.regroup, List.takeWhile_map, List.dropWhile_map, List.filter_map,
    Function.comp_def, hmem, List.map_append, List.map_cons]

theorem commonDirection (e : Catalog) (members : List PortId) :
    (g.catalog e).commonDirection (members.map g.portId) = e.commonDirection members := by
  simp only [Catalog.commonDirection, List.filterMap_map, Function.comp_def, Catalog.port?,
    port?_catalog, Option.map_map]
  rfl

theorem addGroup (e : Catalog) (x : CellId) (name : String) (s : PortShape) :
    (g.catalog e).addGroup (g.cellId x) name (g.shift.shape s) =
      (g.portId (e.addGroup x name s).1, g.catalog (e.addGroup x name s).2) := by
  have hinsert := g.insert_ports e ⟨e.count + 1⟩
    { name, cell := x, source := .group, direction := e.commonDirection s.members, shape := s }
  have hmodify := g.modify_cells e x
    (fun y => { y with ports := Catalog.regroup y.ports s.members ⟨e.count + 1⟩ })
    (fun y => { y with
      ports := Catalog.regroup y.ports (s.members.map g.portId) (g.portId ⟨e.count + 1⟩) })
    fun y => by simp [Shift.cell, regroup_map g.shift.portId_injective]
  refine Prod.ext rfl ?_
  simp only [Catalog.addGroup, Shift.members_shape, commonDirection]
  simp only [catalog, Catalog.mk.injEq, and_true, true_and]
  exact ⟨g.count_succ e, hmodify, hinsert⟩

theorem setShape (e : Catalog) (p : PortId) (s : PortShape) :
    (g.catalog e).setShape (g.portId p) (g.shift.shape s) = g.catalog (e.setShape p s) := by
  have hmodify : (g.catalog e).ports.modify (g.portId p)
      (fun q => { q with shape := g.shift.shape s }) =
      g.base.ports.graft g.portId g.shift.port (e.ports.modify p fun q => { q with shape := s }) :=
    OrderedMap.modify_graft g.shift.portId_injective (g.portId_not_mem p) _ _ fun _ => rfl
  simp only [Catalog.setShape, catalog, Catalog.mk.injEq, and_true, true_and]
  exact hmodify

def bit (b : Nat × PortId) : Nat × PortId := (b.1, g.portId b.2)

theorem bit_injective : Function.Injective g.bit := fun a b h => by
  obtain ⟨hindex, hport⟩ := Prod.mk.inj h
  exact Prod.ext hindex (g.shift.portId_injective hport)

def buses (bs : OrderedMap String (List (Nat × PortId))) :
    OrderedMap String (List (Nat × PortId)) :=
  ({} : OrderedMap String (List (Nat × PortId))).graft id (List.map g.bit) bs

theorem insert_buses (bs : OrderedMap String (List (Nat × PortId))) (bus : String)
    (b : Nat × PortId) :
    (g.buses bs).insert bus (((g.buses bs).find? bus).getD [] ++ [g.bit b]) =
      g.buses (bs.insert bus ((bs.find? bus).getD [] ++ [b])) := by
  have hempty (bus : String) :
      id bus ∉ ({} : OrderedMap String (List (Nat × PortId))).keys := List.not_mem_nil
  have hfind : (g.buses bs).find? bus = (bs.find? bus).map (List.map g.bit) :=
    OrderedMap.find?_graft Function.injective_id (hempty bus)
  have hinsert (v : List (Nat × PortId)) :
      (g.buses bs).insert bus (v.map g.bit) = g.buses (bs.insert bus v) :=
    OrderedMap.insert_graft Function.injective_id (hempty bus) v
  rw [← hinsert, hfind, List.map_append, List.map_singleton]
  cases bs.find? bus <;> rfl

theorem bitsByBus (e : Catalog) (x : CellId) :
    (g.catalog e).bitsByBus (g.cellId x) = g.buses (e.bitsByBus x) := by
  unfold Catalog.bitsByBus
  rw [topPorts_catalog, List.foldl_map]
  have hempty : g.buses {} = {} := rfl
  rw [← List.foldl_hom g.buses fun bs id => ?_, hempty]
  simp only [Catalog.port?, port?_catalog]
  cases e.ports.find? id with
  | none => rfl
  | some q =>
    have hscalar : (g.shift.port q).shape ≠ .scalar ↔ q.shape ≠ .scalar := by
      cases hs : q.shape <;> simp [Shift.port, Shift.shape, hs]
    have hname : (g.shift.port q).name = q.name := rfl
    simp only [Option.map_some, hscalar, hname]
    split
    · rfl
    · cases BitName.parse? q.name with
      | none => rfl
      | some r => exact g.insert_buses bs r.1 (r.2, id)

theorem firstBits_map (bits : List (Nat × PortId)) :
    Catalog.firstBits (bits.map g.bit) = (Catalog.firstBits bits).map g.bit := by
  unfold Catalog.firstBits
  have hnil : [].map g.bit = [] := rfl
  rw [List.foldl_map, ← List.foldl_hom (List.map g.bit) fun kept b => ?_, hnil]
  have hany : (kept.map g.bit).any (fun k => k.1 = (g.bit b).1) = kept.any fun k => k.1 = b.1 :=
    List.any_map
  rw [hany]
  split
  · rfl
  · rw [List.map_append, List.map_singleton]

theorem sortBits_map (msbFirst : Bool) (bits : List (Nat × PortId)) :
    Catalog.sortBits msbFirst (bits.map g.bit) = (Catalog.sortBits msbFirst bits).map g.bit :=
  (List.map_mergeSort (f := g.bit) fun _ _ _ _ => rfl).symm

theorem setShapes (e : Catalog) (bus : PortId) (bits : List (Nat × PortId)) :
    (bits.map g.bit).foldl (fun c b => c.setShape b.2 (.busBit (g.portId bus) b.1)) (g.catalog e) =
      g.catalog (bits.foldl (fun c b => c.setShape b.2 (.busBit bus b.1)) e) := by
  rw [List.foldl_map]
  exact List.foldl_hom g.catalog fun e b => g.setShape e b.2 (.busBit bus b.1)

theorem groupBus (e : Catalog) (x : CellId) (msbFirst : Bool) (name : String)
    (bits : List (Nat × PortId)) :
    (g.catalog e).groupBus (g.cellId x) msbFirst name (bits.map g.bit) =
      (g.catalog (e.groupBus x msbFirst name bits).1,
        (e.groupBus x msbFirst name bits).2.map g.portId) := by
  have hrepeated : ((bits.map g.bit).filter (· ∉ (Catalog.firstBits bits).map g.bit)).map (·.2) =
      ((bits.filter (· ∉ Catalog.firstBits bits)).map (·.2)).map g.portId := by
    have hmem (b : Nat × PortId) :
        g.bit b ∉ (Catalog.firstBits bits).map g.bit ↔ b ∉ Catalog.firstBits bits := by
      rw [List.mem_map_of_injective g.bit_injective]
    simp only [List.filter_map, Function.comp_def, hmem, List.map_map]
    rfl
  unfold Catalog.groupBus
  rw [portNamed?_catalog, Option.isSome_map, firstBits_map]
  split
  · rfl
  · dsimp only
    rw [sortBits_map, List.head?_map, List.getLast?_map, hrepeated]
    generalize Catalog.sortBits msbFirst (Catalog.firstBits bits) = sorted
    cases sorted.head? with
    | none => rfl
    | some first =>
      cases sorted.getLast? with
      | none => rfl
      | some last =>
        have hgroup := g.addGroup e x name (.bus first.1 last.1 (sorted.map (·.2)))
        have hmembers : (sorted.map g.bit).map (·.2) = (sorted.map (·.2)).map g.portId := by
          rw [List.map_map, List.map_map]
          rfl
        have hshape : g.shift.shape (.bus first.1 last.1 (sorted.map (·.2))) =
            .bus (g.bit first).1 (g.bit last).1 ((sorted.map g.bit).map (·.2)) := by
          rw [hmembers]
          rfl
        rw [hshape] at hgroup
        simp only [Option.map_some, hgroup]
        exact Prod.ext (g.setShapes _ _ sorted) rfl

theorem groupBuses (e : Catalog) (x : CellId) (msbFirst : String → Bool) :
    (g.catalog e).groupBuses (g.cellId x) msbFirst =
      (g.catalog (e.groupBuses x msbFirst).1, (e.groupBuses x msbFirst).2.map g.portId) := by
  have hentries : (g.buses (e.bitsByBus x)).entries =
      (e.bitsByBus x).entries.map fun b => (b.1, b.2.map g.bit) := rfl
  unfold Catalog.groupBuses
  rw [bitsByBus, hentries, List.foldl_map]
  generalize (e.bitsByBus x).entries = es
  have hstart : (g.catalog e, ([] : List PortId)) =
      (g.catalog (e, ([] : List PortId)).1, (e, ([] : List PortId)).2.map g.portId) := rfl
  rw [hstart]
  generalize (e, ([] : List PortId)) = r
  induction es generalizing r with
  | nil => rfl
  | cons b es ih =>
    rw [List.foldl_cons, List.foldl_cons, ← ih]
    dsimp only
    rw [groupBus, List.map_append]

theorem find?_cell_of_owned (e : Catalog) {p : PortId} {q : Port}
    (hp : g.base.ports.find? p = some q) :
    (g.catalog e).cells.find? q.cell = g.base.cells.find? q.cell := by
  obtain ⟨k, hk⟩ := g.intact.owned (Catalog.portLabel?_of_find? hp)
  obtain ⟨y, hy, -⟩ := Option.map_eq_some_iff.1 hk
  exact OrderedMap.find?_graft_of_mem (OrderedMap.mem_keys_iff.2 ⟨y, hy⟩)

theorem libraryId_ne {old : LibraryId} (hold : old ∈ g.base.libraries.keys) (l : LibraryId) :
    g.libraryId l ≠ old := fun e => g.libraryId_not_mem l (e ▸ hold)

theorem any_cell?_catalog {old : LibraryId} (hold : old ∈ g.base.libraries.keys) (e : Catalog)
    (x : CellId) :
    ((g.catalog e).cells.find? (g.cellId x)).any (fun y => y.library = old) = false := by
  rw [cell?_catalog, Option.any_map]
  cases e.cells.find? x with
  | none => rfl
  | some y => exact decide_eq_false (g.libraryId_ne hold y.library)

theorem removeLibrary {old : LibraryId} (hold : old ∈ g.base.libraries.keys) (e : Catalog) :
    (g.catalog e).removeLibrary old =
      (Graft.mk (g.base.removeLibrary old) g.links (g.intact.removeLibrary old)).catalog e := by
  have hports {a : PortId × Port} (ha : a ∈ g.base.ports.entries) :
      (g.catalog e).cells.find? a.2.cell = g.base.cells.find? a.2.cell :=
    g.find?_cell_of_owned e (OrderedMap.find?_of_mem g.intact.tidy.ports.nodup ha)
  have hcellsOf : (g.catalog e).cellsOf old = g.base.cellsOf old := by
    have hnone : (e.cells.entries.map fun a => (g.cellId a.1, g.shift.cell a.2)).filter
        (fun a => a.2.library = old) = [] := by
      refine List.filter_eq_nil_iff.2 fun a ha => ?_
      obtain ⟨a, -, rfl⟩ := List.mem_map.1 ha
      exact mt of_decide_eq_true (g.libraryId_ne hold a.2.library)
    exact (List.filter_append ..).trans ((congrArg _ hnone).trans (List.append_nil _))
  simp only [Catalog.removeLibrary, hcellsOf]
  simp only [catalog, Catalog.mk.injEq, and_true, true_and]
  refine ⟨?_, ?_, ?_, ?_⟩
  · exact OrderedMap.filter_graft (f := fun (l : LibraryId) (_ : Library) => decide (l ≠ old))
      (g := fun l _ => decide (l ≠ old)) (fun _ _ => rfl)
      fun a _ => decide_eq_true (g.libraryId_ne hold a.1)
  · exact OrderedMap.filter_graft (f := fun (_ : CellId) (y : Cell) => decide (y.library ≠ old))
      (g := fun _ y => decide (y.library ≠ old)) (fun _ _ => rfl)
      fun a _ => decide_eq_true (g.libraryId_ne hold a.2.library)
  · refine OrderedMap.filter_graft (fun a ha => ?_) fun a _ => ?_
    · exact congrArg (fun y => !Option.any _ y) (hports ha)
    · exact congrArg not (g.any_cell?_catalog hold e a.2.cell)
  · refine OrderedMap.filter_graft (fun a ha => ?_) fun a _ => ?_
    · have hfind := OrderedMap.find?_of_mem g.intact.tidy.boundaryPorts (k := a.1) (a := a.2) ha
      obtain ⟨l, hl, -⟩ := g.intact.boundaryPorts hfind
      obtain ⟨q, hq, -⟩ := Option.map_eq_some_iff.1 hl
      have hsame : (g.catalog e).ports.find? a.2 = g.base.ports.find? a.2 :=
        OrderedMap.find?_graft_of_mem (OrderedMap.mem_keys_iff.2 ⟨q, hq⟩)
      have hcell := g.find?_cell_of_owned e hq
      refine (congrArg (fun q => !Option.any _ q) hsame).trans ?_
      rw [hq, Option.any_some, Option.any_some]
      exact congrArg (fun y => !Option.any _ y) hcell
    · refine (congrArg (fun q => !Option.any _ q) (g.port?_catalog e a.2)).trans ?_
      rw [Option.any_map]
      cases e.ports.find? a.2 with
      | none => rfl
      | some q => exact congrArg not (g.any_cell?_catalog hold e q.cell)

def without (s : LibrarySource) : Graft := ⟨g.base.without s, g.links, g.intact.without s⟩

theorem shift_without (s : LibrarySource) : (g.without s).shift = g.shift := by
  rw [shift, shift]
  exact congrArg (Shift.mk · g.links) (g.base.count_without s)

theorem catalog_without {e : Catalog} {s : LibrarySource}
    (hfree : (e.libraries.firstKey? fun l => l.source = s) = none) :
    (g.catalog e).without s = (g.without s).catalog e := by
  have hfirst : ((g.catalog e).libraries.firstKey? fun l => l.source = s) =
      g.base.libraries.firstKey? fun l => l.source = s := by
    refine (OrderedMap.firstKey?_graft_or (p := fun l => l.source = s) fun _ => rfl).trans ?_
    rw [hfree, Option.map_none, Option.or_none]
  have hsame {c : Catalog} (hc : c = g.base.without s) (hi : c.Intact) :
      (Graft.mk c g.links hi).catalog e = (g.without s).catalog e := by
    subst hc
    rfl
  unfold Catalog.without at hsame ⊢
  rw [hfirst]
  split at hsame
  · next old hold =>
    obtain ⟨a, ha, -⟩ := OrderedMap.exists_of_firstKey? g.intact.tidy.libraries.nodup hold
    rw [← hsame rfl (g.intact.removeLibrary old)]
    exact g.removeLibrary (OrderedMap.mem_keys_iff.2 ⟨a, ha⟩) e
  · rw [← hsame rfl g.intact]

variable {g}

theorem catalog_setCellTiming (hg : g.links = false) (e : Catalog) (x : CellId)
    (ref : TimingCellRef) : g.catalog (e.setCellTiming x ref) = g.catalog e := by
  simp only [Catalog.setCellTiming, catalog, Catalog.mk.injEq, and_true, true_and]
  refine OrderedMap.graft_modify (fun y => ?_) x
  simp [Shift.cell, shift, hg]

theorem catalog_linkPort (hg : g.links = false) (e : Catalog) (library : TimingId)
    (timing : TimingCell) (p : PortId) : g.catalog (e.linkPort library timing p) = g.catalog e := by
  unfold Catalog.linkPort
  split
  · rfl
  · split
    · simp only [Catalog.setPortTiming, catalog, Catalog.mk.injEq, and_true, true_and]
      refine OrderedMap.graft_modify (fun q => ?_) p
      simp [Shift.port, shift, hg]
    · rfl

theorem catalog_link (hg : g.links = false) (e : Catalog) (x : CellId) (id : TimingId)
    (library : String) (timing : TimingCell) :
    g.catalog (e.link x id library timing).1 = g.catalog e :=
  List.foldlRecOn (motive := fun c => g.catalog c = g.catalog e) _ _
    (catalog_setCellTiming hg e x ⟨id, timing.name⟩)
    fun c hc p _ => (catalog_linkPort hg c id timing p).trans hc

end Graft
end DesignView
