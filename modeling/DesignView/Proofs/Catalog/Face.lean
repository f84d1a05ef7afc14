import DesignView.Proofs.Catalog.Intact

/-!
Faces: what a cell is apart from its ports, that is its name, its library, its source and its link.
Ports are added, grouped and linked without a change to any face; a link of a cell changes its face
alone.
-/

namespace DesignView

def Cell.face (x : Cell) : Cell := { x with ports := [] }

def Cell.head (x : Cell) : Cell := { x with ports := [], timing := none }

namespace Catalog

def face? (c : Catalog) (x : CellId) : Option Cell := (c.cells.find? x).map Cell.face

def head? (c : Catalog) (x : CellId) : Option Cell := (c.cells.find? x).map Cell.head

variable {c c' c'' : Catalog} {cell x : CellId} {y : Cell}

theorem head?_of_face? (h : c'.face? x = c.face? x) : c'.head? x = c.head? x := by
  have hhead (c : Catalog) : c.head? x = (c.face? x).map Cell.head := by
    rw [face?, Option.map_map]
    rfl
  rw [hhead, hhead, h]

theorem cellLabel?_of_head? (h : c'.head? x = c.head? x) : c'.cellLabel? x = c.cellLabel? x := by
  have hlabel (c : Catalog) : c.cellLabel? x = (c.head? x).map Cell.label := by
    rw [head?, Option.map_map]
    rfl
  rw [hlabel, hlabel, h]

theorem face?_of_find? (h : c.cells.find? x = some y) : c.face? x = some y.face :=
  congrArg (Option.map Cell.face) h

theorem exists_of_face? (h : c.face? x = some y) :
    ∃ y', c.cells.find? x = some y' ∧ y'.face = y := Option.map_eq_some_iff.1 h

/-- The catalogs differ in their ports at most. -/
structure SameCells (c c' : Catalog) : Prop where
  libraries : c'.libraries = c.libraries
  faces : ∀ x, c'.face? x = c.face? x
  timingMasters : c'.timingMasters = c.timingMasters

namespace SameCells

theorem refl (c : Catalog) : c.SameCells c := ⟨rfl, fun _ => rfl, rfl⟩

theorem trans (h : c.SameCells c') (h' : c'.SameCells c'') : c.SameCells c'' :=
  ⟨h'.libraries.trans h.libraries, fun x => (h'.faces x).trans (h.faces x),
    h'.timingMasters.trans h.timingMasters⟩

theorem foldl {ε : Type} {step : Catalog → ε → Catalog}
    (hstep : ∀ (c : Catalog) (e : ε), c.SameCells (step c e)) (es : List ε) (c : Catalog) :
    c.SameCells (es.foldl step c) :=
  List.foldlRecOn (motive := c.SameCells) es step (refl c) fun c' hc' e _ => hc'.trans (hstep c' e)

theorem modifyPorts (c : Catalog) (cell : CellId) {f : Cell → Cell}
    (hf : ∀ y, (f y).face = y.face) (hlibraries : c'.libraries = c.libraries)
    (hcells : c'.cells = c.cells.modify cell f) (hmasters : c'.timingMasters = c.timingMasters) :
    c.SameCells c' := by
  refine ⟨hlibraries, fun x => ?_, hmasters⟩
  rw [face?, hcells]
  exact OrderedMap.map_find?_modify hf ..

theorem addPort (c : Catalog) (cell : CellId) (name : String) (source : PortSource)
    (direction : PortDirection) : c.SameCells (c.addPort cell name source direction).2 :=
  modifyPorts c cell (f := fun y => { y with ports := y.ports ++ [⟨c.count + 1⟩] }) (fun _ => rfl)
    rfl rfl rfl

theorem addPorts (c : Catalog) (cell : CellId) (ps : List PortSpec) :
    c.SameCells (c.addPorts cell ps) :=
  foldl (fun c (p : PortSpec) => addPort c cell p.name p.source p.direction) ps c

theorem addGroup (c : Catalog) (cell : CellId) (name : String) (shape : PortShape) :
    c.SameCells (c.addGroup cell name shape).2 :=
  modifyPorts c cell
    (f := fun y => { y with ports := regroup y.ports shape.members ⟨c.count + 1⟩ }) (fun _ => rfl)
    rfl rfl rfl

theorem setPorts (c : Catalog) (ports : OrderedMap PortId Port) :
    c.SameCells { c with ports } := ⟨rfl, fun _ => rfl, rfl⟩

theorem setBoundaries (c : Catalog) (m : OrderedMap (ModuleId × String) ModBTermId) :
    c.SameCells { c with boundaries := m } := ⟨rfl, fun _ => rfl, rfl⟩

theorem groupBus (c : Catalog) (cell : CellId) (msbFirst : Bool) (name : String)
    (bits : List (Nat × PortId)) : c.SameCells (c.groupBus cell msbFirst name bits).1 := by
  unfold Catalog.groupBus
  split
  · exact refl c
  · dsimp only
    split
    · exact (addGroup ..).trans (foldl (fun c (b : Nat × PortId) => setPorts c _) _ _)
    · exact refl c

theorem groupBuses (c : Catalog) (cell : CellId) (msbFirst : String → Bool) :
    c.SameCells (c.groupBuses cell msbFirst).1 := by
  refine List.foldlRecOn (motive := fun acc : Catalog × List PortId => c.SameCells acc.1) _ _
    (refl c) fun acc hacc e _ => ?_
  exact hacc.trans (groupBus acc.1 cell _ e.1 e.2)

theorem bundle {name : String} {members : List PortId} {r : Option PortId}
    (e : c.bundle cell name members = .ok (r, c')) : c.SameCells c' := by
  rcases bundle_eq_ok e with rfl | ⟨-, -, -, rfl⟩
  · exact refl _
  · exact addGroup ..

theorem linkPort (c : Catalog) (library : TimingId) (timing : TimingCell) (id : PortId) :
    c.SameCells (c.linkPort library timing id) := by
  unfold Catalog.linkPort
  split
  · exact refl c
  · split
    · exact setPorts c _
    · exact refl c

theorem link (c : Catalog) (cell : CellId) (id : TimingId) (library : String)
    (timing : TimingCell) :
    (c.setCellTiming cell ⟨id, timing.name⟩).SameCells (c.link cell id library timing).1 :=
  foldl (fun c p => linkPort c id timing p) _ _

end SameCells

theorem face?_setCellTiming (c : Catalog) (cell : CellId) (ref : TimingCellRef) (x : CellId) :
    (c.setCellTiming cell ref).face? x =
      if x = cell then (c.face? x).map fun y => { y with timing := some ref } else c.face? x := by
  have hfind : (c.setCellTiming cell ref).cells.find? x = if x = cell then
      (c.cells.find? x).map fun y => { y with timing := some ref } else c.cells.find? x :=
    OrderedMap.find?_modify ..
  rw [face?, hfind]
  split
  · rw [face?, Option.map_map, Option.map_map]
    rfl
  · rfl

theorem face?_link (c : Catalog) (cell : CellId) (id : TimingId) (library : String)
    (timing : TimingCell) (x : CellId) : (c.link cell id library timing).1.face? x =
      if x = cell then (c.face? x).map fun y => { y with timing := some ⟨id, timing.name⟩ }
      else c.face? x :=
  ((SameCells.link ..).faces x).trans (face?_setCellTiming ..)

theorem head?_link (c : Catalog) (cell : CellId) (id : TimingId) (library : String)
    (timing : TimingCell) (x : CellId) :
    (c.link cell id library timing).1.head? x = c.head? x := by
  refine (head?_of_face? ((SameCells.link ..).faces x)).trans ?_
  exact OrderedMap.map_find?_modify
    (f := fun y : Cell => { y with timing := some ⟨id, timing.name⟩ }) (fun _ => rfl) c.cells cell x

theorem face?_addCell (c : Catalog) (library : LibraryId) (name : String) (source : CellSource)
    (x : CellId) : (c.addCell library name source).2.face? x =
      if x = ⟨c.count + 1⟩ then some { name, library, source } else c.face? x :=
  OrderedMap.map_find?_insert ..

theorem face?_buildCell (c : Catalog) (library : LibraryId) (name : String) (source : CellSource)
    (ps : List PortSpec) (x : CellId) : (c.buildCell library name source ps).face? x =
      if x = ⟨c.count + 1⟩ then some { name, library, source } else c.face? x :=
  ((SameCells.addPorts ..).faces x).trans (face?_addCell ..)

theorem cellLabel?_buildCell (c : Catalog) (library : LibraryId) (name : String)
    (source : CellSource) (ps : List PortSpec) (x : CellId) :
    (c.buildCell library name source ps).cellLabel? x =
      if x = ⟨c.count + 1⟩ then some ⟨library, source⟩ else c.cellLabel? x :=
  (cellLabel?_of_head? (head?_of_face? ((SameCells.addPorts ..).faces x))).trans
    (cellLabel?_addCell ..)

theorem Tidy.face?_removeLibrary (h : c.Tidy) (id : LibraryId) (x : CellId) :
    (c.removeLibrary id).face? x = (c.face? x).filter fun y => y.library ≠ id := by
  rw [face?, h.cells_removeLibrary, face?]
  cases c.cells.find? x with
  | none => rfl
  | some y =>
    rw [Option.map_some, Option.filter_some, Option.filter_some]
    by_cases hy : y.library = id <;> simp [Cell.face, hy]

end Catalog
end DesignView
