import DesignView.Proofs.Catalog.Planted

/-!
Histories of a catalog. Whatever is done to a catalog is one of a few steps; what each of them keeps
holds of every catalog that is reached from the empty one.
-/

namespace DesignView.Catalog

open Relation (ReflTransGen)

variable {c c' c'' : Catalog}

/-- One change, where it is due: cells are built with ports of different names, a port is added
under a new name, and masters are recorded that have a cell. -/
inductive Step : Catalog → Catalog → Prop
  | addLibrary (c : Catalog) (name : String) (source : LibrarySource) :
      c.Step (c.addLibrary name source).2
  | removeLibrary (c : Catalog) (id : LibraryId) : c.Step (c.removeLibrary id)
  | buildCell (c : Catalog) (library : LibraryId) (name : String) (source : CellSource)
      {ps : List PortSpec} (hnames : (ps.map (·.name)).Nodup)
      (hborders : ∀ s ∈ ps, ∀ b, s.source = .moduleBoundary b → ∃ m, source = .module m)
      (hports : ∀ s ∈ ps, s.source ≠ .group) : c.Step (c.buildCell library name source ps)
  | addPort {c : Catalog} {cell : CellId} {y : Cell} {name : String}
      (hy : c.cells.find? cell = some y) (hfree : c.portNamed? cell name = none)
      (direction : PortDirection) : c.Step (c.addPort cell name .design direction).2
  | setDirection (c : Catalog) (port : PortId) (direction : PortDirection) :
      c.Step (c.setDirection port direction)
  | groupBuses (c : Catalog) (cell : CellId) (msbFirst : String → Bool) :
      c.Step (c.groupBuses cell msbFirst).1
  | bundle {c c' : Catalog} {cell : CellId} {name : String} {members : List PortId}
      {r : Option PortId} (h : c.bundle cell name members = .ok (r, c')) : c.Step c'
  | link (c : Catalog) (cell : CellId) (id : TimingId) (library : String) (timing : TimingCell) :
      c.Step (c.link cell id library timing).1
  | recordAll {c : Catalog} {es : List ((TimingId × String) × MasterId)}
      (hes : ∀ e ∈ es, ∃ x l, c.cellLabel? x = some l ∧ l.source = .physical e.2) :
      c.Step (c.recordAll es)
  | setBoundaries (c : Catalog) (m : OrderedMap (ModuleId × String) ModBTermId) :
      c.Step { c with boundaries := m }
  | forgetBoundary (c : Catalog) (id : ModBTermId) : c.Step (c.forgetBoundary id)

def Steps : Catalog → Catalog → Prop := ReflTransGen Step

def Reachable (c : Catalog) : Prop := Steps {} c

namespace Steps

theorem refl (c : Catalog) : c.Steps c := ReflTransGen.refl

theorem trans (h : c.Steps c') (h' : c'.Steps c'') : c.Steps c'' := ReflTransGen.trans h h'

theorem single (s : c.Step c') : c.Steps c' := ReflTransGen.single s

theorem step (h : c.Steps c') (s : c'.Step c'') : c.Steps c'' := ReflTransGen.tail h s

end Steps

theorem Step.intact (s : c.Step c') (h : c.Intact) : c'.Intact := by
  cases s with
  | addLibrary name source => exact h.addLibrary name source
  | removeLibrary id => exact h.removeLibrary id
  | buildCell library name source hnames hborders _ =>
    exact h.buildCell library name source hnames hborders
  | addPort hy hfree direction =>
    refine h.addPort (cellLabel?_of_find? hy) ((portNamed?_eq_none_iff h.tidy.ports.nodup).1 hfree)
      (fun b hb => ?_) direction
    cases hb
  | setDirection port direction => exact h.setDirection port direction
  | groupBuses cell msbFirst => exact h.groupBuses cell msbFirst
  | bundle e => exact h.bundle e
  | link cell id library timing => exact h.link cell id library timing
  | recordAll hes => exact h.recordAll hes
  | setBoundaries m => exact h.setBoundaries m
  | forgetBoundary id => exact h.forgetBoundary id

theorem Steps.intact (hrun : c.Steps c') (h : c.Intact) : c'.Intact := by
  induction hrun with
  | refl => exact h
  | tail _ s ih => exact s.intact ih

theorem Reachable.intact (h : c.Reachable) : c.Intact := Steps.intact h intact_empty

theorem Step.planted (s : c.Step c') (hi : c.Intact) (h : c.Planted) : c'.Planted := by
  have same {c' : Catalog} (hnodes : c.SameNodes c') : c'.Planted := hnodes.planted h
  cases s with
  | addLibrary name source => exact h.addLibrary name source
  | removeLibrary id => exact h.removeLibrary hi.tidy id
  | buildCell library name source _ _ hports => exact h.buildCell hi library name source hports
  | addPort hy _ direction => exact h.addPort hi.tidy hy (by simp) _ direction
  | setDirection port direction => exact same (.setDirection c port direction)
  | groupBuses cell msbFirst => exact h.groupBuses hi.tidy cell msbFirst
  | bundle e => exact h.bundle hi.tidy e
  | link cell id library timing => exact same (.link c cell id library timing)
  | recordAll | setBoundaries | forgetBoundary => exact same ⟨fun _ => rfl, fun _ => rfl⟩

theorem Reachable.planted (h : c.Reachable) : c.Planted := by
  induction h with
  | refl => exact planted_empty
  | tail hrun s ih => exact s.planted (Reachable.intact hrun) ih

end DesignView.Catalog
