import DesignView.Proofs.Catalog.Face
import DesignView.Proofs.Catalog.History

/-!
What loads do to a catalog. A load adds and removes libraries, builds cells, makes the buses of a
cell that is not linked yet, links such a cell to a cell of its name in a loaded timing library, and
fills the tables. Each of these is a step of the history of the catalog; no load bundles ports or
gives a port another direction.
-/

namespace DesignView.Catalog

open Relation (ReflTransGen)

variable {timing : List TimingLibrary} {c c' c'' : Catalog}

/-- One change of a load, with the timing libraries that are loaded. -/
inductive Build (timing : List TimingLibrary) : Catalog → Catalog → Prop
  | addLibrary (c : Catalog) (name : String) (source : LibrarySource) :
      Build timing c (c.addLibrary name source).2
  | removeLibrary (c : Catalog) (id : LibraryId) : Build timing c (c.removeLibrary id)
  | buildCell (c : Catalog) (library : LibraryId) (name : String) (source : CellSource)
      {ps : List PortSpec} (hnames : (ps.map (·.name)).Nodup)
      (hborders : ∀ s ∈ ps, ∀ b, s.source = .moduleBoundary b → ∃ m, source = .module m)
      (hports : ∀ s ∈ ps, s.source ≠ .group) :
      Build timing c (c.buildCell library name source ps)
  | groupBuses {c : Catalog} {cell : CellId} {y : Cell} (hy : c.face? cell = some y)
      (hfree : y.timing = none) (msbFirst : String → Bool) :
      Build timing c (c.groupBuses cell msbFirst).1
  | link {c : Catalog} {cell : CellId} {y : Cell} {id : TimingId} {library : TimingLibrary}
      {t : TimingCell} (hy : c.cells.find? cell = some y) (hfree : y.timing = none)
      (hlibrary : timing[id.index]? = some library) (ht : library.cell? y.name = some t) :
      Build timing c (c.link cell id library.name t).1
  | recordAll {c : Catalog} {es : List ((TimingId × String) × MasterId)}
      (hes : ∀ e ∈ es, ∃ x l, c.cellLabel? x = some l ∧ l.source = .physical e.2) :
      Build timing c (c.recordAll es)
  | setBoundaries (c : Catalog) (m : OrderedMap (ModuleId × String) ModBTermId) :
      Build timing c { c with boundaries := m }

theorem Build.step (s : Build timing c c') : c.Step c' := by
  cases s with
  | addLibrary name source => exact .addLibrary c name source
  | removeLibrary id => exact .removeLibrary c id
  | buildCell library name source hnames hborders hports =>
    exact .buildCell c library name source hnames hborders hports
  | groupBuses _ _ msbFirst => exact .groupBuses c _ msbFirst
  | link _ _ _ _ => exact .link c _ _ _ _
  | recordAll hes => exact .recordAll hes
  | setBoundaries m => exact .setBoundaries c m

def Builds (timing : List TimingLibrary) : Catalog → Catalog → Prop := ReflTransGen (Build timing)

namespace Builds

theorem refl (c : Catalog) : Builds timing c c := ReflTransGen.refl

theorem single (s : Build timing c c') : Builds timing c c' := ReflTransGen.single s

theorem trans (h : Builds timing c c') (h' : Builds timing c' c'') : Builds timing c c'' :=
  ReflTransGen.trans h h'

theorem step (h : Builds timing c c') (s : Build timing c' c'') : Builds timing c c'' :=
  ReflTransGen.tail h s

theorem steps (h : Builds timing c c') : c.Steps c' := by
  induction h with
  | refl => exact .refl c
  | tail _ s ih => exact ih.step s.step

theorem induct {motive : Catalog → Prop} (h : Builds timing c c') (hc : c.Reachable)
    (hfirst : motive c) (hstep : ∀ ⦃a b : Catalog⦄, a.Reachable → Build timing a b → motive a →
      motive b) : motive c' := by
  induction h with
  | refl => exact hfirst
  | tail hrun s ih => exact hstep (hc.trans (steps hrun)) s ih

end Builds

end DesignView.Catalog
