import DesignView.Proofs.Catalog.Intact
import DesignView.Proofs.Catalog.Mirror

/-!
The index of boundary terminals stands apart. Building, grouping and linking cells neither reads nor
changes it: on a catalog with another index they come to the same, with that index.
-/

namespace DesignView.Catalog

def indexed (c : Catalog) (b : OrderedMap (ModuleId × String) ModBTermId) : Catalog :=
  { c with boundaries := b }

variable (c : Catalog) (b : OrderedMap (ModuleId × String) ModBTermId)

theorem without_indexed (s : LibrarySource) :
    (c.indexed b).without s = (c.without s).indexed b := by
  have hfirst : ((c.indexed b).libraries.firstKey? fun l => l.source = s) =
      c.libraries.firstKey? fun l => l.source = s := rfl
  unfold Catalog.without
  rw [hfirst]
  split <;> rfl

theorem addPorts_indexed (cell : CellId) (ps : List PortSpec) :
    (c.indexed b).addPorts cell ps = (c.addPorts cell ps).indexed b := by
  unfold addPorts
  exact List.foldl_hom (fun c : Catalog => c.indexed b) fun _ _ => rfl

theorem buildCell_indexed (library : LibraryId) (name : String) (source : CellSource)
    (ps : List PortSpec) : (c.indexed b).buildCell library name source ps =
      (c.buildCell library name source ps).indexed b :=
  (c.addCell library name source).2.addPorts_indexed b _ ps

theorem setShapes_indexed (bus : PortId) (bits : List (Nat × PortId)) :
    bits.foldl (fun c e => c.setShape e.2 (.busBit bus e.1)) (c.indexed b) =
      (bits.foldl (fun c e => c.setShape e.2 (.busBit bus e.1)) c).indexed b :=
  List.foldl_hom (fun c : Catalog => c.indexed b) fun _ _ => rfl

theorem groupBus_indexed (cell : CellId) (msbFirst : Bool) (name : String)
    (bits : List (Nat × PortId)) : (c.indexed b).groupBus cell msbFirst name bits =
      ((c.groupBus cell msbFirst name bits).1.indexed b,
        (c.groupBus cell msbFirst name bits).2) := by
  have hnamed : (c.indexed b).portNamed? cell name = c.portNamed? cell name := rfl
  unfold groupBus
  rw [hnamed]
  split
  · rfl
  · dsimp only
    split
    · next first last _ _ =>
      exact Prod.ext (setShapes_indexed (c.addGroup cell name (.bus first.1 last.1 _)).2 b _ _) rfl
    · rfl

theorem groupBuses_indexed (cell : CellId) (msbFirst : String → Bool) :
    (c.indexed b).groupBuses cell msbFirst =
      ((c.groupBuses cell msbFirst).1.indexed b, (c.groupBuses cell msbFirst).2) := by
  have hbits : (c.indexed b).bitsByBus cell = c.bitsByBus cell := rfl
  unfold groupBuses
  rw [hbits]
  clear hbits
  -- The bits that repeat an index are collected along the way.
  generalize (c.bitsByBus cell).entries = es, ([] : List PortId) = repeated
  induction es generalizing c repeated with
  | nil => rfl
  | cons e es ih =>
    simp only [List.foldl_cons, groupBus_indexed]
    exact ih _ _

theorem expand_indexed (depth : Nat) (id : PortId) :
    (c.indexed b).expand depth id = c.expand depth id := by
  induction depth generalizing id with
  | zero => rfl
  | succ depth ih =>
    have hmembers : (c.indexed b).expand depth = c.expand depth := funext ih
    unfold expand
    rw [hmembers]
    rfl

theorem bitsOf_indexed (cell : CellId) : (c.indexed b).bitsOf cell = c.bitsOf cell :=
  congrArg (c.topPorts cell).flatMap (funext (c.expand_indexed b _))

theorem linkPort_indexed (library : TimingId) (timing : TimingCell) (id : PortId) :
    (c.indexed b).linkPort library timing id = (c.linkPort library timing id).indexed b := by
  have hport : (c.indexed b).port? id = c.port? id := rfl
  unfold linkPort
  rw [hport]
  split
  · rfl
  · split <;> rfl

theorem linkPorts_indexed (library : TimingId) (timing : TimingCell) (ids : List PortId) :
    ids.foldl (fun c id => c.linkPort library timing id) (c.indexed b) =
      (ids.foldl (fun c id => c.linkPort library timing id) c).indexed b :=
  List.foldl_hom (fun c : Catalog => c.indexed b) fun c id => c.linkPort_indexed b library timing id

theorem link_indexed (cell : CellId) (id : TimingId) (library : String) (timing : TimingCell) :
    (c.indexed b).link cell id library timing =
      ((c.link cell id library timing).1.indexed b, (c.link cell id library timing).2) := by
  unfold link
  rw [bitsOf_indexed]
  exact Prod.ext (linkPorts_indexed (c.setCellTiming cell ⟨id, timing.name⟩) b _ _ _) rfl

end DesignView.Catalog
