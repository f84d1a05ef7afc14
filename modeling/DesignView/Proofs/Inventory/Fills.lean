import DesignView.Proofs.Inventory.Calls
import DesignView.Proofs.Network.FirstLink

/-!
What loads and edits do to a catalog, call by call. Cells are built with their ports, ports are
grouped and linked, masters and boundary terminals are recorded; whatever is added belongs to a
library or a cell that has been numbered.
-/

namespace DesignView

open Catalog (Fills)

namespace Catalog

variable {c c' : Catalog} {cell : CellId} {library : LibraryId}

theorem count_le_call (c : Catalog) {k : Inventory.Call} (hk : c.Admits k) :
    c.count ≤ (c.call k).count := by
  cases k with
  | addLibrary | addCell | addPort | addGroup => exact Nat.le_succ _
  | removeLibrary => exact hk.elim
  | _ => exact Nat.le_refl _

namespace Fills

theorem count (h : c.Fills c') : c.count ≤ c'.count := by
  induction h with
  | refl => exact Nat.le_refl _
  | tail _ hcall ih =>
    obtain ⟨k, hk, rfl⟩ := hcall
    exact Nat.le_trans ih (count_le_call _ hk)

theorem foldl {ε : Type} {step : Catalog → ε → Catalog} (es : List ε)
    (hstep : ∀ (c' : Catalog) (e : ε), c.count ≤ c'.count → c'.Fills (step c' e)) :
    c.Fills (es.foldl step c) := by
  refine List.foldlRecOn (motive := c.Fills) es step (refl c) fun c' hc' e _ => ?_
  exact hc'.trans (hstep c' e hc'.count)

theorem addPorts (h : cell.num ≤ c.count) (ps : List PortSpec) : c.Fills (c.addPorts cell ps) :=
  foldl ps fun _ p hle =>
    call (k := .addPort cell p.name p.source p.direction) (Nat.le_trans h hle)

theorem buildCell (h : library.num ≤ c.count) (name : String) (source : CellSource)
    (ps : List PortSpec) : c.Fills (c.buildCell library name source ps) := by
  have hcell : c.Fills (c.addCell library name source).2 :=
    call (k := .addCell library name source) h
  exact hcell.trans (addPorts (Nat.le_refl _) ps)

theorem count_buildCell (c : Catalog) (library : LibraryId) (name : String) (source : CellSource)
    (ps : List PortSpec) : c.count + 1 ≤ (c.buildCell library name source ps).count := by
  have hports : (c.addCell library name source).2.Fills (c.buildCell library name source ps) :=
    addPorts (Nat.le_refl _) ps
  exact hports.count

theorem groupBus (h : cell.num ≤ c.count) (msbFirst : Bool) (name : String)
    (bits : List (Nat × PortId)) : c.Fills (c.groupBus cell msbFirst name bits).1 := by
  unfold Catalog.groupBus
  split
  · exact refl c
  · dsimp only
    split
    · refine (call (k := .addGroup cell name _) h).trans (foldl _ fun c' b _ => ?_)
      exact call (k := .setShape b.2 _) trivial
    · exact refl c

theorem groupBuses (h : cell.num ≤ c.count) (msbFirst : String → Bool) :
    c.Fills (c.groupBuses cell msbFirst).1 := by
  refine List.foldlRecOn (motive := fun acc : Catalog × List PortId => c.Fills acc.1) _ _
    (refl c) fun acc hacc e _ => ?_
  exact hacc.trans (groupBus (Nat.le_trans h hacc.count) _ e.1 e.2)

theorem bundle (ht : c.Tidy) {name : String} {members : List PortId} {r : Option PortId}
    (e : c.bundle cell name members = .ok (r, c')) : c.Fills c' := by
  rcases bundle_eq_ok e with rfl | ⟨-, -, ⟨y, hy, -⟩, rfl⟩
  · exact refl _
  · have hle : cell.num ≤ c.count :=
      ht.cells.le cell (OrderedMap.mem_keys_iff.2 ⟨y, hy⟩)
    exact call (k := .addGroup cell name _) hle

theorem linkPort (c : Catalog) (id : TimingId) (timing : TimingCell) (p : PortId) :
    c.Fills (c.linkPort id timing p) := by
  unfold Catalog.linkPort
  split
  · exact refl c
  · split
    · exact call (k := .setPortTiming p _) trivial
    · exact refl c

theorem link (c : Catalog) (cell : CellId) (id : TimingId) (library : String)
    (timing : TimingCell) : c.Fills (c.link cell id library timing).1 := by
  have hcell : c.Fills (c.setCellTiming cell ⟨id, timing.name⟩) :=
    call (k := .setCellTiming cell _) trivial
  exact hcell.trans (foldl _ fun c' p _ => linkPort c' id timing p)

theorem recordAll (c : Catalog) (es : List ((TimingId × String) × MasterId)) :
    c.Fills (c.recordAll es) := by
  induction es generalizing c with
  | nil => exact refl c
  | cons e es ih =>
    exact (call (k := .recordTimingMaster e.1.1 e.1.2 e.2) trivial).trans
      (ih (c.recordTimingMaster e.1.1 e.1.2 e.2))

theorem recordBoundaries (c : Catalog) (ts : List (ModuleId × ModBTermId × ModBTerm)) :
    c.Fills (ts.foldl (fun c t => c.recordBoundary t.1 t.2.2.name t.2.1) c.clearBoundaries) := by
  have hclear : c.Fills c.clearBoundaries := call (k := .clearBoundaries) trivial
  exact hclear.trans
    (foldl ts fun c' t _ => call (k := .recordBoundary t.1 t.2.2.name t.2.1) trivial)

end Fills
end Catalog

namespace Network

variable {n n' : Network} {d : Design} {cell : CellId} {library : LibraryId}

theorem groupCell_fills (h : cell.num ≤ n.catalog.count) (name : String) :
    n.catalog.Fills (n.groupCell cell name).catalog := by
  rw [groupCell_catalog]
  exact .groupBuses h _

theorem linkCell?_fills {id : TimingId} (e : n.linkCell? cell id = some n') :
    n.catalog.Fills n'.catalog := by
  obtain ⟨library, x, timing, -, -, -, rfl⟩ := linkCell?_eq_some e
  rw [reportAll_catalog]
  exact .link n.catalog cell id library.name timing

theorem linkFirst_fills (n : Network) (cell : CellId) (ids : List TimingId) :
    n.catalog.Fills (n.linkFirst cell ids).catalog := by
  induction ids with
  | nil => exact .refl _
  | cons id ids ih =>
    unfold Network.linkFirst
    cases e : n.linkCell? cell id with
    | none => exact ih
    | some n' => exact linkCell?_fills e

theorem recordTimingMasters_fills (n : Network) (id : TimingId) :
    n.catalog.Fills (n.recordTimingMasters id).catalog := by
  cases hl : n.timingLibrary? id with
  | none =>
    rw [recordTimingMasters_of_none hl]
    exact .refl _
  | some library =>
    rw [recordTimingMasters_eq hl]
    exact .recordAll ..

theorem relinkTiming_fills (n : Network) (id : TimingId) :
    n.catalog.Fills (n.relinkTiming id).catalog := by
  cases hl : n.timingLibrary? id with
  | none =>
    rw [relinkTiming_of_none hl]
    exact .refl _
  | some library =>
    rw [relinkTiming_catalog hl]
    refine Catalog.Fills.trans ?_ (recordTimingMasters_fills ..)
    refine List.foldlRecOn (motive := fun acc : Network × Bool => n.catalog.Fills acc.1.catalog) _ _
      (.refl _) fun acc hacc cell _ => ?_
    cases e : acc.1.linkCell? cell id with
    | none => exact hacc
    | some n' => exact hacc.trans (linkCell?_fills e)

theorem loadMaster_fills (h : library.num ≤ n.catalog.count) (id : MasterId) (a : Master) :
    n.catalog.Fills (n.loadMaster library id a).catalog := by
  obtain ⟨m, hm, hload⟩ := loadMaster_eq n library id a
  have hbuild : n.catalog.Fills
      (n.catalog.buildCell library a.name (.physical id) (masterPorts n.db id)) := .buildCell h ..
  have hcell : n.catalog.count + 1 ≤
      (n.catalog.buildCell library a.name (.physical id) (masterPorts n.db id)).count :=
    Catalog.Fills.count_buildCell ..
  generalize n.catalog.buildCell library a.name (.physical id) (masterPorts n.db id) = c at *
  have hgroup : c.Fills
      (Network.groupCell { n with catalog := c } ⟨n.catalog.count + 1⟩ a.name).catalog :=
    groupCell_fills (n := { n with catalog := c }) hcell a.name
  rw [recordMaster_eq] at hm
  have hrecord : (Network.groupCell { n with catalog := c } ⟨n.catalog.count + 1⟩
      a.name).catalog.Fills m.catalog := by
    rw [hm]
    exact .recordAll ..
  rw [hload]
  exact ((hbuild.trans hgroup).trans hrecord).trans (linkFirst_fills ..)

theorem loadMasters_fills (h : library.num ≤ n.catalog.count) (es : List (MasterId × Master)) :
    n.catalog.Fills (es.foldl (fun n e => n.loadMaster library e.1 e.2) n).catalog := by
  refine List.foldlRecOn (motive := fun m : Network => n.catalog.Fills m.catalog) _ _ (.refl _)
    fun m hm e _ => ?_
  exact hm.trans (loadMaster_fills (Nat.le_trans h hm.count) e.1 e.2)

theorem loadLibrary_fills {id : LibId} {r : LibraryId} (e : n.loadLibrary id = .ok (r, n')) :
    (n.catalog.without (.physical id)).Fills n'.catalog := by
  obtain ⟨lib, m, -, rfl, hm, rfl⟩ := loadLibrary_eq_ok e
  have hlibrary : (n.catalog.without (.physical id)).Fills
      ((n.catalog.without (.physical id)).addLibrary lib.name (.physical id)).2 :=
    .call (k := .addLibrary lib.name (.physical id)) trivial
  exact hlibrary.trans (hm ▸ loadMasters_fills (n := { n with
    catalog := ((n.catalog.without (.physical id)).addLibrary lib.name (.physical id)).2 })
      (Nat.le_refl _) (n.db.mastersOf id))

theorem loadTopCell_fills (n : Network) (d : Design) :
    (n.catalog.without .design).Fills (n.loadTopCell d).catalog := by
  rw [loadTopCell_eq]
  have hlibrary : (n.catalog.without .design).Fills (withTopLibrary n.catalog d) :=
    .call (k := .addLibrary d.name .design) trivial
  have hcell : (withTopLibrary n.catalog d).Fills ((withTopLibrary n.catalog d).buildCell
      ⟨(n.catalog.without .design).count + 1⟩ d.name .design (topPorts d)) :=
    .buildCell (Nat.le_refl _) ..
  have hcount := Catalog.Fills.count_buildCell (withTopLibrary n.catalog d)
    ⟨(n.catalog.without .design).count + 1⟩ d.name .design (topPorts d)
  generalize Catalog.buildCell _ _ _ _ _ = c at hcell hcount ⊢
  exact (hlibrary.trans hcell).trans
    (groupCell_fills (n := { n with catalog := c }) hcount d.name)

theorem loadModuleCells_fills (e : n.loadModuleCells d = .ok n') :
    n.catalog.Fills n'.catalog := by
  obtain ⟨⟨c', added⟩, hcells, e⟩ := bind_eq_ok.1 e
  cases pure_eq_ok.1 e
  have hlibrary : n.catalog.Fills (n.catalog.addLibrary n.settings.moduleLibrary .modules).2 :=
    .call (k := .addLibrary n.settings.moduleLibrary .modules) trivial
  -- The cells that have been added so far have been numbered.
  have hbuilt : (n.catalog.addLibrary n.settings.moduleLibrary .modules).2.Fills c' ∧
      ∀ e ∈ added, e.1.num ≤ c'.count := by
    refine foldlM_ok_induct (motive := fun acc : Catalog × List (CellId × String) =>
      (n.catalog.addLibrary n.settings.moduleLibrary .modules).2.Fills acc.1 ∧
        ∀ e ∈ acc.2, e.1.num ≤ acc.1.count) (fun acc e acc' hacc hstep => ?_)
      ⟨.refl _, fun e he => absurd he List.not_mem_nil⟩ hcells
    dsimp only at hstep
    split at hstep
    · cases pure_eq_ok.1 hstep
      exact hacc
    · obtain ⟨m, -, hstep⟩ := bind_eq_ok.1 hstep
      cases pure_eq_ok.1 hstep
      simp only [addModuleCell_eq]
      have hcell : acc.1.Fills (acc.1.buildCell ⟨n.catalog.count + 1⟩ m.name
          (.module e.2.master) (modulePorts d e.2.master)) := .buildCell hacc.1.count ..
      refine ⟨hacc.1.trans hcell, fun e' he' => ?_⟩
      rcases List.mem_append.1 he' with he' | he'
      · exact Nat.le_trans (hacc.2 e' he') hcell.count
      · cases List.mem_singleton.1 he'
        exact Catalog.Fills.count_buildCell ..
  refine (hlibrary.trans hbuilt.1).trans ?_
  refine List.foldlRecOn (motive := fun m : Network => c'.Fills m.catalog) _ _ (.refl _)
    fun m hm e he => ?_
  exact hm.trans (groupCell_fills (Nat.le_trans (hbuilt.2 e he) hm.count) e.2)

theorem finishDesign_fills (n : Network) (d : Design) :
    n.catalog.Fills (n.finishDesign d).catalog :=
  .recordBoundaries n.catalog _

theorem setTopPort_fills (ht : n.catalog.Tidy) (name : String) (direction : PortDirection) :
    n.catalog.Fills (n.setTopPort name direction).catalog := by
  unfold Network.setTopPort
  split
  · exact .refl _
  · next top htop =>
    split
    · next port _ => exact .call (k := .setDirection port direction) trivial
    · obtain ⟨y, hy, -⟩ := OrderedMap.exists_of_firstKey? ht.cells.nodup htop
      have hle : top.num ≤ n.catalog.count :=
        ht.cells.le top (OrderedMap.mem_keys_iff.2 ⟨y, hy⟩)
      exact .call (k := .addPort top name .design direction) hle

theorem Change.fills (s : n.Change n') (ht : n.catalog.Tidy) : n.catalog.Fills n'.catalog := by
  cases s with
  | topTerminal hd _ _ => exact setTopPort_fills (n := n.withDesign _) ht ..
  | destroyModBTerm hd e => exact .call (k := .forgetBoundary _) trivial
  | bundle e => exact .bundle ht e
  | _ => exact .refl _

theorem Changes.fills (hrun : n.Changes n') (hp : n.catalog.Placed) :
    n.catalog.Fills n'.catalog := by
  induction hrun with
  | refl => exact .refl _
  | tail _ s ih => exact ih.trans (s.fills (ih.retains hp).1.tidy)

end Network
end DesignView
