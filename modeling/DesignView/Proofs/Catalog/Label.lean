import DesignView.Catalog.Group
import DesignView.Catalog.Link
import DesignView.Proofs.Container.OrderedMap
import DesignView.Proofs.Except

/-!
Labels: what a library, a cell or a port of the catalog stands for and where it belongs. Ports are
added to cells that are there, and grouping and linking change no label at all; only the removal of
a library takes labels away.
-/

namespace DesignView

structure CellLabel where
  library : LibraryId
  source : CellSource

structure PortLabel where
  name : String
  cell : CellId
  source : PortSource

def Cell.label (x : Cell) : CellLabel := ⟨x.library, x.source⟩

def Port.label (p : Port) : PortLabel := ⟨p.name, p.cell, p.source⟩

namespace Catalog

def librarySource? (c : Catalog) (id : LibraryId) : Option LibrarySource :=
  (c.libraries.find? id).map (·.source)

def cellLabel? (c : Catalog) (x : CellId) : Option CellLabel := (c.cells.find? x).map Cell.label

def portLabel? (c : Catalog) (p : PortId) : Option PortLabel := (c.ports.find? p).map Port.label

/-- Everything is kept under one number of its own, and the next number is free. -/
structure Tidy (c : Catalog) : Prop where
  libraries : c.libraries.UpTo LibraryId.num c.count
  cells : c.cells.UpTo CellId.num c.count
  ports : c.ports.UpTo PortId.num c.count
  boundaryPorts : c.boundaryPorts.keys.Nodup

theorem tidy_empty : ({} : Catalog).Tidy :=
  ⟨.empty _ _, .empty _ _, .empty _ _, List.nodup_nil⟩

variable {c c' c'' : Catalog} {newCell : CellLabel → Prop} {newPort : PortLabel → Prop}

theorem cell_eq_ok {x : CellId} {y : Cell} : c.cell x = .ok y ↔ c.cells.find? x = some y := by
  unfold Catalog.cell
  cases c.cells.find? x <;> simp

theorem bundle_eq_ok {cell : CellId} {name : String} {members : List PortId} {r : Option PortId}
    (e : c.bundle cell name members = .ok (r, c')) : c' = c ∨
      members ≠ [] ∧ c.portNamed? cell name = none ∧
        (∃ y, c.cells.find? cell = some y ∧ ∀ p ∈ members, p ∈ y.ports) ∧
        c' = (c.addGroup cell name (.bundle members)).2 := by
  unfold Catalog.bundle at e
  split at e
  · cases pure_eq_ok.1 e
    exact .inl rfl
  · next hnew =>
    obtain ⟨hne, hfree⟩ := not_or.1 hnew
    obtain ⟨y, hy, e⟩ := bind_eq_ok.1 e
    split at e
    · next hall =>
      cases pure_eq_ok.1 e
      exact .inr ⟨hne, by simpa using hfree, ⟨y, cell_eq_ok.1 hy, fun p hp =>
        of_decide_eq_true (List.all_eq_true.1 hall p hp)⟩, rfl⟩
    · cases pure_eq_ok.1 e
      exact .inl rfl

theorem Tidy.librarySource?_next (h : c.Tidy) : c.librarySource? ⟨c.count + 1⟩ = none := by
  rw [librarySource?, h.libraries.find?_fresh rfl, Option.map_none]

theorem Tidy.cellLabel?_next (h : c.Tidy) : c.cellLabel? ⟨c.count + 1⟩ = none := by
  rw [cellLabel?, h.cells.find?_fresh rfl, Option.map_none]

theorem Tidy.portLabel?_next (h : c.Tidy) : c.portLabel? ⟨c.count + 1⟩ = none := by
  rw [portLabel?, h.ports.find?_fresh rfl, Option.map_none]

/-- The second catalog has the libraries of the first one, all its cells and ports, and besides them
only cells and ports with labels that `newCell` and `newPort` allow. -/
structure Gains (c : Catalog) (newCell : CellLabel → Prop) (newPort : PortLabel → Prop)
    (c' : Catalog) : Prop where
  tidy : c'.Tidy
  libraries : c'.libraries = c.libraries
  keptCells : ∀ ⦃x l⦄, c.cellLabel? x = some l → c'.cellLabel? x = some l
  addedCells : ∀ ⦃x l⦄, c'.cellLabel? x = some l → c.cellLabel? x = some l ∨ newCell l
  keptPorts : ∀ ⦃p l⦄, c.portLabel? p = some l → c'.portLabel? p = some l
  addedPorts : ∀ ⦃p l⦄, c'.portLabel? p = some l → c.portLabel? p = some l ∨ newPort l
  boundaryPorts : ∀ b, c'.boundaryPorts.find? b = c.boundaryPorts.find? b ∨ ∃ p l,
    c'.boundaryPorts.find? b = some p ∧ c'.portLabel? p = some l ∧
      l.source = .moduleBoundary b ∧ newPort l

namespace Gains

theorem of_same (ht : c'.Tidy) (hlibraries : c'.libraries = c.libraries)
    (hcells : ∀ x, c'.cellLabel? x = c.cellLabel? x)
    (hports : ∀ p, c'.portLabel? p = c.portLabel? p)
    (hboundary : c'.boundaryPorts = c.boundaryPorts) : c.Gains newCell newPort c' where
  tidy := ht
  libraries := hlibraries
  keptCells _ _ hx := (hcells _).trans hx
  addedCells _ _ hx := .inl ((hcells _).symm.trans hx)
  keptPorts _ _ hp := (hports _).trans hp
  addedPorts _ _ hp := .inl ((hports _).symm.trans hp)
  boundaryPorts b := .inl (by rw [hboundary])

theorem refl (h : c.Tidy) : c.Gains newCell newPort c :=
  of_same h rfl (fun _ => rfl) (fun _ => rfl) rfl

theorem trans (h : c.Gains newCell newPort c') (h' : c'.Gains newCell newPort c'') :
    c.Gains newCell newPort c'' where
  tidy := h'.tidy
  libraries := h'.libraries.trans h.libraries
  keptCells _ _ hx := h'.keptCells (h.keptCells hx)
  addedCells x l hx := by
    rcases h'.addedCells hx with hx | hnew
    · exact h.addedCells hx
    · exact .inr hnew
  keptPorts _ _ hp := h'.keptPorts (h.keptPorts hp)
  addedPorts p l hp := by
    rcases h'.addedPorts hp with hp | hnew
    · exact h.addedPorts hp
    · exact .inr hnew
  boundaryPorts b := by
    rcases h'.boundaryPorts b with hb' | hb'
    · rcases h.boundaryPorts b with hb | ⟨p, l, hb, hp, hsource, hnew⟩
      · exact .inl (hb'.trans hb)
      · exact .inr ⟨p, l, hb'.trans hb, h'.keptPorts hp, hsource, hnew⟩
    · exact .inr hb'

theorem mono {wideCell : CellLabel → Prop} {widePort : PortLabel → Prop}
    (h : c.Gains newCell newPort c') (hcell : ∀ l, newCell l → wideCell l)
    (hport : ∀ l, newPort l → widePort l) : c.Gains wideCell widePort c' where
  tidy := h.tidy
  libraries := h.libraries
  keptCells := h.keptCells
  addedCells x l hx := (h.addedCells hx).imp_right (hcell l)
  keptPorts := h.keptPorts
  addedPorts p l hp := (h.addedPorts hp).imp_right (hport l)
  boundaryPorts b := by
    refine (h.boundaryPorts b).imp_right ?_
    rintro ⟨p, l, hb, hp, hsource, hnew⟩
    exact ⟨p, l, hb, hp, hsource, hport l hnew⟩

theorem foldl {ε : Type} {step : Catalog → ε → Catalog} {es : List ε}
    (h : c.Gains newCell newPort c')
    (hstep : ∀ (c : Catalog) (e : ε), c.Tidy → c.Gains newCell newPort (step c e)) :
    c.Gains newCell newPort (es.foldl step c') := by
  refine List.foldlRecOn (motive := fun c' => c.Gains newCell newPort c') es step h ?_
  intro c' hc' e _
  exact hc'.trans (hstep c' e hc'.tidy)

end Gains

theorem cellLabel?_modify (c : Catalog) (cell : CellId) {f : Cell → Cell}
    (hf : ∀ x, (f x).label = x.label) (x : CellId) :
    ((c.cells.modify cell f).find? x).map Cell.label = c.cellLabel? x :=
  OrderedMap.map_find?_modify hf ..

theorem cellLabel?_addPort (c : Catalog) (cell : CellId) (name : String) (source : PortSource)
    (direction : PortDirection) (x : CellId) :
    (c.addPort cell name source direction).2.cellLabel? x = c.cellLabel? x :=
  cellLabel?_modify c cell (f := fun x => { x with ports := x.ports ++ [⟨c.count + 1⟩] })
    (fun _ => rfl) x

theorem portLabel?_addPort (c : Catalog) (cell : CellId) (name : String) (source : PortSource)
    (direction : PortDirection) (p : PortId) :
    (c.addPort cell name source direction).2.portLabel? p =
      if p = ⟨c.count + 1⟩ then some ⟨name, cell, source⟩ else c.portLabel? p :=
  OrderedMap.map_find?_insert ..

theorem find?_addPort (c : Catalog) (cell : CellId) (name : String) (source : PortSource)
    (direction : PortDirection) (p : PortId) :
    (c.addPort cell name source direction).2.ports.find? p =
      if p = ⟨c.count + 1⟩ then some { name, cell, source, direction } else c.ports.find? p :=
  OrderedMap.find?_insert ..

theorem find?_setDirection (c : Catalog) (t : PortId) (d : PortDirection) (p : PortId) :
    (c.setDirection t d).ports.find? p = if p = t then
      (c.ports.find? p).map fun q => { q with direction := d } else c.ports.find? p :=
  OrderedMap.find?_modify ..

theorem boundaryPorts_addPort (c : Catalog) (cell : CellId) (name : String) (source : PortSource)
    (direction : PortDirection) (b : ModBTermId) :
    (c.addPort cell name source direction).2.boundaryPorts.find? b =
      if source = .moduleBoundary b then some ⟨c.count + 1⟩ else c.boundaryPorts.find? b := by
  cases source with
  | moduleBoundary b' =>
    have hfind : (c.addPort cell name (.moduleBoundary b') direction).2.boundaryPorts.find? b =
        if b = b' then some ⟨c.count + 1⟩ else c.boundaryPorts.find? b :=
      OrderedMap.find?_insert ..
    simp only [hfind, PortSource.moduleBoundary.injEq, eq_comm]
  | physical | design | group => rfl

theorem Tidy.modifyCells (h : c.Tidy) (cell : CellId) (f : Cell → Cell) :
    (c.cells.modify cell f).UpTo CellId.num (c.count + 1) :=
  (h.cells.mono (Nat.le_succ _)).modify cell f

theorem Tidy.addPort (h : c.Tidy) (cell : CellId) (name : String) (source : PortSource)
    (direction : PortDirection) :
    c.Gains newCell (· = ⟨name, cell, source⟩) (c.addPort cell name source direction).2 where
  tidy := by
    refine ⟨h.libraries.mono (Nat.le_succ _), h.modifyCells cell fun x =>
      { x with ports := x.ports ++ [⟨c.count + 1⟩] }, h.ports.insert rfl _, ?_⟩
    cases source with
    | moduleBoundary b => exact OrderedMap.keys_nodup_insert h.boundaryPorts _ _
    | physical | design | group => exact h.boundaryPorts
  libraries := rfl
  keptCells x l hx := (cellLabel?_addPort ..).trans hx
  addedCells x l hx := .inl ((cellLabel?_addPort ..).symm.trans hx)
  keptPorts p l hp := by
    rw [portLabel?_addPort]
    split
    · next e => cases h.portLabel?_next.symm.trans (e ▸ hp)
    · exact hp
  addedPorts p l hp := by
    rw [portLabel?_addPort] at hp
    split at hp
    · exact .inr (Option.some.inj hp).symm
    · exact .inl hp
  boundaryPorts b := by
    rw [boundaryPorts_addPort]
    split
    · next e =>
      refine .inr ⟨_, ⟨name, cell, source⟩, rfl, ?_, e, rfl⟩
      rw [portLabel?_addPort, if_pos rfl]
    · exact .inl rfl

theorem Tidy.addGroup (h : c.Tidy) (cell : CellId) (name : String) (shape : PortShape) :
    c.Gains newCell (·.source = .group) (c.addGroup cell name shape).2 := by
  have hlabel (p : PortId) : (c.addGroup cell name shape).2.portLabel? p =
      if p = ⟨c.count + 1⟩ then some ⟨name, cell, .group⟩ else c.portLabel? p :=
    OrderedMap.map_find?_insert ..
  have hcells (x : CellId) : (c.addGroup cell name shape).2.cellLabel? x = c.cellLabel? x :=
    cellLabel?_modify c cell (f := fun x =>
      { x with ports := regroup x.ports shape.members ⟨c.count + 1⟩ }) (fun _ => rfl) x
  refine ⟨?_, rfl, fun x _ => (hcells x).trans, fun x _ hx => .inl ((hcells x).symm.trans hx),
    fun p l hp => ?_, fun p l hp => ?_, fun b => .inl rfl⟩
  · exact ⟨h.libraries.mono (Nat.le_succ _), h.modifyCells cell fun x =>
      { x with ports := regroup x.ports shape.members ⟨c.count + 1⟩ }, h.ports.insert rfl _,
      h.boundaryPorts⟩
  · rw [hlabel]
    split
    · next e => cases h.portLabel?_next.symm.trans (e ▸ hp)
    · exact hp
  · rw [hlabel] at hp
    split at hp
    · exact .inr (Option.some.inj hp ▸ rfl)
    · exact .inl hp

namespace Tidy

theorem modifyPort (h : c.Tidy) (port : PortId) {f : Port → Port}
    (hf : ∀ p, (f p).label = p.label) :
    c.Gains newCell newPort { c with ports := c.ports.modify port f } :=
  .of_same ⟨h.libraries, h.cells, h.ports.modify _ _, h.boundaryPorts⟩ rfl (fun _ => rfl)
    (fun _ => OrderedMap.map_find?_modify hf ..) rfl

theorem setShape (h : c.Tidy) (port : PortId) (shape : PortShape) :
    c.Gains newCell newPort (c.setShape port shape) := h.modifyPort port fun _ => rfl

theorem setDirection (h : c.Tidy) (port : PortId) (direction : PortDirection) :
    c.Gains newCell newPort (c.setDirection port direction) := h.modifyPort port fun _ => rfl

theorem setPortTiming (h : c.Tidy) (port : PortId) (ref : TimingPortRef) :
    c.Gains newCell newPort (c.setPortTiming port ref) := h.modifyPort port fun _ => rfl

theorem setCellTiming (h : c.Tidy) (cell : CellId) (ref : TimingCellRef) :
    c.Gains newCell newPort (c.setCellTiming cell ref) :=
  .of_same ⟨h.libraries, h.cells.modify cell fun x => { x with timing := some ref }, h.ports,
    h.boundaryPorts⟩ rfl (cellLabel?_modify c cell fun _ => rfl) (fun _ => rfl) rfl

theorem recordTimingMaster (h : c.Tidy) (library : TimingId) (cell : String) (master : MasterId) :
    c.Gains newCell newPort (c.recordTimingMaster library cell master) :=
  .of_same ⟨h.libraries, h.cells, h.ports, h.boundaryPorts⟩ rfl (fun _ => rfl) (fun _ => rfl) rfl

theorem setBoundaries (h : c.Tidy) (m : OrderedMap (ModuleId × String) ModBTermId) :
    c.Gains newCell newPort { c with boundaries := m } :=
  .of_same ⟨h.libraries, h.cells, h.ports, h.boundaryPorts⟩ rfl (fun _ => rfl) (fun _ => rfl) rfl

theorem groupBus (h : c.Tidy) (cell : CellId) (msbFirst : Bool) (name : String)
    (bits : List (Nat × PortId)) :
    c.Gains newCell (·.source = .group) (c.groupBus cell msbFirst name bits).1 := by
  unfold Catalog.groupBus
  split
  · exact .refl h
  · dsimp only
    split
    · exact .foldl (h.addGroup cell name _) fun c b hc => hc.setShape b.2 _
    · exact .refl h

theorem groupBuses (h : c.Tidy) (cell : CellId) (msbFirst : String → Bool) :
    c.Gains newCell (·.source = .group) (c.groupBuses cell msbFirst).1 := by
  refine List.foldlRecOn (motive := fun acc : Catalog × List PortId =>
    c.Gains newCell (·.source = .group) acc.1) _ _ (.refl h) fun acc hacc e _ => ?_
  exact hacc.trans (hacc.tidy.groupBus cell _ e.1 e.2)

theorem bundle (h : c.Tidy) {cell : CellId} {name : String} {members : List PortId}
    {r : Option PortId} (e : c.bundle cell name members = .ok (r, c')) :
    c.Gains newCell (·.source = .group) c' := by
  rcases bundle_eq_ok e with rfl | ⟨-, -, -, rfl⟩
  · exact .refl h
  · exact h.addGroup ..

theorem linkPort (h : c.Tidy) (library : TimingId) (cell : TimingCell) (id : PortId) :
    c.Gains newCell newPort (c.linkPort library cell id) := by
  unfold Catalog.linkPort
  split
  · exact .refl h
  · split
    · exact h.setPortTiming id _
    · exact .refl h

theorem link (h : c.Tidy) (cell : CellId) (id : TimingId) (library : String) (x : TimingCell) :
    c.Gains newCell newPort (c.link cell id library x).1 := by
  exact .foldl (h.setCellTiming cell ⟨id, x.name⟩) fun c p hc => hc.linkPort id x p

end Tidy

theorem Tidy.addPorts {ε : Type} (h : c.Tidy) (cell : CellId) (name : ε → String)
    (source : ε → PortSource) (direction : ε → PortDirection) (es : List ε)
    (hc : c' = es.foldl (fun c e => (c.addPort cell (name e) (source e) (direction e)).2) c) :
    c.Gains (fun _ => False) (fun l => ∃ e ∈ es, l = ⟨name e, cell, source e⟩) c' ∧
      ∀ e ∈ es, (∃ p, c'.portLabel? p = some ⟨name e, cell, source e⟩) ∧
        ∀ b, source e = .moduleBoundary b → ∃ p, c'.boundaryPorts.find? b = some p ∧
          ∃ e' ∈ es, source e' = .moduleBoundary b ∧
            c'.portLabel? p = some ⟨name e', cell, source e'⟩ := by
  induction es generalizing c with
  | nil => exact ⟨hc ▸ .refl h, fun e he => by cases he⟩
  | cons e es ih =>
    have hone : c.Gains (fun _ => False) (· = ⟨name e, cell, source e⟩)
        (c.addPort cell (name e) (source e) (direction e)).2 := h.addPort ..
    obtain ⟨hrest, hes⟩ := ih hone.tidy hc
    have hgains : c.Gains (fun _ => False)
        (fun l => ∃ e' ∈ e :: es, l = ⟨name e', cell, source e'⟩) c' := by
      refine (hone.mono (fun _ => id) ?_).trans (hrest.mono (fun _ => id) ?_)
      · rintro l rfl
        exact ⟨e, List.mem_cons_self, rfl⟩
      · rintro l ⟨e', he', rfl⟩
        exact ⟨e', List.mem_cons_of_mem e he', rfl⟩
    have hlabel : c'.portLabel? ⟨c.count + 1⟩ = some ⟨name e, cell, source e⟩ := by
      refine hrest.keptPorts ?_
      rw [portLabel?_addPort, if_pos rfl]
    refine ⟨hgains, fun e₁ he₁ => ?_⟩
    rcases List.mem_cons.1 he₁ with rfl | he₁
    · refine ⟨⟨_, hlabel⟩, fun b hb => ?_⟩
      -- A later port for the same terminal takes the place of this one.
      rcases hrest.boundaryPorts b with hsame | ⟨p, l, hp, hl, hsource, e', he', rfl⟩
      · rw [boundaryPorts_addPort, if_pos hb] at hsame
        exact ⟨_, hsame, e₁, List.mem_cons_self, hb, hlabel⟩
      · exact ⟨p, hp, e', List.mem_cons_of_mem e₁ he', hsource, hl⟩
    · obtain ⟨hthere, hentry⟩ := hes e₁ he₁
      refine ⟨hthere, fun b hb => ?_⟩
      obtain ⟨p, hp, e', he', hsource, hl⟩ := hentry b hb
      exact ⟨p, hp, e', List.mem_cons_of_mem e he', hsource, hl⟩

theorem librarySource?_addLibrary (c : Catalog) (name : String) (s : LibrarySource)
    (id : LibraryId) : (c.addLibrary name s).2.librarySource? id =
      if id = ⟨c.count + 1⟩ then some s else c.librarySource? id :=
  OrderedMap.map_find?_insert ..

theorem Tidy.librarySource?_addLibrary (h : c.Tidy) {id : LibraryId} {s : LibrarySource}
    (hs : c.librarySource? id = some s) (name : String) (s' : LibrarySource) :
    (c.addLibrary name s').2.librarySource? id = some s := by
  rw [Catalog.librarySource?_addLibrary]
  split
  · next e => cases h.librarySource?_next.symm.trans (e ▸ hs)
  · exact hs

theorem Tidy.addLibrary (h : c.Tidy) (name : String) (s : LibrarySource) :
    (c.addLibrary name s).2.Tidy :=
  ⟨h.libraries.insert rfl _, h.cells.mono (Nat.le_succ _), h.ports.mono (Nat.le_succ _),
    h.boundaryPorts⟩

theorem cellLabel?_addCell (c : Catalog) (library : LibraryId) (name : String)
    (source : CellSource) (x : CellId) : (c.addCell library name source).2.cellLabel? x =
      if x = ⟨c.count + 1⟩ then some ⟨library, source⟩ else c.cellLabel? x :=
  OrderedMap.map_find?_insert ..

theorem Tidy.addCell (h : c.Tidy) (library : LibraryId) (name : String) (source : CellSource) :
    c.Gains (· = ⟨library, source⟩) newPort (c.addCell library name source).2 where
  tidy := ⟨h.libraries.mono (Nat.le_succ _), h.cells.insert rfl _, h.ports.mono (Nat.le_succ _),
    h.boundaryPorts⟩
  libraries := rfl
  keptCells x l hx := by
    rw [cellLabel?_addCell]
    split
    · next e => cases h.cellLabel?_next.symm.trans (e ▸ hx)
    · exact hx
  addedCells x l hx := by
    rw [cellLabel?_addCell] at hx
    split at hx
    · exact .inr (Option.some.inj hx).symm
    · exact .inl hx
  keptPorts _ _ hp := hp
  addedPorts _ _ hp := .inl hp
  boundaryPorts _ := .inl rfl

theorem Tidy.forgetBoundary (h : c.Tidy) (id : ModBTermId) : (c.forgetBoundary id).Tidy :=
  ⟨h.libraries, h.cells, h.ports, OrderedMap.keys_nodup_erase h.boundaryPorts id⟩

def within (c : Catalog) (id : LibraryId) (x : CellId) : Bool :=
  (c.cellLabel? x).any fun l => l.library = id

theorem any_cells_find? (c : Catalog) (id : LibraryId) (x : CellId) :
    ((c.cells.find? x).any fun y => y.library = id) = c.within id x := by
  rw [within, cellLabel?, Option.any_map]
  rfl

theorem Tidy.removeLibrary (h : c.Tidy) (id : LibraryId) : (c.removeLibrary id).Tidy := by
  refine ⟨h.libraries.erase id, h.cells.filter fun _ x => x.library ≠ id, ?_,
    OrderedMap.keys_nodup_filter h.boundaryPorts _⟩
  exact h.ports.filter fun _ p => !(c.cells.find? p.cell).any fun y => y.library = id

theorem librarySource?_removeLibrary (c : Catalog) (id a : LibraryId) :
    (c.removeLibrary id).librarySource? a = if a = id then none else c.librarySource? a := by
  refine (congrArg (Option.map _) (OrderedMap.find?_erase ..)).trans ?_
  split <;> rfl

theorem Tidy.cellLabel?_removeLibrary (h : c.Tidy) {id : LibraryId} {x : CellId} {l : CellLabel} :
    (c.removeLibrary id).cellLabel? x = some l ↔ c.cellLabel? x = some l ∧ l.library ≠ id := by
  have hfind := OrderedMap.find?_filter h.cells.nodup (fun _ y => y.library ≠ id) x
  simp only [cellLabel?, Catalog.removeLibrary, hfind, Option.map_eq_some_iff,
    Option.filter_eq_some_iff]
  constructor
  · rintro ⟨y, ⟨hy, hne⟩, rfl⟩
    exact ⟨⟨y, hy, rfl⟩, of_decide_eq_true hne⟩
  · rintro ⟨⟨y, hy, rfl⟩, hne⟩
    exact ⟨y, ⟨hy, decide_eq_true hne⟩, rfl⟩

theorem Tidy.portLabel?_removeLibrary (h : c.Tidy) {id : LibraryId} {p : PortId} {l : PortLabel} :
    (c.removeLibrary id).portLabel? p = some l ↔
      c.portLabel? p = some l ∧ c.within id l.cell = false := by
  have hfind := OrderedMap.find?_filter h.ports.nodup (fun _ q => !c.within id q.cell) p
  simp only [portLabel?, Catalog.removeLibrary, any_cells_find?, hfind, Option.map_eq_some_iff,
    Option.filter_eq_some_iff]
  constructor
  · rintro ⟨q, ⟨hq, hne⟩, rfl⟩
    exact ⟨⟨q, hq, rfl⟩, Bool.not_eq_true' _ ▸ hne⟩
  · rintro ⟨⟨q, hq, rfl⟩, hne⟩
    exact ⟨q, ⟨hq, Bool.not_eq_true' _ ▸ hne⟩, rfl⟩

theorem Tidy.boundaryPorts_removeLibrary (h : c.Tidy) {id : LibraryId} {b : ModBTermId}
    {p : PortId} {l : PortLabel} (hb : c.boundaryPorts.find? b = some p)
    (hp : c.portLabel? p = some l) (hl : c.within id l.cell = false) :
    (c.removeLibrary id).boundaryPorts.find? b = some p := by
  obtain ⟨q, hq, rfl⟩ := Option.map_eq_some_iff.1 hp
  refine (OrderedMap.find?_filter h.boundaryPorts _ b).trans ?_
  rw [Option.filter_eq_some_iff]
  refine ⟨hb, ?_⟩
  have hcell : c.within id q.cell = false := hl
  simp [hq, any_cells_find?, hcell]

end Catalog
end DesignView
