import DesignView.Proofs.Catalog.Grouping

/-!
Intact catalogs: every port is in a cell that is there, under a name that no other port of the cell
has, and whatever a cell, a group, a bit or a table refers to is there and belongs to the same cell.
Adding, grouping, linking and removing keep a catalog intact.
-/

namespace DesignView

/-- The ports that a shape refers to: the members of a group, or the bus of a bit. -/
def PortShape.refs : PortShape → List PortId
  | .bus _ _ members | .bundle members => members
  | .busBit parent _ => [parent]
  | .scalar => []

theorem PortShape.mem_members_of_refs {s : PortShape} {p : PortId} (hs : ∀ bus i, s ≠ .busBit bus i)
    (h : p ∈ s.refs) : p ∈ s.members := by
  cases s with
  | bus | bundle => exact h
  | scalar => cases h
  | busBit bus i => exact absurd rfl (hs bus i)

theorem PortShape.mem_refs_of_members {s : PortShape} {p : PortId} (h : p ∈ s.members) :
    p ∈ s.refs := by
  cases s with
  | bus | bundle => exact h
  | scalar | busBit => cases h

structure PortSpec where
  name : String
  source : PortSource
  direction : PortDirection

namespace Catalog

def addPorts (c : Catalog) (cell : CellId) (ps : List PortSpec) : Catalog :=
  ps.foldl (fun c p => (c.addPort cell p.name p.source p.direction).2) c

def buildCell (c : Catalog) (library : LibraryId) (name : String) (source : CellSource)
    (ps : List PortSpec) : Catalog :=
  (c.addCell library name source).2.addPorts ⟨c.count + 1⟩ ps

def Owns (c : Catalog) (x : CellId) (p : PortId) : Prop := ∃ l, c.portLabel? p = some l ∧ l.cell = x

def recordAll (c : Catalog) (es : List ((TimingId × String) × MasterId)) : Catalog :=
  { c with timingMasters := es.foldl (fun m e => m.insert e.1 e.2) c.timingMasters }

structure Intact (c : Catalog) : Prop where
  tidy : c.Tidy
  owned : ∀ ⦃p l⦄, c.portLabel? p = some l → ∃ k, c.cellLabel? l.cell = some k
  names : ∀ ⦃p q l l'⦄, c.portLabel? p = some l → c.portLabel? q = some l' → l.cell = l'.cell →
    l.name = l'.name → p = q
  top : ∀ ⦃x y p⦄, c.cells.find? x = some y → p ∈ y.ports → c.Owns x p
  refs : ∀ ⦃p q r⦄, c.ports.find? p = some q → r ∈ q.shape.refs → c.Owns q.cell r
  borders : ∀ ⦃p l b⦄, c.portLabel? p = some l → l.source = .moduleBoundary b →
    ∃ k m, c.cellLabel? l.cell = some k ∧ k.source = .module m
  boundaryPorts : ∀ ⦃b p⦄, c.boundaryPorts.find? b = some p →
    ∃ l, c.portLabel? p = some l ∧ l.source = .moduleBoundary b
  timingMasters : ∀ ⦃k m⦄, c.timingMasters.find? k = some m →
    ∃ x l, c.cellLabel? x = some l ∧ l.source = .physical m
  timingKeys : c.timingMasters.keys.Nodup

theorem intact_empty : ({} : Catalog).Intact :=
  ⟨tidy_empty, fun _ _ h => (by cases h), fun _ _ _ _ h => (by cases h),
    fun _ _ _ h => (by cases h), fun _ _ _ h => (by cases h), fun _ _ _ h => (by cases h),
    fun _ _ h => (by cases h),
    fun _ _ h => (by cases h), List.nodup_nil⟩

variable {c c' : Catalog} {cell x : CellId} {name : String} {p : PortId}

theorem Owns.mono (hkept : ∀ ⦃p l⦄, c.portLabel? p = some l → c'.portLabel? p = some l)
    (h : c.Owns x p) : c'.Owns x p := by
  obtain ⟨l, hl, hx⟩ := h
  exact ⟨l, hkept hl, hx⟩

theorem portLabel?_of_find? {q : Port} (h : c.ports.find? p = some q) :
    c.portLabel? p = some q.label := congrArg (Option.map Port.label) h

theorem cellLabel?_of_find? {y : Cell} (h : c.cells.find? x = some y) :
    c.cellLabel? x = some y.label := congrArg (Option.map Cell.label) h

theorem Tidy.tidy_addPort (h : c.Tidy) (cell : CellId) (name : String) (source : PortSource)
    (direction : PortDirection) : (c.addPort cell name source direction).2.Tidy := by
  have g : c.Gains (fun _ => False) (· = ⟨name, cell, source⟩)
      (c.addPort cell name source direction).2 := h.addPort cell name source direction
  exact g.tidy

theorem Tidy.tidy_addCell (h : c.Tidy) (library : LibraryId) (name : String)
    (source : CellSource) : (c.addCell library name source).2.Tidy := by
  have g : c.Gains (· = ⟨library, source⟩) (fun _ => False) (c.addCell library name source).2 :=
    h.addCell library name source
  exact g.tidy

theorem Tidy.addPortSpecs (h : c.Tidy) (cell : CellId) (ps : List PortSpec) :
    (c.addPorts cell ps).Tidy :=
  List.foldlRecOn (motive := Tidy) ps _ h fun _ hc p _ =>
    hc.tidy_addPort cell p.name p.source p.direction

theorem Tidy.buildCell (h : c.Tidy) (library : LibraryId) (name : String) (source : CellSource)
    (ps : List PortSpec) : (c.buildCell library name source ps).Tidy :=
  (h.tidy_addCell library name source).addPortSpecs _ ps

theorem Tidy.cells_removeLibrary (h : c.Tidy) (id : LibraryId) (x : CellId) :
    (c.removeLibrary id).cells.find? x = (c.cells.find? x).filter fun y => y.library ≠ id :=
  OrderedMap.find?_filter h.cells.nodup (fun (_ : CellId) (y : Cell) => y.library ≠ id) x

theorem Tidy.ports_removeLibrary (h : c.Tidy) (id : LibraryId) (p : PortId) :
    (c.removeLibrary id).ports.find? p =
      (c.ports.find? p).filter fun q => !c.within id q.cell := by
  refine (OrderedMap.find?_filter h.ports.nodup _ p).trans ?_
  simp only [any_cells_find?]

theorem Tidy.find?_boundaryPorts_removeLibrary (h : c.Tidy) (id : LibraryId) (b : ModBTermId) :
    (c.removeLibrary id).boundaryPorts.find? b = (c.boundaryPorts.find? b).filter fun p =>
      !(c.ports.find? p).any fun q => c.within id q.cell := by
  refine (OrderedMap.find?_filter h.boundaryPorts _ b).trans ?_
  simp only [any_cells_find?]

theorem find?_timingMasters_removeLibrary (h : c.timingMasters.keys.Nodup) (id : LibraryId)
    (k : TimingId × String) : (c.removeLibrary id).timingMasters.find? k =
      (c.timingMasters.find? k).filter fun m =>
        !(c.cellsOf id).any fun e => e.2.source = .physical m :=
  OrderedMap.find?_filter h (fun (_ : TimingId × String) (m : MasterId) =>
    !(c.cellsOf id).any fun e => e.2.source = .physical m) k

theorem mem_cellsOf (h : c.Tidy) {library : LibraryId} {y : Cell} :
    (x, y) ∈ c.cellsOf library ↔ c.cells.find? x = some y ∧ y.library = library := by
  rw [cellsOf, List.mem_filter, OrderedMap.find?_eq_some_iff h.cells.nodup, decide_eq_true_eq]

namespace Intact

theorem not_owns (h : c.Intact) (hx : c.cellLabel? x = none) : ¬c.Owns x p := by
  rintro ⟨l, hl, rfl⟩
  obtain ⟨k, hk⟩ := h.owned hl
  cases hx.symm.trans hk

theorem relabel (h : c.Intact) (ht : c'.Tidy)
    (hcells : ∀ x, c'.cellLabel? x = c.cellLabel? x)
    (hports : ∀ p, c'.portLabel? p = c.portLabel? p)
    (htop : ∀ ⦃x y⦄, c'.cells.find? x = some y → ∃ y', c.cells.find? x = some y' ∧
      y.ports = y'.ports)
    (hshape : ∀ ⦃p q⦄, c'.ports.find? p = some q → ∃ q', c.ports.find? p = some q' ∧
      q.cell = q'.cell ∧ q.shape = q'.shape)
    (hboundary : c'.boundaryPorts = c.boundaryPorts)
    (hmasters : c'.timingMasters = c.timingMasters) : c'.Intact := by
  have howns {x : CellId} {p : PortId} (hp : c.Owns x p) : c'.Owns x p :=
    hp.mono fun p l hl => (hports p).trans hl
  refine ⟨ht, fun p l hl => ?_, fun p q l l' hl hl' => ?_, fun x y p hx hp => ?_,
    fun p q r hq hr => ?_, fun p l b hl hb => ?_, fun b p hb => ?_, fun k m hm => ?_,
    hmasters ▸ h.timingKeys⟩
  · obtain ⟨k, hk⟩ := h.owned ((hports p).symm.trans hl)
    exact ⟨k, (hcells _).trans hk⟩
  · exact h.names ((hports p).symm.trans hl) ((hports q).symm.trans hl')
  · obtain ⟨y', hy', hsame⟩ := htop hx
    exact howns (h.top hy' (hsame ▸ hp))
  · obtain ⟨q', hq', hcell, hsame⟩ := hshape hq
    exact hcell ▸ howns (h.refs hq' (hsame ▸ hr))
  · obtain ⟨k, m, hk, hsource⟩ := h.borders ((hports p).symm.trans hl) hb
    exact ⟨k, m, (hcells _).trans hk, hsource⟩
  · obtain ⟨l, hl, hsource⟩ := h.boundaryPorts (hboundary ▸ hb)
    exact ⟨l, (hports p).trans hl, hsource⟩
  · obtain ⟨x, l, hx, hsource⟩ := h.timingMasters (hmasters ▸ hm)
    exact ⟨x, l, (hcells x).trans hx, hsource⟩

theorem modifyPort (h : c.Intact) (port : PortId) {f : Port → Port}
    (hlabel : ∀ q, (f q).label = q.label) (hshape : ∀ q, (f q).shape = q.shape) :
    Intact { c with ports := c.ports.modify port f } := by
  have g : c.Gains (fun _ => False) (fun _ => False) { c with ports := c.ports.modify port f } :=
    h.tidy.modifyPort port hlabel
  refine h.relabel g.tidy (fun _ => rfl) (fun p => OrderedMap.map_find?_modify hlabel ..)
    (fun x y hx => ⟨y, hx, rfl⟩) (fun p q hq => ?_) rfl rfl
  have hq : (c.ports.modify port f).find? p = some q := hq
  rw [OrderedMap.find?_modify] at hq
  split at hq
  · obtain ⟨q', hq', rfl⟩ := Option.map_eq_some_iff.1 hq
    exact ⟨q', hq', congrArg PortLabel.cell (hlabel q'), hshape q'⟩
  · exact ⟨q, hq, rfl, rfl⟩

theorem setDirection (h : c.Intact) (port : PortId) (direction : PortDirection) :
    (c.setDirection port direction).Intact := h.modifyPort port (fun _ => rfl) fun _ => rfl

theorem setPortTiming (h : c.Intact) (port : PortId) (ref : TimingPortRef) :
    (c.setPortTiming port ref).Intact := h.modifyPort port (fun _ => rfl) fun _ => rfl

theorem setCellTiming (h : c.Intact) (cell : CellId) (ref : TimingCellRef) :
    (c.setCellTiming cell ref).Intact := by
  have g : c.Gains (fun _ => False) (fun _ => False) (c.setCellTiming cell ref) :=
    h.tidy.setCellTiming cell ref
  refine h.relabel g.tidy (cellLabel?_modify c cell fun _ => rfl) (fun _ => rfl) (fun x y hx => ?_)
    (fun p q hq => ⟨q, hq, rfl, rfl⟩) rfl rfl
  have hx : (c.cells.modify cell fun y => { y with timing := some ref }).find? x = some y := hx
  rw [OrderedMap.find?_modify] at hx
  split at hx
  · obtain ⟨y', hy', rfl⟩ := Option.map_eq_some_iff.1 hx
    exact ⟨y', hy', rfl⟩
  · exact ⟨y, hx, rfl⟩

theorem setBoundaries (h : c.Intact) (m : OrderedMap (ModuleId × String) ModBTermId) :
    Intact { c with boundaries := m } :=
  ⟨⟨h.tidy.libraries, h.tidy.cells, h.tidy.ports, h.tidy.boundaryPorts⟩, h.owned, h.names, h.top,
    h.refs, h.borders, h.boundaryPorts, h.timingMasters, h.timingKeys⟩

theorem recordTimingMaster (h : c.Intact) {l : CellLabel} {master : MasterId}
    (hx : c.cellLabel? x = some l) (hsource : l.source = .physical master) (library : TimingId)
    (name : String) : (c.recordTimingMaster library name master).Intact := by
  refine ⟨⟨h.tidy.libraries, h.tidy.cells, h.tidy.ports, h.tidy.boundaryPorts⟩, h.owned, h.names,
    h.top, h.refs, h.borders, h.boundaryPorts, fun k m hm => ?_,
    OrderedMap.keys_nodup_insert h.timingKeys ..⟩
  have hm : (c.timingMasters.insert (library, name) master).find? k = some m := hm
  rw [OrderedMap.find?_insert] at hm
  split at hm
  · cases hm
    exact ⟨x, l, hx, hsource⟩
  · exact h.timingMasters hm

theorem recordAll (h : c.Intact) {es : List ((TimingId × String) × MasterId)}
    (hes : ∀ e ∈ es, ∃ x l, c.cellLabel? x = some l ∧ l.source = .physical e.2) :
    (c.recordAll es).Intact := by
  induction es generalizing c with
  | nil => exact h
  | cons e es ih =>
    obtain ⟨x, l, hx, hsource⟩ := hes e List.mem_cons_self
    have hone : (c.recordTimingMaster e.1.1 e.1.2 e.2).Intact := h.recordTimingMaster hx hsource ..
    exact ih hone fun e' he' => hes e' (List.mem_cons_of_mem e he')

theorem addLibrary (h : c.Intact) (name : String) (s : LibrarySource) :
    (c.addLibrary name s).2.Intact :=
  ⟨h.tidy.addLibrary name s, h.owned, h.names, h.top, h.refs, h.borders, h.boundaryPorts,
    h.timingMasters, h.timingKeys⟩

theorem addCell (h : c.Intact) (library : LibraryId) (name : String) (source : CellSource) :
    (c.addCell library name source).2.Intact := by
  have g : c.Gains (· = ⟨library, source⟩) (fun _ => False) (c.addCell library name source).2 :=
    h.tidy.addCell library name source
  refine ⟨g.tidy, fun p l hl => ?_, h.names, fun x y p hx hp => ?_, h.refs, fun p l b hl hb => ?_,
    h.boundaryPorts, fun k m hm => ?_, h.timingKeys⟩
  · obtain ⟨k, hk⟩ := h.owned hl
    exact ⟨k, g.keptCells hk⟩
  · have hx : (c.cells.insert ⟨c.count + 1⟩ { name, library, source }).find? x = some y := hx
    rw [OrderedMap.find?_insert] at hx
    split at hx
    · cases hx
      cases hp
    · exact h.top hx hp
  · obtain ⟨k, m, hk, hsource⟩ := h.borders hl hb
    exact ⟨k, m, g.keptCells hk, hsource⟩
  · obtain ⟨x, l, hx, hsource⟩ := h.timingMasters hm
    exact ⟨x, l, g.keptCells hx, hsource⟩

theorem addPort (h : c.Intact) {k : CellLabel} (hcell : c.cellLabel? cell = some k)
    (hfree : ∀ p l, c.portLabel? p = some l → l.cell = cell → l.name ≠ name) {source : PortSource}
    (hsource : ∀ b, source = .moduleBoundary b → ∃ m, k.source = .module m)
    (direction : PortDirection) : (c.addPort cell name source direction).2.Intact := by
  have g : c.Gains (fun _ => False) (· = ⟨name, cell, source⟩)
      (c.addPort cell name source direction).2 := h.tidy.addPort cell name source direction
  have hnew : (c.addPort cell name source direction).2.portLabel? ⟨c.count + 1⟩ =
      some ⟨name, cell, source⟩ := (portLabel?_addPort ..).trans (if_pos rfl)
  have howns {x : CellId} {p : PortId} (hp : c.Owns x p) :
      (c.addPort cell name source direction).2.Owns x p := hp.mono g.keptPorts
  refine ⟨g.tidy, fun p l hl => ?_, fun p q l l' hl hl' hsame hnames => ?_, fun x y p hx hp => ?_,
    fun p q r hq hr => ?_, fun p l b hl hb => ?_, fun b p hb => ?_, fun k m hm => ?_, h.timingKeys⟩
  · rcases g.addedPorts hl with hl | rfl
    · obtain ⟨k, hk⟩ := h.owned hl
      exact ⟨k, g.keptCells hk⟩
    · exact ⟨k, g.keptCells hcell⟩
  · rw [portLabel?_addPort] at hl hl'
    split at hl
    · next hp =>
      cases hl
      split at hl'
      · next hq => exact hp.trans hq.symm
      · exact absurd hnames.symm (hfree q l' hl' hsame.symm)
    · split at hl'
      · cases hl'
        exact absurd hnames (hfree p l hl hsame)
      · exact h.names hl hl' hsame hnames
  · have hx : (c.cells.modify cell fun y =>
        { y with ports := y.ports ++ [⟨c.count + 1⟩] }).find? x = some y := hx
    rw [OrderedMap.find?_modify] at hx
    split at hx
    · next e =>
      obtain ⟨y', hy', rfl⟩ := Option.map_eq_some_iff.1 hx
      rcases List.mem_append.1 hp with hp | hp
      · exact howns (h.top hy' hp)
      · exact ⟨_, List.mem_singleton.1 hp ▸ hnew, e.symm⟩
    · exact howns (h.top hx hp)
  · have hq : (c.ports.insert ⟨c.count + 1⟩ { name, cell, source, direction }).find? p =
        some q := hq
    rw [OrderedMap.find?_insert] at hq
    split at hq
    · cases hq
      cases hr
    · exact howns (h.refs hq hr)
  · rcases g.addedPorts hl with hl | rfl
    · obtain ⟨k, m, hk, hsource⟩ := h.borders hl hb
      exact ⟨k, m, g.keptCells hk, hsource⟩
    · obtain ⟨m, hm⟩ := hsource b hb
      exact ⟨k, m, g.keptCells hcell, hm⟩
  · rcases g.boundaryPorts b with hsame | ⟨p', l, hb', hl, hsource, -⟩
    · obtain ⟨l, hl, hsource⟩ := h.boundaryPorts (hsame.symm.trans hb)
      exact ⟨l, g.keptPorts hl, hsource⟩
    · cases hb.symm.trans hb'
      exact ⟨l, hl, hsource⟩
  · obtain ⟨x, l, hx, hsource⟩ := h.timingMasters hm
    exact ⟨x, l, g.keptCells hx, hsource⟩

theorem addPorts (h : c.Intact) {k : CellLabel} (hcell : c.cellLabel? cell = some k)
    {ps : List PortSpec} (hnodup : (ps.map (·.name)).Nodup)
    (hfree : ∀ s ∈ ps, ∀ p l, c.portLabel? p = some l → l.cell = cell → l.name ≠ s.name)
    (hsources : ∀ s ∈ ps, ∀ b, s.source = .moduleBoundary b → ∃ m, k.source = .module m) :
    (c.addPorts cell ps).Intact := by
  induction ps generalizing c with
  | nil => exact h
  | cons s ps ih =>
    obtain ⟨hnew, hnodup⟩ := List.nodup_cons.1 hnodup
    have hcell' := (cellLabel?_addPort c cell s.name s.source s.direction cell).trans hcell
    have hone := h.addPort hcell (hfree s List.mem_cons_self) (hsources s List.mem_cons_self)
      s.direction
    refine ih hone hcell' hnodup (fun s' hs' p l hl hx => ?_) fun s' hs' =>
      hsources s' (List.mem_cons_of_mem s hs')
    rw [portLabel?_addPort] at hl
    split at hl
    · cases hl
      exact fun hname => hnew (List.mem_map.2 ⟨s', hs', hname.symm⟩)
    · exact hfree s' (List.mem_cons_of_mem s hs') p l hl hx

theorem buildCell (h : c.Intact) (library : LibraryId) (name : String) (source : CellSource)
    {ps : List PortSpec} (hnodup : (ps.map (·.name)).Nodup)
    (hsources : ∀ s ∈ ps, ∀ b, s.source = .moduleBoundary b → ∃ m, source = .module m) :
    (c.buildCell library name source ps).Intact := by
  have hlabel : (c.addCell library name source).2.cellLabel? ⟨c.count + 1⟩ =
      some ⟨library, source⟩ := (cellLabel?_addCell ..).trans (if_pos rfl)
  refine (h.addCell library name source).addPorts hlabel hnodup (fun s _ p l hl hx => ?_) hsources
  exact absurd ⟨l, hl, hx⟩ (h.not_owns h.tidy.cellLabel?_next)

theorem groups {members : List PortId} (h : c.Intact) (g : c.Groups cell name members c') :
    c'.Intact := by
  have ht : c'.Tidy := g.tidy h.tidy
  have hlabel {p : PortId} (hne : p ≠ ⟨c.count + 1⟩) : c'.portLabel? p = c.portLabel? p :=
    g.portLabel?_of_ne h.tidy hne
  have hkept := g.portLabel?_mono h.tidy
  have hcells := g.cellLabel?_eq
  obtain ⟨direction, shape, hmembers, hbus, hgroup⟩ := g.group
  have hnew : c'.portLabel? ⟨c.count + 1⟩ = some ⟨name, cell, .group⟩ := portLabel?_of_find? hgroup
  have howned (p : PortId) (hp : p ∈ members) : c'.Owns cell p := by
    obtain ⟨y, hy, hp⟩ := mem_topPorts.1 (g.top p hp)
    exact (h.top hy hp).mono hkept
  have hfree := (portNamed?_eq_none_iff h.tidy.ports.nodup).1 g.free
  refine ⟨ht, fun p l hl => ?_, fun p q l l' hl hl' hsame hnames => ?_, fun x y p hx hp => ?_,
    fun p q r hq hr => ?_, fun p l b hl hb => ?_, fun b p hb => ?_, fun k m hm => ?_, ?_⟩
  · by_cases hp : p = ⟨c.count + 1⟩
    · obtain ⟨m, hm⟩ := List.exists_mem_of_ne_nil members g.nonempty
      obtain ⟨y, hy, -⟩ := mem_topPorts.1 (g.top m hm)
      cases hnew.symm.trans (hp ▸ hl)
      exact ⟨_, (hcells cell).trans (cellLabel?_of_find? hy)⟩
    · obtain ⟨k, hk⟩ := h.owned ((hlabel hp).symm.trans hl)
      exact ⟨k, (hcells _).trans hk⟩
  · by_cases hp : p = ⟨c.count + 1⟩
    · by_cases hq : q = ⟨c.count + 1⟩
      · exact hp.trans hq.symm
      · cases hnew.symm.trans (hp ▸ hl)
        exact absurd hnames.symm (hfree q l' ((hlabel hq).symm.trans hl') hsame.symm)
    · by_cases hq : q = ⟨c.count + 1⟩
      · cases hnew.symm.trans (hq ▸ hl')
        exact absurd hnames (hfree p l ((hlabel hp).symm.trans hl) hsame)
      · exact h.names ((hlabel hp).symm.trans hl) ((hlabel hq).symm.trans hl') hsame hnames
  · rw [g.cellAt] at hx
    split at hx
    · next e =>
      obtain ⟨y', hy', rfl⟩ := Option.map_eq_some_iff.1 hx
      rcases mem_regroup.1 hp with rfl | ⟨hp, -⟩
      · exact ⟨_, hnew, e.symm⟩
      · exact (h.top hy' hp).mono hkept
    · exact (h.top hx hp).mono hkept
  · by_cases hp : p = ⟨c.count + 1⟩
    · cases hgroup.symm.trans (hp ▸ hq)
      exact howned r (hmembers ▸ PortShape.mem_members_of_refs hbus hr)
    · obtain ⟨q₀, hq₀⟩ := g.origin hp hq
      obtain ⟨s, hq', hs⟩ := g.kept h.tidy hq₀
      cases hq.symm.trans hq'
      rcases hs with rfl | ⟨hin, i, rfl⟩
      · exact (h.refs hq₀ hr).mono hkept
      · -- A bit refers to the new bus, which is in the cell of the bit.
        have hr : r ∈ [⟨c.count + 1⟩] := hr
        obtain rfl := List.mem_singleton.1 hr
        obtain ⟨l, hl, hcell⟩ := howned p hin
        cases hl.symm.trans (hkept (portLabel?_of_find? hq₀))
        exact ⟨_, hnew, hcell.symm⟩
  · by_cases hp : p = ⟨c.count + 1⟩
    · cases hnew.symm.trans (hp ▸ hl)
      cases hb
    · obtain ⟨k, m, hk, hsource⟩ := h.borders ((hlabel hp).symm.trans hl) hb
      exact ⟨k, m, (hcells _).trans hk, hsource⟩
  · have hsame : c'.boundaryPorts = c.boundaryPorts := by rw [g.frame]
    obtain ⟨l, hl, hsource⟩ := h.boundaryPorts (hsame ▸ hb)
    exact ⟨l, hkept hl, hsource⟩
  · have hsame : c'.timingMasters = c.timingMasters := by rw [g.frame]
    obtain ⟨x, l, hx, hsource⟩ := h.timingMasters (hsame ▸ hm)
    exact ⟨x, l, (hcells x).trans hx, hsource⟩
  · have hsame : c'.timingMasters = c.timingMasters := by rw [g.frame]
    exact hsame ▸ h.timingKeys

theorem groupBuses (h : c.Intact) (cell : CellId) (msbFirst : String → Bool) :
    (c.groupBuses cell msbFirst).1.Intact :=
  groupBuses_induct msbFirst h.tidy h fun _ _ _ _ _ hc _ g => hc.groups g

theorem bundle (h : c.Intact) {members : List PortId} {r : Option PortId}
    (e : c.bundle cell name members = .ok (r, c')) : c'.Intact := by
  rcases h.tidy.bundle_cases e with rfl | g
  · exact h
  · exact h.groups g

theorem linkPort (h : c.Intact) (library : TimingId) (timing : TimingCell) (id : PortId) :
    (c.linkPort library timing id).Intact := by
  unfold Catalog.linkPort
  split
  · exact h
  · split
    · exact h.setPortTiming id _
    · exact h

theorem link (h : c.Intact) (cell : CellId) (id : TimingId) (library : String)
    (timing : TimingCell) : (c.link cell id library timing).1.Intact :=
  List.foldlRecOn (motive := Intact) _ _ (h.setCellTiming cell ⟨id, timing.name⟩)
    fun _ hc p _ => hc.linkPort id timing p

theorem forgetBoundary (h : c.Intact) (id : ModBTermId) : (c.forgetBoundary id).Intact := by
  refine ⟨h.tidy.forgetBoundary id, h.owned, h.names, h.top, h.refs, h.borders, fun b p hb => ?_,
    h.timingMasters, h.timingKeys⟩
  have hb : (c.boundaryPorts.erase id).find? b = some p := hb
  rw [OrderedMap.find?_erase] at hb
  split at hb
  · cases hb
  · exact h.boundaryPorts hb

theorem removeLibrary (h : c.Intact) (id : LibraryId) : (c.removeLibrary id).Intact := by
  have hport {p : PortId} {l : PortLabel} : (c.removeLibrary id).portLabel? p = some l ↔
      c.portLabel? p = some l ∧ c.within id l.cell = false := h.tidy.portLabel?_removeLibrary
  have hcell {x : CellId} {l : CellLabel} : (c.removeLibrary id).cellLabel? x = some l ↔
      c.cellLabel? x = some l ∧ l.library ≠ id := h.tidy.cellLabel?_removeLibrary
  -- The ports of a cell go or stay together.
  have howns {x : CellId} {p : PortId} (hx : c.within id x = false) (hp : c.Owns x p) :
      (c.removeLibrary id).Owns x p := by
    obtain ⟨l, hl, rfl⟩ := hp
    exact ⟨l, hport.2 ⟨hl, hx⟩, rfl⟩
  refine ⟨h.tidy.removeLibrary id, fun p l hl => ?_, fun p q l l' hl hl' => ?_,
    fun x y p hx hp => ?_, fun p q r hq hr => ?_, fun p l b hl hb => ?_, fun b p hb => ?_,
    fun k m hm => ?_, OrderedMap.keys_nodup_filter h.timingKeys _⟩
  · obtain ⟨hl, hin⟩ := hport.1 hl
    obtain ⟨k, hk⟩ := h.owned hl
    exact ⟨k, hcell.2 ⟨hk, by simpa [within, hk] using hin⟩⟩
  · exact h.names (hport.1 hl).1 (hport.1 hl').1
  · rw [h.tidy.cells_removeLibrary, Option.filter_eq_some_iff] at hx
    have hin : c.within id x = false := by
      rw [within, cellLabel?_of_find? hx.1]
      exact decide_eq_false (of_decide_eq_true hx.2)
    exact howns hin (h.top hx.1 hp)
  · rw [h.tidy.ports_removeLibrary, Option.filter_eq_some_iff] at hq
    exact howns (by simpa using hq.2) (h.refs hq.1 hr)
  · obtain ⟨hl, hin⟩ := hport.1 hl
    obtain ⟨k, m, hk, hsource⟩ := h.borders hl hb
    exact ⟨k, m, hcell.2 ⟨hk, by simpa [within, hk] using hin⟩, hsource⟩
  · rw [h.tidy.find?_boundaryPorts_removeLibrary, Option.filter_eq_some_iff] at hb
    obtain ⟨l, hl, hsource⟩ := h.boundaryPorts hb.1
    refine ⟨l, hport.2 ⟨hl, ?_⟩, hsource⟩
    obtain ⟨q, hq, rfl⟩ := Option.map_eq_some_iff.1 hl
    have hgone := hb.2
    rw [hq, Option.any_some] at hgone
    exact Bool.not_eq_true' _ ▸ hgone
  · rw [find?_timingMasters_removeLibrary h.timingKeys, Option.filter_eq_some_iff] at hm
    obtain ⟨x, l, hx, hsource⟩ := h.timingMasters hm.1
    refine ⟨x, l, hcell.2 ⟨hx, ?_⟩, hsource⟩
    rintro rfl
    obtain ⟨y, hy, rfl⟩ := Option.map_eq_some_iff.1 hx
    have hany : ((c.cellsOf y.label.library).any fun e => e.2.source = .physical m) = true :=
      List.any_eq_true.2 ⟨(x, y), (mem_cellsOf h.tidy).2 ⟨hy, rfl⟩, decide_eq_true hsource⟩
    have hgone := hm.2
    rw [hany] at hgone
    cases hgone

end Intact
end Catalog
end DesignView
