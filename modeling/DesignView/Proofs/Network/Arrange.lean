import DesignView.Proofs.Catalog.Face
import DesignView.Proofs.Catalog.Mirror
import DesignView.Proofs.Network.Origin

/-!
What the requests that arrange cells do to a network. Grouping, linking and recording write to the
catalog, the issues and the journal; they keep the catalog intact and leave every library and the
head of every cell as it was.
-/

namespace DesignView.Network

variable {n n' n'' : Network} {d : Design}

def masterPorts (db : Database) (id : MasterId) : List PortSpec :=
  (db.mtermsOf id).map fun e => ⟨e.2.name, .physical e.1, .ofTypes e.2.sig e.2.io⟩

def topPorts (d : Design) : List PortSpec :=
  d.bterms.entries.map fun e => ⟨e.2.name, .design, .ofTypes e.2.sig e.2.io⟩

def modulePorts (d : Design) (m : ModuleId) : List PortSpec :=
  (d.modBTermsOf m).map fun e => ⟨e.2.name, .moduleBoundary e.1, .ofTypes e.2.sig e.2.io⟩

def withTopLibrary (c : Catalog) (d : Design) : Catalog :=
  ((c.without .design).addLibrary d.name .design).2

theorem loadMaster_eq (n : Network) (library : LibraryId) (id : MasterId) (a : Master) :
    ∃ m, m = (Network.groupCell { n with
        catalog := n.catalog.buildCell library a.name (.physical id) (masterPorts n.db id) }
          ⟨n.catalog.count + 1⟩ a.name).recordMaster id a.name ∧
      n.loadMaster library id a =
        m.linkFirst ⟨n.catalog.count + 1⟩ (m.timingLibraries.map (·.1)) := by
  refine ⟨_, rfl, ?_⟩
  rw [Catalog.buildCell, Catalog.addPorts, masterPorts, List.foldl_map]
  rfl

theorem loadLibrary_eq_ok {id : LibId} {r : LibraryId} (e : n.loadLibrary id = .ok (r, n')) :
    ∃ lib m, n.db.libs.find? id = some lib ∧ r = ⟨(n.catalog.without (.physical id)).count + 1⟩ ∧
      m = (n.db.mastersOf id).foldl (fun n e => n.loadMaster r e.1 e.2) { n with
        catalog :=
          ((n.catalog.without (.physical id)).addLibrary lib.name (.physical id)).2 } ∧
      n' = m.forgetDrivers.notify (.library r lib.name) := by
  obtain ⟨lib, hlib, e⟩ := bind_eq_ok.1 e
  obtain ⟨rfl, rfl⟩ := Prod.mk.inj (pure_eq_ok.1 e)
  refine ⟨lib, _, ?_, rfl, rfl, rfl⟩
  unfold Database.lib at hlib
  split at hlib
  · next hfind => exact hfind.trans (congrArg some (Except.ok.inj hlib))
  · cases hlib

theorem loadTopCell_eq (n : Network) (d : Design) : n.loadTopCell d =
    Network.groupCell { n with
        catalog := (withTopLibrary n.catalog d).buildCell ⟨(n.catalog.without .design).count + 1⟩
          d.name .design (topPorts d) } ⟨(withTopLibrary n.catalog d).count + 1⟩ d.name := by
  rw [Catalog.buildCell, Catalog.addPorts, topPorts, List.foldl_map]
  rfl

theorem addModuleCell_eq (c : Catalog) (library : LibraryId) (d : Design) (m : ModuleId)
    (name : String) : addModuleCell c library d m name =
      (⟨c.count + 1⟩, c.buildCell library name (.module m) (modulePorts d m)) := by
  rw [Catalog.buildCell, Catalog.addPorts, modulePorts, List.foldl_map]
  rfl

def Only (n n' : Network) : Prop := ∃ catalog issues drivers observers journal,
  n' = { n with catalog, issues, drivers, observers, journal }

namespace Only

theorem refl (n : Network) : n.Only n := ⟨_, _, _, _, _, rfl⟩

theorem trans (h : n.Only n') (h' : n'.Only n'') : n.Only n'' := by
  obtain ⟨_, _, _, _, _, rfl⟩ := h
  obtain ⟨_, _, _, _, _, rfl⟩ := h'
  exact ⟨_, _, _, _, _, rfl⟩

theorem settings (h : n.Only n') : n'.settings = n.settings := by
  obtain ⟨_, _, _, _, _, rfl⟩ := h
  rfl

theorem db (h : n.Only n') : n'.db = n.db := by
  obtain ⟨_, _, _, _, _, rfl⟩ := h
  rfl

theorem timing (h : n.Only n') : n'.timing = n.timing := by
  obtain ⟨_, _, _, _, _, rfl⟩ := h
  rfl

theorem designLoaded (h : n.Only n') : n'.designLoaded = n.designLoaded := by
  obtain ⟨_, _, _, _, _, rfl⟩ := h
  rfl

end Only

theorem reportAll_eq (n : Network) (causes : List Mismatch) : n.reportAll causes = { n with
    issues := n.issues.addAll (causes.map fun cause => ⟨cause, .warning⟩)
    journal := (n.reportAll causes).journal } := by
  induction causes generalizing n with
  | nil =>
    obtain ⟨⟩ := n
    simp [reportAll, IssueSet.addAll]
  | cons cause causes ih =>
    have hone : n.reportAll (cause :: causes) = (n.report cause).reportAll causes := rfl
    rw [hone, ih]
    simp [report, IssueSet.add, IssueSet.addAll]

theorem reportAll_catalog (n : Network) (causes : List Mismatch) :
    (n.reportAll causes).catalog = n.catalog := by
  rw [reportAll_eq]

theorem only_reportAll (n : Network) (causes : List Mismatch) : n.Only (n.reportAll causes) :=
  ⟨_, _, _, _, _, reportAll_eq n causes⟩

theorem groupCell_catalog (n : Network) (cell : CellId) (name : String) :
    (n.groupCell cell name).catalog =
      (n.catalog.groupBuses cell fun bus => n.msbFirst bus name).1 := reportAll_catalog ..

theorem only_groupCell (n : Network) (cell : CellId) (name : String) :
    n.Only (n.groupCell cell name) := by
  refine Only.trans ?_ (only_reportAll ..)
  exact ⟨_, _, _, _, _, rfl⟩

theorem linkCell?_eq_some {cell : CellId} {id : TimingId} (e : n.linkCell? cell id = some n') :
    ∃ library x timing, n.timingLibrary? id = some library ∧ n.catalog.cells.find? cell = some x ∧
      library.cell? x.name = some timing ∧
      n' = { n with catalog := (n.catalog.link cell id library.name timing).1 }.reportAll
        (n.catalog.link cell id library.name timing).2 := by
  obtain ⟨library, hl, e⟩ := Option.bind_eq_some_iff.1 e
  obtain ⟨x, hx, e⟩ := Option.bind_eq_some_iff.1 e
  obtain ⟨timing, ht, e⟩ := Option.bind_eq_some_iff.1 e
  exact ⟨library, x, timing, hl, hx, ht, (Option.some.inj e).symm⟩

theorem only_linkCell? {cell : CellId} {id : TimingId} (e : n.linkCell? cell id = some n') :
    n.Only n' := by
  obtain ⟨library, x, timing, -, -, -, rfl⟩ := linkCell?_eq_some e
  refine Only.trans ?_ (only_reportAll ..)
  exact ⟨_, _, _, _, _, rfl⟩

theorem only_linkFirst (n : Network) (cell : CellId) (ids : List TimingId) :
    n.Only (n.linkFirst cell ids) := by
  induction ids with
  | nil => exact .refl n
  | cons id ids ih =>
    unfold Network.linkFirst
    cases e : n.linkCell? cell id with
    | none => exact ih
    | some n' => exact only_linkCell? e

def masterEntries (n : Network) (master : MasterId) (name : String) :
    List ((TimingId × String) × MasterId) :=
  (n.timingLibraries.filter fun e => (e.2.cell? name).isSome).map fun e => ((e.1, name), master)

def timingEntries (c : Catalog) (id : TimingId) (library : TimingLibrary) :
    List ((TimingId × String) × MasterId) :=
  ((c.libraries.entries.filter fun e =>
    match e.2.source with
    | .physical _ => true
    | _ => false).flatMap fun e => c.cellsOf e.1).filterMap fun e =>
      match e.2.source with
      | .physical master =>
        if (library.cell? e.2.name).isSome then some ((id, e.2.name), master) else none
      | _ => none

theorem recordMaster_eq (n : Network) (master : MasterId) (name : String) :
    n.recordMaster master name =
      { n with catalog := n.catalog.recordAll (n.masterEntries master name) } := by
  unfold Network.recordMaster masterEntries
  generalize n.timingLibraries = es
  induction es generalizing n with
  | nil => rfl
  | cons e es ih =>
    by_cases h : (e.2.cell? name).isSome
    · rw [List.foldl_cons, if_pos h, ih, List.filter_cons_of_pos (by simpa using h)]
      rfl
    · rw [List.foldl_cons, if_neg h, ih, List.filter_cons_of_neg (by simpa using h)]

theorem recordTimingMasters_eq {id : TimingId} {library : TimingLibrary}
    (hl : n.timingLibrary? id = some library) : n.recordTimingMasters id =
      { n with catalog := n.catalog.recordAll (timingEntries n.catalog id library) } := by
  unfold Network.recordTimingMasters timingEntries
  rw [hl]
  dsimp only
  congr 1
  generalize List.flatMap _ _ = es
  generalize n.catalog = c
  induction es generalizing c with
  | nil => rfl
  | cons e es ih =>
    rw [List.foldl_cons, ih, List.filterMap_cons]
    cases e.2.source with
    | physical master =>
      by_cases h : (library.cell? e.2.name).isSome
      · simp only [if_pos h]
        rfl
      · simp only [if_neg h]
    | module | design => rfl

theorem recordTimingMasters_of_none {id : TimingId} (hl : n.timingLibrary? id = none) :
    n.recordTimingMasters id = n := by
  unfold Network.recordTimingMasters
  rw [hl]

theorem mem_timingEntries {c : Catalog} (ht : c.Tidy) {id t : TimingId} {library : TimingLibrary}
    {name : String} {m : MasterId} : ((t, name), m) ∈ timingEntries c id library ↔
      t = id ∧ (library.cell? name).isSome ∧ ∃ l lib x y, (l, lib) ∈ c.libraries.entries ∧
        (∃ p, lib.source = .physical p) ∧ c.cells.find? x = some y ∧ y.library = l ∧
        y.name = name ∧ y.source = .physical m := by
  simp only [timingEntries, List.mem_filterMap, List.mem_flatMap, List.mem_filter]
  constructor
  · rintro ⟨⟨x, y⟩, ⟨⟨l, lib⟩, ⟨hl, hlib⟩, hx⟩, hentry⟩
    obtain ⟨hx, hy⟩ := (Catalog.mem_cellsOf ht).1 hx
    have hphysical : ∃ p, lib.source = .physical p := by
      cases hs : lib.source with
      | physical p => exact ⟨p, rfl⟩
      | modules | design => simp [hs] at hlib
    cases hs : y.source with
    | physical master =>
      by_cases hnamed : (library.cell? y.name).isSome
      · simp only [hs, if_pos hnamed] at hentry
        cases hentry
        exact ⟨rfl, hnamed, l, lib, x, y, hl, hphysical, hx, hy, rfl, hs⟩
      · simp only [hs, if_neg hnamed] at hentry
        cases hentry
    | module | design =>
      simp only [hs] at hentry
      cases hentry
  · rintro ⟨rfl, hnamed, l, lib, x, y, hl, ⟨p, hp⟩, hx, hy, rfl, hs⟩
    refine ⟨(x, y), ⟨(l, lib), ⟨hl, ?_⟩, (Catalog.mem_cellsOf ht).2 ⟨hx, hy⟩⟩, ?_⟩
    · rw [hp]
    · simp only [hs, if_pos hnamed]

theorem only_recordMaster (n : Network) (master : MasterId) (name : String) :
    n.Only (n.recordMaster master name) := ⟨_, _, _, _, _, recordMaster_eq n master name⟩

theorem only_recordTimingMasters (n : Network) (id : TimingId) :
    n.Only (n.recordTimingMasters id) := by
  cases hl : n.timingLibrary? id with
  | none =>
    rw [recordTimingMasters_of_none hl]
    exact .refl n
  | some library => exact ⟨_, _, _, _, _, recordTimingMasters_eq hl⟩

/-- What is left to do once the cells of the design are there. -/
def finishDesign (n : Network) (d : Design) : Network :=
  { (((n.indexBoundaries d).findConstants d).forgetDrivers) with
    generation := n.generation + 1
    designLoaded := true }.notify (.design d.name (n.generation + 1))

def boundaryTable (d : Design) : OrderedMap (ModuleId × String) ModBTermId :=
  ((d.modules.ids.flatMap fun m => (d.modBTermsOf m).map fun e => (m, e)).map
    fun t => ((t.1, t.2.2.name), t.2.1)).foldl (fun m e => m.insert e.1 e.2) {}

theorem indexBoundaries_eq (n : Network) (d : Design) : n.indexBoundaries d =
    { n with catalog := { n.catalog with boundaries := boundaryTable d } } := by
  have hc := foldl_recordBoundary
    (d.modules.ids.flatMap fun m => (d.modBTermsOf m).map fun e => (m, e)) n.catalog.clearBoundaries
  exact congrArg (fun c => { n with catalog := c }) hc

theorem finishDesign_catalog (n : Network) (d : Design) :
    (n.finishDesign d).catalog = { n.catalog with boundaries := boundaryTable d } :=
  congrArg Network.catalog (indexBoundaries_eq n d)

theorem loadDesign_eq_ok (e : n.loadDesign = .ok n') : ∃ d n₁, n.design? = some d ∧
    ((n.loadTopCell d).withoutModules.hierarchy = true ∧
        (n.loadTopCell d).withoutModules.loadModuleCells d = .ok n₁ ∨
      (n.loadTopCell d).withoutModules.hierarchy = false ∧ n₁ = (n.loadTopCell d).withoutModules) ∧
    n' = n₁.finishDesign d := by
  obtain ⟨d, hd, e⟩ := bind_eq_ok.1 e
  have hd := design_eq_ok.1 hd
  extract_lets n₀ m finish at e
  have hfinish {n₁ : Network} (e : finish n₁ = .ok n') : n' = n₁.finishDesign d :=
    (pure_eq_ok.1 e).symm
  have hm : m = (n.loadTopCell d).withoutModules := rfl
  clear_value m finish
  split at e
  · next hh =>
    obtain ⟨n₁, e₁, e⟩ := bind_eq_ok.1 e
    exact ⟨d, n₁, hd, .inl ⟨hm ▸ hh, hm ▸ e₁⟩, hfinish e⟩
  · next hh =>
    exact ⟨d, m, hd, .inr ⟨hm ▸ eq_false_of_ne_true hh, hm⟩, hfinish e⟩

theorem loadDesign_of_modules (hd : n.design? = some d)
    (h : (n.loadTopCell d).withoutModules.hierarchy = true ∧
        (n.loadTopCell d).withoutModules.loadModuleCells d = .ok n' ∨
      (n.loadTopCell d).withoutModules.hierarchy = false ∧ n' = (n.loadTopCell d).withoutModules) :
    n.loadDesign = .ok (n'.finishDesign d) := by
  refine bind_eq_ok.2 ⟨d, design_eq_ok.2 hd, ?_⟩
  extract_lets n₀ m finish
  have hm : m = (n.loadTopCell d).withoutModules := rfl
  have hfinish : finish n' = .ok (n'.finishDesign d) := rfl
  clear_value m finish
  rw [← hm] at h
  rcases h with ⟨hh, e⟩ | ⟨hh, rfl⟩
  · exact (if_pos hh).trans (bind_eq_ok.2 ⟨n', e, hfinish⟩)
  · exact (if_neg (Bool.eq_false_iff.1 hh)).trans (bind_eq_ok.2 ⟨n', rfl, hfinish⟩)

structure Arranges (n n' : Network) : Prop where
  only : n.Only n'
  libraries : n'.catalog.libraries = n.catalog.libraries
  heads : ∀ x, n'.catalog.head? x = n.catalog.head? x
  boundaries : n'.catalog.boundaries = n.catalog.boundaries
  intact : n.catalog.Intact → n'.catalog.Intact

namespace Arranges

theorem refl (n : Network) : n.Arranges n := ⟨.refl n, rfl, fun _ => rfl, rfl, id⟩

theorem trans (h : n.Arranges n') (h' : n'.Arranges n'') : n.Arranges n'' :=
  ⟨h.only.trans h'.only, h'.libraries.trans h.libraries, fun x => (h'.heads x).trans (h.heads x),
    h'.boundaries.trans h.boundaries, fun hn => h'.intact (h.intact hn)⟩

theorem foldl {ε : Type} {step : Network → ε → Network}
    (hstep : ∀ (n : Network) (e : ε), n.Arranges (step n e)) (es : List ε) (n : Network) :
    n.Arranges (es.foldl step n) :=
  List.foldlRecOn (motive := n.Arranges) es step (refl n) fun m hm e _ => hm.trans (hstep m e)

theorem groupCell (n : Network) (cell : CellId) (name : String) :
    n.Arranges (n.groupCell cell name) := by
  have hsame := Catalog.SameCells.groupBuses n.catalog cell fun bus => n.msbFirst bus name
  have hbuilt : n.catalog.Built 0 _ := .groupBuses n.catalog cell fun bus => n.msbFirst bus name
  rw [← groupCell_catalog] at hsame hbuilt
  refine ⟨only_groupCell .., hsame.libraries, fun x => Catalog.head?_of_face? (hsame.faces x),
    hbuilt.boundaries, fun h => ?_⟩
  rw [groupCell_catalog]
  exact h.groupBuses cell _

theorem groupCells (n : Network) (cells : List (CellId × String)) :
    n.Arranges (cells.foldl (fun n e => n.groupCell e.1 e.2) n) :=
  foldl (fun n (e : CellId × String) => groupCell n e.1 e.2) cells n

theorem linkCell? {cell : CellId} {id : TimingId} (e : n.linkCell? cell id = some n') :
    n.Arranges n' := by
  have honly : n.Only n' := only_linkCell? e
  obtain ⟨library, x, timing, hl, -, -, rfl⟩ := linkCell?_eq_some e
  obtain ⟨hlt, -⟩ := List.getElem?_eq_some_iff.1 hl
  have hsame := Catalog.SameCells.link n.catalog cell id library.name timing
  have hbuilt := Catalog.Built.link n.catalog cell hlt library.name timing
  refine ⟨honly, ?_, fun x => ?_, ?_, fun h => ?_⟩
  all_goals rw [reportAll_catalog]
  · exact hsame.libraries
  · exact Catalog.head?_link n.catalog cell id library.name timing x
  · exact hbuilt.boundaries
  · exact h.link cell id library.name timing

theorem linkFirst (n : Network) (cell : CellId) (ids : List TimingId) :
    n.Arranges (n.linkFirst cell ids) := by
  induction ids with
  | nil => exact refl n
  | cons id ids ih =>
    unfold Network.linkFirst
    cases e : n.linkCell? cell id with
    | none => exact ih
    | some n' => exact linkCell? e

theorem record (n : Network) (es : List ((TimingId × String) × MasterId))
    (hes : ∀ e ∈ es, n.catalog.Intact →
      ∃ x l, n.catalog.cellLabel? x = some l ∧ l.source = .physical e.2) :
    n.Arranges { n with catalog := n.catalog.recordAll es } := by
  exact ⟨⟨_, _, _, _, _, rfl⟩, rfl, fun _ => rfl, rfl, fun h => h.recordAll fun e he => hes e he h⟩

theorem recordMaster {master : MasterId} {x : CellId} {l : CellLabel}
    (hx : n.catalog.cellLabel? x = some l) (hsource : l.source = .physical master) (name : String) :
    n.Arranges (n.recordMaster master name) := by
  rw [recordMaster_eq]
  refine record n _ fun e he _ => ?_
  obtain ⟨t, -, rfl⟩ := List.mem_map.1 he
  exact ⟨x, l, hx, hsource⟩

theorem recordTimingMasters (n : Network) (id : TimingId) :
    n.Arranges (n.recordTimingMasters id) := by
  cases hl : n.timingLibrary? id with
  | none =>
    rw [recordTimingMasters_of_none hl]
    exact refl n
  | some library =>
    rw [recordTimingMasters_eq hl]
    refine record n _ fun e he h => ?_
    obtain ⟨-, -, _, _, x, y, -, -, hx, -, -, hsource⟩ := (mem_timingEntries h.tidy).1 he
    exact ⟨x, y.label, Catalog.cellLabel?_of_find? hx, hsource⟩

theorem relinkTiming (n : Network) (id : TimingId) : n.Arranges (n.relinkTiming id) := by
  unfold Network.relinkTiming
  split
  · exact ⟨⟨_, _, _, _, _, rfl⟩, rfl, fun _ => rfl, rfl, fun h => h⟩
  · dsimp only
    generalize hacc : List.foldl _ (n, false) _ = acc
    have hlinked : n.Arranges acc.1 := by
      rw [← hacc]
      refine List.foldlRecOn (motive := fun acc : Network × Bool => n.Arranges acc.1) _ _ (refl n)
        fun acc hacc cell _ => ?_
      cases e : acc.1.linkCell? cell id with
      | none => exact hacc
      | some m => exact hacc.trans (linkCell? e)
    obtain ⟨m, linked⟩ := acc
    have hrecorded := hlinked.trans (recordTimingMasters m id)
    generalize m.recordTimingMasters id = m at hrecorded
    have hfinish (m' : Network) (hm' : m'.catalog = m.catalog) (honly : m.Only m') :
        n.Arranges m' :=
      ⟨hrecorded.only.trans honly, hm' ▸ hrecorded.libraries, hm' ▸ hrecorded.heads,
        hm' ▸ hrecorded.boundaries, hm' ▸ hrecorded.intact⟩
    cases linked with
    | true => exact hfinish _ rfl ⟨_, _, _, _, _, rfl⟩
    | false => exact hfinish _ rfl ⟨_, _, _, _, _, rfl⟩

end Arranges
end DesignView.Network
