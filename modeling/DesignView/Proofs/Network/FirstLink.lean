import DesignView.Proofs.Catalog.Without
import DesignView.Proofs.Network.Stored

/-!
Links of cells. A cell of a physical library is linked when it is built, to the first loaded timing
library that has a cell of its name; a timing library that is loaded late is linked to the cells
that are not linked yet. Either way the first library wins.
-/

namespace DesignView

open Catalog (SameCells)

namespace Network

variable {n n' n'' : Network} {d : Design} {x : CellId} {y : Cell} {name : String}

def refIn? (n : Network) (id : TimingId) (name : String) : Option TimingCellRef :=
  (n.timingLibrary? id).bind fun library => (library.cell? name).map fun t => ⟨id, t.name⟩

def firstRef? (n : Network) (name : String) : Option TimingCellRef :=
  (n.timingLibraries.map (·.1)).findSome? fun id => n.refIn? id name

theorem refIn?_congr (h : n'.timing = n.timing) (id : TimingId) (name : String) :
    n'.refIn? id name = n.refIn? id name := by
  rw [refIn?, timingLibrary?, h, refIn?, timingLibrary?]

theorem firstRef?_congr (h : n'.timing = n.timing) (name : String) :
    n'.firstRef? name = n.firstRef? name := by
  simp only [firstRef?, timingLibraries, h, refIn?_congr h]

def refAmong? (libraries : List TimingLibrary) (i : Nat) (name : String) : Option TimingCellRef :=
  (libraries.zipIdx i).findSome? fun e => (e.1.cell? name).map fun timing => ⟨⟨e.2⟩, timing.name⟩

theorem refAmong?_append (libraries later : List TimingLibrary) (i : Nat) (name : String) :
    refAmong? (libraries ++ later) i name =
      (refAmong? libraries i name).or (refAmong? later (i + libraries.length) name) := by
  rw [refAmong?, List.zipIdx_append, List.findSome?_append, refAmong?, refAmong?]

theorem refAmong?_eq_none_iff {libraries : List TimingLibrary} {i : Nat} {name : String} :
    refAmong? libraries i name = none ↔ ∀ library ∈ libraries, library.cell? name = none := by
  simp only [refAmong?, List.findSome?_eq_none_iff, Option.map_eq_none_iff]
  constructor
  · intro h library hl
    rw [← List.zipIdx_map_fst i libraries] at hl
    obtain ⟨e, he, rfl⟩ := List.mem_map.1 hl
    exact h e he
  · intro h e he
    exact h e.1 (List.fst_mem_of_mem_zipIdx he)

theorem refAmong?_index {libraries : List TimingLibrary} {i : Nat} {name : String}
    {ref : TimingCellRef} (h : refAmong? libraries i name = some ref) :
    i ≤ ref.library.index ∧ ref.library.index < i + libraries.length := by
  obtain ⟨⟨library, j⟩, he, href⟩ := List.exists_of_findSome?_eq_some h
  obtain ⟨timing, -, rfl⟩ := Option.map_eq_some_iff.1 href
  have hbounds := List.mem_zipIdx he
  exact ⟨hbounds.1, hbounds.2.1⟩

/-- What a cell of that name is linked to in the first timing library that has one, the first `k`
libraries left out. -/
def refFrom? (n : Network) (k : Nat) (name : String) : Option TimingCellRef :=
  refAmong? (n.timing.drop k) k name

theorem refFrom?_congr (h : n'.timing = n.timing) (k : Nat) (name : String) :
    n'.refFrom? k name = n.refFrom? k name := by
  rw [refFrom?, h, refFrom?]

theorem refFrom?_length (n : Network) (name : String) : n.refFrom? n.timing.length name = none := by
  rw [refFrom?, List.drop_length]
  rfl

theorem firstRef?_eq_refFrom? (n : Network) (name : String) :
    n.firstRef? name = n.refFrom? 0 name := by
  rw [firstRef?, timingLibraries, List.map_map, List.findSome?_map, refFrom?, List.drop_zero,
    refAmong?, ← List.head?_filterMap, ← List.head?_filterMap]
  refine congrArg List.head? (List.filterMap_congr fun e he => ?_)
  have hl : n.timing[e.2]? = some e.1 := List.mem_zipIdx_iff_getElem?.1 he
  simp [refIn?, timingLibrary?, hl]

theorem mem_timingLibraries {id : TimingId} {library : TimingLibrary} :
    (id, library) ∈ n.timingLibraries ↔ n.timingLibrary? id = some library := by
  obtain ⟨i⟩ := id
  simp only [timingLibraries, timingLibrary?, List.mem_map, Prod.exists]
  constructor
  · rintro ⟨library', j, hmem, hj⟩
    cases hj
    exact (List.mem_zipIdx_iff_getElem? ..).1 hmem
  · intro hi
    exact ⟨library, i, (List.mem_zipIdx_iff_getElem? ..).2 hi, rfl⟩

theorem mem_timingIds {id : TimingId} :
    id ∈ n.timingLibraries.map (·.1) ↔ ∃ library, n.timingLibrary? id = some library := by
  rw [List.mem_map]
  constructor
  · rintro ⟨⟨id, library⟩, hmem, rfl⟩
    exact ⟨library, mem_timingLibraries.1 hmem⟩
  · rintro ⟨library, hl⟩
    exact ⟨(id, library), mem_timingLibraries.2 hl, rfl⟩

theorem refIn?_isSome {id : TimingId} : (n.refIn? id name).isSome = true ↔
    ∃ library, n.timingLibrary? id = some library ∧ (library.cell? name).isSome = true := by
  cases hl : n.timingLibrary? id with
  | none => simp [refIn?, hl]
  | some library => simp [refIn?, hl]

theorem refIn?_eq_none_of_firstRef? (h : n.firstRef? name = none) (id : TimingId) :
    n.refIn? id name = none := by
  cases hl : n.timingLibrary? id with
  | none => rw [refIn?, hl, Option.bind_none]
  | some library => exact List.findSome?_eq_none_iff.1 h id (mem_timingIds.2 ⟨library, hl⟩)

theorem linkCell?_isNone (hx : n.catalog.face? x = some y) (id : TimingId) :
    n.linkCell? x id = none ↔ n.refIn? id y.name = none := by
  obtain ⟨y', hy', rfl⟩ := Catalog.exists_of_face? hx
  have hname : y'.face.name = y'.name := rfl
  simp only [Network.linkCell?, refIn?, hy', hname]
  cases n.timingLibrary? id with
  | none => simp
  | some library =>
    cases ht : library.cell? y'.name with
    | none => simp [ht]
    | some timing => simp [ht]

theorem face?_linkCell? {id : TimingId} (hx : n.catalog.face? x = some y)
    (e : n.linkCell? x id = some n') (z : CellId) : n'.catalog.face? z =
      if z = x then some { y with timing := n.refIn? id y.name } else n.catalog.face? z := by
  obtain ⟨y', hy', rfl⟩ := Catalog.exists_of_face? hx
  obtain ⟨library, x', timing, hl, hx', ht, rfl⟩ := linkCell?_eq_some e
  obtain rfl : y' = x' := Option.some.inj (hy'.symm.trans hx')
  have href : n.refIn? id y'.face.name = some ⟨id, timing.name⟩ := by
    have hname : y'.face.name = y'.name := rfl
    rw [refIn?, hl, Option.bind_some, hname, ht, Option.map_some]
  rw [reportAll_catalog, Catalog.face?_link, href]
  split
  · next hz =>
    rw [hz, hx]
    rfl
  · rfl

theorem face?_linkFirst (hx : n.catalog.face? x = some y) (hy : y.timing = none)
    (ids : List TimingId) (z : CellId) : (n.linkFirst x ids).catalog.face? z =
      if z = x then some { y with timing := ids.findSome? fun id => n.refIn? id y.name }
      else n.catalog.face? z := by
  induction ids with
  | nil =>
    rw [Network.linkFirst, List.findSome?_nil]
    split
    · next hz =>
      rw [hz, hx, ← hy]
    · rfl
  | cons id ids ih =>
    rw [Network.linkFirst, List.findSome?_cons]
    cases e : n.linkCell? x id with
    | none =>
      rw [(linkCell?_isNone hx id).1 e]
      exact ih
    | some n' =>
      have hsome : n.refIn? id y.name ≠ none := fun h => by
        cases ((linkCell?_isNone hx id).2 h).symm.trans e
      obtain ⟨ref, href⟩ := Option.ne_none_iff_exists'.1 hsome
      rw [Option.getD_some, face?_linkCell? hx e, href]

theorem timing_linkCell? {id : TimingId} (e : n.linkCell? x id = some n') :
    n'.timing = n.timing := (only_linkCell? e).timing

theorem face?_linkCells {id : TimingId} (cells : List CellId) (acc : Network × Bool)
    (hcells : ∀ z ∈ cells, ∃ y, acc.1.catalog.face? z = some y) (z : CellId) :
    (cells.foldl (fun acc cell =>
        match acc.1.linkCell? cell id with
        | some n => (n, true)
        | none => (acc.1, acc.2)) acc).1.catalog.face? z =
      if z ∈ cells then (acc.1.catalog.face? z).map fun y =>
        { y with timing := (acc.1.refIn? id y.name).or y.timing }
      else acc.1.catalog.face? z := by
  induction cells generalizing acc with
  | nil => rfl
  | cons cell cells ih =>
    obtain ⟨y, hy⟩ := hcells cell List.mem_cons_self
    rw [List.foldl_cons]
    cases e : acc.1.linkCell? cell id with
    | none =>
      have hnone : acc.1.refIn? id y.name = none := (linkCell?_isNone hy id).1 e
      rw [ih (acc.1, acc.2) fun z hz => hcells z (List.mem_cons_of_mem cell hz)]
      by_cases hz : z = cell
      · subst hz
        simp [hy, hnone]
      · simp [hz]
    | some n' =>
      have hface := face?_linkCell? hy e
      have hsame : ∀ name, n'.refIn? id name = acc.1.refIn? id name :=
        refIn?_congr (timing_linkCell? e) id
      obtain ⟨ref, href⟩ : ∃ ref, acc.1.refIn? id y.name = some ref := by
        refine Option.ne_none_iff_exists'.1 fun h => ?_
        cases ((linkCell?_isNone hy id).2 h).symm.trans e
      rw [ih (n', true) fun z hz => ?_]
      · simp only [hsame, hface]
        by_cases hz : z = cell
        · subst hz
          simp [hy, href]
        · simp [hz]
      · rw [hface]
        split
        · exact ⟨_, rfl⟩
        · exact hcells z (List.mem_cons_of_mem cell hz)

def Housed (c : Catalog) : Prop :=
  ∀ ⦃x y⦄, c.face? x = some y → ∃ a, c.libraries.find? y.library = some a

theorem mem_allCells {c : Catalog} (ht : c.Tidy) (hc : Housed c) {y : Cell} :
    (x, y) ∈ c.allCells ↔ c.cells.find? x = some y := by
  simp only [Catalog.allCells, List.mem_flatMap, Catalog.mem_cellsOf ht]
  constructor
  · rintro ⟨_, -, hx, -⟩
    exact hx
  · intro hx
    obtain ⟨a, ha⟩ := hc (Catalog.face?_of_find? hx)
    exact ⟨y.library, OrderedMap.mem_keys_iff.2 ⟨a, ha⟩, hx, rfl⟩

theorem nodup_allCells {c : Catalog} (ht : c.Tidy) : (c.allCells.map (·.1)).Nodup := by
  rw [Catalog.allCells, List.map_flatMap, List.nodup_flatMap]
  refine ⟨fun l _ => ht.cells.nodup.sublist (List.filter_sublist.map _), ?_⟩
  refine ht.libraries.nodup.imp fun {l l'} hne x hx hx' => hne ?_
  obtain ⟨e, he, rfl⟩ := List.mem_map.1 hx
  obtain ⟨e', he', hsame⟩ := List.mem_map.1 hx'
  obtain ⟨hfind, rfl⟩ := (Catalog.mem_cellsOf ht).1 he
  obtain ⟨hfind', rfl⟩ := (Catalog.mem_cellsOf ht).1 he'
  exact congrArg Cell.library (Option.some.inj (hfind.symm.trans (hsame ▸ hfind')))

theorem face?_recordTimingMasters (n : Network) (id : TimingId) (z : CellId) :
    (n.recordTimingMasters id).catalog.face? z = n.catalog.face? z := by
  cases hl : n.timingLibrary? id with
  | none => rw [recordTimingMasters_of_none hl]
  | some library =>
    rw [recordTimingMasters_eq hl]
    rfl

theorem relinkTiming_of_none {id : TimingId} (hl : n.timingLibrary? id = none) :
    (n.relinkTiming id).catalog = n.catalog := by
  unfold Network.relinkTiming
  rw [hl]
  rfl

theorem relinkTiming_catalog {id : TimingId} {library : TimingLibrary}
    (hl : n.timingLibrary? id = some library) : (n.relinkTiming id).catalog =
      ((((n.catalog.allCells.filter fun e => e.2.timing.isNone).map (·.1)).foldl (fun acc cell =>
        match acc.1.linkCell? cell id with
        | some n => (n, true)
        | none => (acc.1, acc.2)) (n, false)).1.recordTimingMasters id).catalog := by
  unfold Network.relinkTiming
  rw [hl]
  dsimp only
  generalize List.foldl _ (n, false) _ = acc
  obtain ⟨m, linked⟩ := acc
  cases linked <;> rfl

theorem face?_relinkTiming (ht : n.catalog.Tidy) (hc : Housed n.catalog) (id : TimingId)
    (z : CellId) : (n.relinkTiming id).catalog.face? z = (n.catalog.face? z).map fun y =>
      { y with timing := y.timing.or (n.refIn? id y.name) } := by
  cases hl : n.timingLibrary? id with
  | none =>
    have href (name : String) : n.refIn? id name = none := by
      rw [refIn?, hl, Option.bind_none]
    simp [relinkTiming_of_none hl, href]
  | some library =>
    rw [relinkTiming_catalog hl, face?_recordTimingMasters, face?_linkCells]
    · cases hz : n.catalog.cells.find? z with
      | none => simp [Catalog.face?, hz]
      | some y =>
        have hface : n.catalog.face? z = some y.face := Catalog.face?_of_find? hz
        have hmem : z ∈ ((n.catalog.allCells.filter fun e => e.2.timing.isNone).map (·.1)) ↔
            y.timing = none := by
          simp only [List.mem_map, List.mem_filter, Prod.exists, mem_allCells ht hc,
            Option.isNone_iff_eq_none]
          constructor
          · rintro ⟨_, y', ⟨hz', hnone⟩, rfl⟩
            cases hz.symm.trans hz'
            exact hnone
          · intro hnone
            exact ⟨z, y, ⟨hz, hnone⟩, rfl⟩
        have htiming : y.face.timing = y.timing := rfl
        rw [hface]
        cases hy : y.timing with
        | none =>
          rw [if_pos (hmem.2 hy), Option.map_some, Option.map_some, htiming, hy, Option.or_none,
            Option.none_or]
        | some ref =>
          have hnot : y.timing ≠ none := fun h => by cases hy.symm.trans h
          rw [if_neg (mt hmem.1 hnot), Option.map_some, htiming, hy, Option.some_or, ← hy,
            ← htiming]
    · intro cell hcell
      obtain ⟨e, he, rfl⟩ := List.mem_map.1 hcell
      have hx := (mem_allCells ht hc).1 (List.mem_filter.1 he).1
      exact ⟨_, Catalog.face?_of_find? hx⟩

theorem timingMasters_linkCell? {id : TimingId} (e : n.linkCell? x id = some n') :
    n'.catalog.timingMasters = n.catalog.timingMasters := by
  obtain ⟨library, _, timing, -, -, -, rfl⟩ := linkCell?_eq_some e
  rw [reportAll_catalog]
  exact (SameCells.link n.catalog x id library.name timing).timingMasters

theorem timingMasters_linkFirst (n : Network) (x : CellId) (ids : List TimingId) :
    (n.linkFirst x ids).catalog.timingMasters = n.catalog.timingMasters := by
  induction ids with
  | nil => rfl
  | cons id ids ih =>
    rw [Network.linkFirst]
    cases e : n.linkCell? x id with
    | none => exact ih
    | some n' => exact timingMasters_linkCell? e

theorem timingMasters_relinkTiming {id : TimingId} {library : TimingLibrary}
    (hl : n.timingLibrary? id = some library) : ∃ m : Network, n.Arranges m ∧ n.Regroups m ∧
      m.catalog.timingMasters = n.catalog.timingMasters ∧
      (n.relinkTiming id).catalog = (m.recordTimingMasters id).catalog := by
  refine ⟨_, ?_, ?_, ?_, relinkTiming_catalog hl⟩
  · refine List.foldlRecOn (motive := fun acc : Network × Bool => n.Arranges acc.1) _ _ (.refl n)
      fun acc hacc cell _ => ?_
    cases e : acc.1.linkCell? cell id with
    | none => exact hacc
    | some m => exact hacc.trans (.linkCell? e)
  · refine List.foldlRecOn (motive := fun acc : Network × Bool => n.Regroups acc.1) _ _ .refl
      fun acc hacc cell _ => ?_
    cases e : acc.1.linkCell? cell id with
    | none => exact hacc
    | some m => exact hacc.trans (.linkCell? e)
  · refine List.foldlRecOn (motive := fun acc : Network × Bool =>
      acc.1.catalog.timingMasters = n.catalog.timingMasters) _ _ rfl fun acc hacc cell _ => ?_
    cases e : acc.1.linkCell? cell id with
    | none => exact hacc
    | some m => exact (timingMasters_linkCell? e).trans hacc

theorem catalog_loadMaster (n : Network) (library : LibraryId) (id : MasterId) (a : Master) :
    (∀ z, (n.loadMaster library id a).catalog.face? z = if z = ⟨n.catalog.count + 1⟩ then
      some { name := a.name, library, source := .physical id, timing := n.firstRef? a.name }
      else n.catalog.face? z) ∧
    (n.loadMaster library id a).catalog.timingMasters =
      (n.masterEntries id a.name).foldl (fun m e => m.insert e.1 e.2) n.catalog.timingMasters := by
  obtain ⟨m, hm, hload⟩ := loadMaster_eq n library id a
  generalize hc : n.catalog.buildCell library a.name (.physical id) (masterPorts n.db id) = c at hm
  generalize hn₁ : Network.groupCell { n with catalog := c } ⟨n.catalog.count + 1⟩ a.name = n₁ at hm
  have honly : n.Only n₁ := by
    rw [← hn₁]
    exact Only.trans ⟨_, _, _, _, _, rfl⟩ (only_groupCell ..)
  have hsame : c.SameCells n₁.catalog := by
    rw [← hn₁, groupCell_catalog]
    exact .groupBuses ..
  have hmasters : n₁.catalog.timingMasters = n.catalog.timingMasters := by
    rw [hsame.timingMasters, ← hc]
    exact (SameCells.addPorts ..).timingMasters
  have hentries : n₁.masterEntries id a.name = n.masterEntries id a.name := by
    rw [masterEntries, timingLibraries, honly.timing, masterEntries, timingLibraries]
  rw [recordMaster_eq, hentries] at hm
  have hface (z : CellId) : m.catalog.face? z =
      if z = ⟨n.catalog.count + 1⟩ then some { name := a.name, library, source := .physical id }
      else n.catalog.face? z := by
    rw [hm]
    refine (hsame.faces z).trans ?_
    rw [← hc, Catalog.face?_buildCell]
  have htiming : m.timing = n.timing := by
    rw [hm]
    exact honly.timing
  have hlibraries : m.timingLibraries = n.timingLibraries := by
    rw [timingLibraries, htiming, timingLibraries]
  rw [hload, hlibraries]
  refine ⟨fun z => ?_, ?_⟩
  · rw [face?_linkFirst ((hface _).trans (if_pos rfl)) rfl, hface]
    simp only [refIn?_congr htiming]
    split
    · rfl
    · rfl
  · rw [timingMasters_linkFirst, hm]
    simp only [Catalog.recordAll, hmasters]

def LinkedBy (f : String → Option TimingCellRef) (c : Catalog) : Prop :=
  ∀ ⦃x y⦄, c.face? x = some y → y.isLeaf = true → y.timing = f y.name

theorem LinkedBy.removeLibrary {f : String → Option TimingCellRef} {c : Catalog}
    (h : LinkedBy f c) (ht : c.Tidy) (id : LibraryId) : LinkedBy f (c.removeLibrary id) := by
  intro x y hx
  rw [ht.face?_removeLibrary, Option.filter_eq_some_iff] at hx
  exact h hx.1

theorem LinkedBy.loadMaster (h : LinkedBy n.firstRef? n.catalog) (library : LibraryId)
    (id : MasterId) (a : Master) : LinkedBy n.firstRef? (n.loadMaster library id a).catalog := by
  intro x y hx hleaf
  rw [(catalog_loadMaster ..).1] at hx
  split at hx
  · cases hx
    rfl
  · exact h hx hleaf

theorem linkedBy_loadMasters (h : LinkedBy n.firstRef? n.catalog) (library : LibraryId)
    (es : List (MasterId × Master)) : LinkedBy n.firstRef?
      (es.foldl (fun n e => n.loadMaster library e.1 e.2) n).catalog := by
  induction es generalizing n with
  | nil => exact h
  | cons e es ih =>
    have htiming : (n.loadMaster library e.1 e.2).timing = n.timing := (Loads.loadMaster ..).timing
    have hone := h.loadMaster library e.1 e.2
    rw [List.foldl_cons]
    generalize n.loadMaster library e.1 e.2 = n₁ at htiming hone ⊢
    have href : n.firstRef? = n₁.firstRef? := (funext (firstRef?_congr htiming)).symm
    rw [href] at hone ⊢
    exact ih hone

theorem linkedBy_loadLibrary (h : LinkedBy n.firstRef? n.catalog) (ht : n.catalog.Tidy)
    {id : LibId} {r : LibraryId} (e : n.loadLibrary id = .ok (r, n')) :
    LinkedBy n'.firstRef? n'.catalog := by
  have htiming := (Loads.loadLibrary e).1.timing
  obtain ⟨lib, -, e⟩ := bind_eq_ok.1 e
  obtain ⟨-, rfl⟩ := Prod.mk.inj (pure_eq_ok.1 e)
  rw [funext (firstRef?_congr htiming)]
  refine linkedBy_loadMasters (n := { n with catalog := _ }) ?_ _ _
  have hout : LinkedBy n.firstRef? (n.catalog.without (.physical id)) := by
    unfold Catalog.without
    split
    · exact h.removeLibrary ht _
    · exact h
  exact hout

structure SameLeaves (c c' : Catalog) : Prop where
  leaves : ∀ ⦃x y⦄, y.isLeaf = true → (c'.face? x = some y ↔ c.face? x = some y)
  timingMasters : ∀ k, c'.timingMasters.find? k = c.timingMasters.find? k

namespace SameLeaves

variable {c c' c'' : Catalog} {db : Database}

theorem refl (c : Catalog) : SameLeaves c c := ⟨fun _ _ _ => Iff.rfl, fun _ => rfl⟩

theorem trans (h : SameLeaves c c') (h' : SameLeaves c' c'') : SameLeaves c c'' :=
  ⟨fun _ _ hy => (h'.leaves hy).trans (h.leaves hy),
    fun k => (h'.timingMasters k).trans (h.timingMasters k)⟩

theorem of_sameCells (h : c.SameCells c') : SameLeaves c c' := by
  refine ⟨fun x y _ => ?_, fun k => ?_⟩
  · rw [h.faces x]
  · rw [h.timingMasters]

theorem addCell (ht : c.Tidy) (library : LibraryId) (name : String) {source : CellSource}
    (hs : ∀ m, source ≠ .physical m) : SameLeaves c (c.addCell library name source).2 := by
  refine ⟨fun x y hy => ?_, fun _ => rfl⟩
  rw [Catalog.face?_addCell]
  split
  · next hx =>
    have hfresh : c.face? x = none := by
      rw [hx, Catalog.face?, ht.cells.find?_fresh rfl, Option.map_none]
    rw [hfresh]
    constructor
    · intro h
      cases h
      cases source with
      | physical m => exact absurd rfl (hs m)
      | module | design => cases hy
    · intro h
      cases h
  · exact Iff.rfl

theorem buildCell (ht : c.Tidy) (library : LibraryId) (name : String) (source : CellSource)
    (hs : ∀ m, source ≠ .physical m) (ps : List PortSpec) :
    SameLeaves c (c.buildCell library name source ps) :=
  (addCell ht library name hs).trans (of_sameCells (.addPorts ..))

theorem without (h : c.Mirrors db) (hi : c.Intact) {s : LibrarySource}
    (hs : ∀ lib, s ≠ .physical lib) : SameLeaves c (c.without s) := by
  have hhome (m : MasterId) : db.home? (.physical m) ≠ some s := by
    intro e
    obtain ⟨a, -, ha⟩ := Option.map_eq_some_iff.1 e
    exact hs a.lib ha.symm
  refine ⟨fun x y hy => ?_, fun k => ?_⟩
  · rw [h.face?_without, Option.filter_eq_some_iff, and_iff_left_iff_imp]
    intro _
    refine decide_eq_true ?_
    cases hsource : y.source with
    | physical m => exact hhome m
    | module | design => simp [Cell.isLeaf, hsource] at hy
  · rw [h.timingMasters_without hi]
    cases c.timingMasters.find? k with
    | none => rfl
    | some m => rw [Option.filter_some, if_pos (decide_eq_true (hhome m))]

theorem linkedBy {f : String → Option TimingCellRef} (h : SameLeaves c c') (hc : LinkedBy f c) :
    LinkedBy f c' := fun _ _ hx hleaf => hc ((h.leaves hleaf).1 hx) hleaf

theorem setBoundaries (c : Catalog) (m : OrderedMap (ModuleId × String) ModBTermId) :
    SameLeaves c { c with boundaries := m } := of_sameCells (.setBoundaries c m)

theorem addLibrary (c : Catalog) (name : String) (s : LibrarySource) :
    SameLeaves c (c.addLibrary name s).2 := ⟨fun _ _ _ => Iff.rfl, fun _ => rfl⟩

theorem groupCell (n : Network) (cell : CellId) (name : String) :
    SameLeaves n.catalog (n.groupCell cell name).catalog := by
  rw [groupCell_catalog]
  exact of_sameCells (.groupBuses ..)

theorem groupCells (n : Network) (cells : List (CellId × String)) :
    SameLeaves n.catalog (cells.foldl (fun n e => n.groupCell e.1 e.2) n).catalog :=
  List.foldlRecOn (motive := fun m : Network => SameLeaves n.catalog m.catalog) _ _ (refl _)
    fun m hm e _ => hm.trans (groupCell m e.1 e.2)

theorem loadTopCell (hm : n.catalog.Mirrors n.db) (hi : n.catalog.Intact) (d : Design) :
    SameLeaves n.catalog (n.loadTopCell d).catalog := by
  have hout : SameLeaves n.catalog (n.catalog.without .design) :=
    without hm hi fun _ => LibrarySource.noConfusion
  have ht : ((n.catalog.without .design).addLibrary d.name .design).2.Tidy :=
    (hm.without .design).1.mirrors.tidy.addLibrary d.name .design
  have hbuilt := buildCell ht ⟨(n.catalog.without .design).count + 1⟩ d.name .design
    (fun _ => CellSource.noConfusion) (topPorts d)
  rw [loadTopCell_eq]
  exact (hout.trans ((addLibrary ..).trans hbuilt)).trans (groupCell { n with catalog := _ } _ _)

theorem loadModuleCells (ht : n.catalog.Tidy) (e : n.loadModuleCells d = .ok n') :
    SameLeaves n.catalog n'.catalog := by
  obtain ⟨⟨c', added⟩, hcells, e⟩ := bind_eq_ok.1 e
  cases pure_eq_ok.1 e
  have hfold : SameLeaves n.catalog c' ∧ c'.Tidy := by
    refine foldlM_ok_induct (motive := fun acc : Catalog × List (CellId × String) =>
      SameLeaves n.catalog acc.1 ∧ acc.1.Tidy) (fun acc e acc' hacc hstep => ?_)
      ⟨addLibrary .., ht.addLibrary n.settings.moduleLibrary .modules⟩ hcells
    dsimp only at hstep
    split at hstep
    · cases pure_eq_ok.1 hstep
      exact hacc
    · obtain ⟨m, -, hstep⟩ := bind_eq_ok.1 hstep
      cases pure_eq_ok.1 hstep
      have hbuilt := buildCell hacc.2 ⟨n.catalog.count + 1⟩ m.name (.module e.2.master)
        (fun _ => CellSource.noConfusion) (modulePorts d e.2.master)
      simp only [addModuleCell_eq]
      exact ⟨hacc.1.trans hbuilt, hacc.2.buildCell ..⟩
  exact hfold.1.trans (groupCells { n with catalog := c' } added)

theorem loadDesign (hm : n.catalog.Mirrors n.db) (hdb : n.db.WellFormed)
    (hn : n.catalog.Stocked n.db) (e : n.loadDesign = .ok n') :
    SameLeaves n.catalog n'.catalog := by
  obtain ⟨d, n₁, hd, hmodules, rfl⟩ := loadDesign_eq_ok e
  have htop : SameLeaves n.catalog (n.loadTopCell d).catalog := loadTopCell hm hn.intact d
  obtain ⟨-, -, rt, -⟩ := rebuilds_loadTopCell hm d
  have hit := (stocked_loadTopCell hm hdb hd hn).2.1.intact
  rw [withoutModules_eq] at hmodules
  generalize n.loadTopCell d = t at htop rt hit hmodules
  have hout : SameLeaves t.catalog (t.catalog.without .modules) :=
    without rt.mirrors hit fun _ => LibrarySource.noConfusion
  have hrest : SameLeaves n.catalog n₁.catalog := by
    rcases hmodules with ⟨-, e₁⟩ | ⟨-, rfl⟩
    · have ht := (rt.mirrors.without .modules).1.mirrors.tidy
      exact htop.trans (hout.trans
        (loadModuleCells (n := { t with catalog := t.catalog.without .modules }) ht e₁))
    · exact htop.trans hout
  have hm := finishDesign_catalog n₁ d
  rw [hm]
  exact hrest.trans (setBoundaries ..)

end SameLeaves

/-- The cell of a master is linked to the first timing library that has a cell of its name. -/
def Linked (n : Network) : Prop := LinkedBy n.firstRef? n.catalog

theorem Linked.of_leaves (h : n.Linked) (hl : SameLeaves n.catalog n'.catalog)
    (htiming : n'.timing = n.timing) : n'.Linked := by
  rw [Linked, funext (firstRef?_congr htiming)]
  exact hl.linkedBy h

theorem housed (hm : n.catalog.Mirrors n.db) : Housed n.catalog := by
  intro x y hx
  obtain ⟨y, hy, rfl⟩ := Catalog.exists_of_face? hx
  obtain ⟨s, -, hl⟩ := hm.home (Catalog.cellLabel?_of_find? hy)
  obtain ⟨a, ha, -⟩ := Option.map_eq_some_iff.1 hl
  exact ⟨a, ha⟩

theorem Linked.of_relink (hm : n.catalog.Mirrors n.db) {f : String → Option TimingCellRef}
    {id : TimingId} (h : LinkedBy f n.catalog)
    (hfirst : ∀ name, n.firstRef? name = (f name).or (n.refIn? id name)) :
    (n.relinkTiming id).Linked := by
  have htiming : (n.relinkTiming id).timing = n.timing := (Arranges.relinkTiming n id).only.timing
  intro x y' hx hleaf
  rw [face?_relinkTiming hm.tidy (housed hm)] at hx
  obtain ⟨y, hy, rfl⟩ := Option.map_eq_some_iff.1 hx
  rw [firstRef?_congr htiming, hfirst]
  exact congrArg (Option.or · _) (h hy hleaf)

theorem Linked.relinkTiming (h : n.Linked) (hm : n.catalog.Mirrors n.db) (id : TimingId) :
    (n.relinkTiming id).Linked := by
  refine .of_relink hm h fun name => ?_
  cases href : n.firstRef? name with
  | none => rw [refIn?_eq_none_of_firstRef? href, Option.or_none]
  | some ref => rw [Option.some_or]

theorem refIn?_addTiming (library : TimingLibrary) {t : TimingId}
    (ht : t ≠ ⟨n.timing.length⟩) (name : String) :
    Network.refIn? { n with timing := n.timing ++ [library] } t name = n.refIn? t name := by
  have hlibrary : (n.timing ++ [library])[t.index]? = n.timing[t.index]? := by
    rcases Nat.lt_trichotomy t.index n.timing.length with hlt | heq | hgt
    · exact List.getElem?_append_left hlt
    · obtain ⟨i⟩ := t
      exact absurd (congrArg TimingId.mk heq) ht
    · rw [List.getElem?_eq_none, List.getElem?_eq_none (Nat.le_of_lt hgt)]
      rw [List.length_append, List.length_singleton]
      exact hgt
  rw [refIn?, timingLibrary?, hlibrary, refIn?, timingLibrary?]

theorem refFrom?_addTiming {k : Nat} (hk : k ≤ n.timing.length) (library : TimingLibrary)
    (name : String) :
    Network.refFrom? { n with timing := n.timing ++ [library] } k name = (n.refFrom? k name).or
      (Network.refIn? { n with timing := n.timing ++ [library] } ⟨n.timing.length⟩ name) := by
  have hlast : k + (n.timing.drop k).length = n.timing.length := by
    rw [List.length_drop, Nat.add_sub_cancel' hk]
  rw [refFrom?, List.drop_append_of_le_length hk, refAmong?_append, hlast, refFrom?]
  simp [refAmong?, refIn?, timingLibrary?]

theorem Linked.loadTiming (h : n.Linked) (hm : n.catalog.Mirrors n.db) (library : TimingLibrary) :
    (n.loadTiming library).2.Linked := by
  refine .of_relink (n := { n with timing := n.timing ++ [library] }) hm h fun name => ?_
  rw [firstRef?_eq_refFrom?, firstRef?_eq_refFrom?, refFrom?_addTiming (Nat.zero_le _)]

theorem timing_loadDesign (e : n.loadDesign = .ok n') : n'.timing = n.timing := by
  obtain ⟨d, n₁, -, hmodules, rfl⟩ := loadDesign_eq_ok e
  have htop : (n.loadTopCell d).timing = n.timing := (Loads.loadTopCell n d).timing
  rw [withoutModules_eq] at hmodules
  generalize n.loadTopCell d = t at htop hmodules
  have hrest : n₁.timing = t.timing := by
    rcases hmodules with ⟨-, e₁⟩ | ⟨-, rfl⟩
    · exact (Loads.loadModuleCells e₁).timing
    · rfl
  exact hrest.trans htop

theorem linked_of_loadDatabase {db : Database} (hdb : db.WellFormed)
    (e : n.loadDatabase db = .ok n') : n'.Linked := by
  have hrun := loadDatabase_induct (motive := Linked) hdb (fun x y hx => by cases hx)
    (fun m _ _ _ hm h e' => linkedBy_loadLibrary h hm.mirrors.tidy e')
    (fun m id _ h x y hx hleaf => by
      rw [face?_recordTimingMasters] at hx
      rw [firstRef?_congr (Arranges.recordTimingMasters m id).only.timing]
      exact h hx hleaf) e
  obtain ⟨m, hm, h, hdesign⟩ := hrun
  obtain rfl : m.db = db := hm.only.db
  rcases hdesign with ⟨-, e⟩ | ⟨-, rfl⟩
  · exact h.of_leaves (.loadDesign hm.mirrors hdb hm.stocked e) (timing_loadDesign e)
  · exact h

theorem Change.sameLeaves (s : n.Change n') (hi : n.catalog.Intact) :
    SameLeaves n.catalog n'.catalog ∧ n'.timing = n.timing := by
  cases s with
  | @topTerminal name direction sig io id d d' hd hmade htypes =>
    obtain ⟨c, hc, -, hsame⟩ :=
      setTopPort_intact (n := n.withDesign (d'.setBTermTypes id sig io)) hi name direction
    rw [hc]
    exact ⟨.of_sameCells hsame, rfl⟩
  | bundle e => exact ⟨.of_sameCells (.bundle e), rfl⟩
  | destroyModBTerm => exact ⟨⟨fun _ _ _ => Iff.rfl, fun _ => rfl⟩, rfl⟩
  | _ => exact ⟨.refl _, rfl⟩

theorem Changes.sameLeaves (hrun : n.Changes n') (h : n.Stored) :
    SameLeaves n.catalog n'.catalog ∧ n'.timing = n.timing := by
  induction hrun with
  | refl => exact ⟨.refl _, rfl⟩
  | tail hrun s ih =>
    obtain ⟨hleaves, htiming⟩ := ih
    obtain ⟨hleaves', htiming'⟩ := s.sameLeaves (Changes.stored hrun h).stocked.intact
    exact ⟨hleaves.trans hleaves', htiming'.trans htiming⟩

theorem Query.same (s : n.Query n') : n'.catalog = n.catalog ∧ n'.timing = n.timing := by
  obtain ⟨_, _, _, rfl⟩ := s.exists_eq
  exact ⟨rfl, rfl⟩

theorem Step.load_or_sameLeaves (s : n.Step n') (h : n.Stored) :
    n.Load n' ∨ SameLeaves n.catalog n'.catalog ∧ n'.timing = n.timing := by
  cases s with
  | load s => exact .inl s
  | edit s => exact .inr (s.changes.sameLeaves h)
  | query s => exact .inr ⟨s.same.1 ▸ .refl _, s.same.2⟩

theorem reload_eq_ok (e : n.reload = .ok n') :
    n.loadDesign = .ok n' ∨ n' = n.warn "reload requested with no design block" := by
  unfold Network.reload at e
  split at e
  · exact .inl e
  · exact .inr (pure_eq_ok.1 e).symm

theorem Load.linked (s : n.Load n') (hdb : n.db.WellFormed) (hm : n.catalog.Mirrors n.db)
    (hn : n.catalog.Stocked n.db) (h : n.Linked) : n'.Linked := by
  have hdesign {n' : Network} (e : n.loadDesign = .ok n') : n'.Linked :=
    h.of_leaves (.loadDesign hm hdb hn e) (timing_loadDesign e)
  cases s with
  | loadDatabase hdb' e => exact linked_of_loadDatabase hdb'.wellFormed e
  | loadLibrary e => exact linkedBy_loadLibrary h hm.tidy e
  | loadTiming library => exact h.loadTiming hm library
  | relinkTiming id => exact h.relinkTiming hm id
  | loadDesign e => exact hdesign e
  | reload e =>
    rcases reload_eq_ok e with e | rfl
    · exact hdesign e
    · exact h
  | teardown =>
    intro x y hx
    cases hx

end Network
end DesignView
