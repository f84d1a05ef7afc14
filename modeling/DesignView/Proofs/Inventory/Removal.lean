import DesignView.Proofs.Catalog.Intact
import DesignView.Proofs.Inventory.Holds

/-!
Removal of a library from an inventory. The cells of the library go one after the other, each with
the ports that it has by name and with what the tables say of them; in the end the inventory holds
what the catalog says without the library.
-/

namespace DesignView

open OrderedMap (erase)

def PortSource.mterm? : PortSource → Option MTermId
  | .physical t => some t
  | .moduleBoundary _ | .design | .group => none

def PortSource.modBTerm? : PortSource → Option ModBTermId
  | .moduleBoundary b => some b
  | .physical _ | .design | .group => none

theorem PortSource.mem_mterm? {s : PortSource} {t : MTermId} :
    t ∈ s.mterm?.toList ↔ s = .physical t := by
  cases s <;> simp [mterm?, eq_comm]

theorem PortSource.mem_modBTerm? {s : PortSource} {b : ModBTermId} :
    b ∈ s.modBTerm?.toList ↔ s = .moduleBoundary b := by
  cases s <;> simp [modBTerm?, eq_comm]

namespace Inventory

variable {s : Inventory} {c : Catalog}

theorem removePort_eq {p : PortId} {q : Port} (h : s.ports.find? p = some q) :
    s.removePort p = { s with
      ports := s.ports.erase p
      mtermPorts := q.source.mterm?.toList.foldl erase s.mtermPorts
      boundaryPorts := q.source.modBTerm?.toList.foldl erase s.boundaryPorts } := by
  unfold removePort
  rw [h]
  dsimp only
  cases q.source <;> rfl

theorem foldl_removePort {es : List (PortId × Port)} (hnodup : (es.map (·.1)).Nodup)
    (hes : ∀ e ∈ es, s.ports.find? e.1 = some e.2) :
    (es.map (·.1)).foldl removePort s = { s with
      ports := (es.map (·.1)).foldl erase s.ports
      mtermPorts := (es.flatMap fun e => e.2.source.mterm?.toList).foldl erase s.mtermPorts
      boundaryPorts :=
        (es.flatMap fun e => e.2.source.modBTerm?.toList).foldl erase s.boundaryPorts } := by
  induction es generalizing s with
  | nil => rfl
  | cons e es ih =>
    obtain ⟨hnew, hnodup⟩ := List.nodup_cons.1 hnodup
    have hrest : ∀ e' ∈ es, (s.ports.erase e.1).find? e'.1 = some e'.2 := by
      intro e' he'
      rw [OrderedMap.find?_erase, if_neg, hes e' (List.mem_cons_of_mem e he')]
      exact fun h => hnew (List.mem_map.2 ⟨e', he', h⟩)
    simp only [List.map_cons, List.foldl_cons, List.flatMap_cons, List.foldl_append]
    rw [removePort_eq (hes e List.mem_cons_self), ih hnodup hrest]

end Inventory

namespace Catalog

variable {c : Catalog} {x : CellId} {y : Cell}

def dropCells (c : Catalog) (xs : List CellId) : Catalog :=
  { c with
    cells := c.cells.filter fun x _ => x ∉ xs
    ports := c.ports.filter fun _ q => q.cell ∉ xs
    boundaryPorts := c.boundaryPorts.filter fun b _ =>
      c.ports.entries.all fun e => e.2.cell ∉ xs || e.2.source ≠ .moduleBoundary b
    timingMasters := c.timingMasters.filter fun _ m =>
      c.cells.entries.all fun e => e.1 ∉ xs || e.2.source ≠ .physical m }

theorem Tidy.dropCells (h : c.Tidy) (xs : List CellId) : (c.dropCells xs).Tidy :=
  ⟨h.libraries, h.cells.filter fun x _ => x ∉ xs, h.ports.filter fun _ q => q.cell ∉ xs,
    OrderedMap.keys_nodup_filter h.boundaryPorts _⟩

theorem all_not_mem_cons {α : Type} (es : List α) (cell : α → CellId) (r : α → Bool) (x : CellId)
    (xs : List CellId) : (es.all fun e => cell e ∉ x :: xs || r e) =
      (((es.filter fun e => cell e ∉ [x]).all fun e => cell e ∉ xs || r e) &&
        es.all fun e => cell e ∉ [x] || r e) := by
  rw [Bool.eq_iff_iff]
  simp only [List.all_filter, Bool.and_eq_true, List.all_eq_true, ← forall_and]
  refine forall_congr' fun e => ?_
  by_cases he : cell e = x <;> simp [he]

theorem dropCells_nil (c : Catalog) : c.dropCells [] = c := by
  have hall {α : Type} (es : List α) : (es.all fun _ => true) = true :=
    List.all_eq_true.2 fun _ _ => rfl
  simp [dropCells, OrderedMap.filter, hall]

theorem dropCells_cons (c : Catalog) (x : CellId) (xs : List CellId) :
    c.dropCells (x :: xs) = (c.dropCells [x]).dropCells xs := by
  unfold dropCells
  simp only [OrderedMap.filter, List.filter_filter, Catalog.mk.injEq, OrderedMap.mk.injEq,
    true_and]
  refine ⟨?_, ?_, List.filter_congr fun e _ => all_not_mem_cons .., List.filter_congr fun e _ =>
    all_not_mem_cons ..⟩
  · refine List.filter_congr fun e _ => ?_
    by_cases he : e.1 = x <;> simp [he]
  · refine List.filter_congr fun e _ => ?_
    by_cases he : e.2.cell = x <;> simp [he]

theorem find?_dropCells (h : c.Tidy) (hx : c.cells.find? x = some y) {xs : List CellId}
    (hnot : x ∉ xs) : (c.dropCells xs).cells.find? x = some y := by
  refine (OrderedMap.find?_filter h.cells.nodup (fun x _ => x ∉ xs) x).trans ?_
  rw [hx, Option.filter_some, if_pos (decide_eq_true hnot)]

end Catalog

namespace Inventory

variable {s : Inventory} {c : Catalog} {x : CellId} {y : Cell}

theorem values_portNames (c : Catalog) (x : CellId) :
    (c.portNames x).values = (c.portsOf x).map (·.1) := OrderedMap.values_names ..

theorem HoldsCells.find?_storedCell (h : s.HoldsCells c) (hx : c.cells.find? x = some y) :
    s.cells.find? x = some (c.storedCell x y) := by
  rw [h.cells, OrderedMap.find?_mapValues, hx, Option.map_some]

theorem cellFor?_forgetCell {source : CellSource} (h : s.cellFor? source = some x)
    (u : CellSource) :
    (s.forgetCell x source).cellFor? u = if u = source then none else s.cellFor? u := by
  cases source with
  | physical master => cases u <;> simp [forgetCell, cellFor?, OrderedMap.find?_erase]
  | module module => cases u <;> simp [forgetCell, cellFor?, OrderedMap.find?_erase]
  | design =>
    have htop : s.topCell? = some x := h
    cases u <;> simp [forgetCell, cellFor?, htop]

def dropPorts (s : Inventory) (x : CellId) (es : List (PortId × Port)) : Inventory :=
  { s with
    cells := s.cells.erase x
    ports := (es.map (·.1)).foldl erase s.ports
    mtermPorts := (es.flatMap fun e => e.2.source.mterm?.toList).foldl erase s.mtermPorts
    boundaryPorts := (es.flatMap fun e => e.2.source.modBTerm?.toList).foldl erase s.boundaryPorts }

theorem removeCell_eq (h : s.HoldsCells c) (ht : c.Tidy) (hx : c.cells.find? x = some y) :
    s.removeCell x = (s.dropPorts x (c.portsOf x)).forgetCell x y.source := by
  have hnodup : ((c.portsOf x).map (·.1)).Nodup :=
    ht.ports.nodup.sublist (List.filter_sublist.map _)
  have hes : ∀ e ∈ c.portsOf x, s.ports.find? e.1 = some e.2 := by
    intro e he
    rw [h.ports]
    exact OrderedMap.find?_of_mem ht.ports.nodup (List.mem_filter.1 he).1
  unfold removeCell
  rw [h.find?_storedCell hx]
  dsimp only [Catalog.storedCell]
  rw [values_portNames, foldl_removePort (s := { s with cells := s.cells.erase x }) hnodup hes,
    dropPorts]

theorem exists_forgetCell (s : Inventory) (x : CellId) (source : CellSource) :
    ∃ masters modules top timing, s.forgetCell x source = { s with
      masterCells := masters, moduleCells := modules, topCell? := top
      timingMasters := timing } := by
  cases source with
  | physical | module => exact ⟨_, _, _, _, rfl⟩
  | design =>
    unfold forgetCell
    dsimp only
    split
    · exact ⟨_, _, _, _, rfl⟩
    · exact ⟨_, _, _, _, rfl⟩

theorem timingMasters_forgetCell (s : Inventory) (x : CellId) (source : CellSource) :
    (s.forgetCell x source).timingMasters =
      s.timingMasters.filter fun _ m => source ≠ .physical m := by
  cases source with
  | physical master =>
    refine congrArg OrderedMap.mk (List.filter_congr fun e _ => ?_)
    simp [eq_comm]
  | module => simp [forgetCell, OrderedMap.filter]
  | design =>
    unfold forgetCell
    dsimp only
    split <;> simp [OrderedMap.filter]

theorem find_dropped_iff {κ α σ : Type} [DecidableEq κ] {m m' : OrderedMap κ α}
    {P : σ → α → Prop} {D : κ → α → Prop}
    (hm : ∀ x a, m'.find? x = some a ↔ m.find? x = some a ∧ ¬D x a) {look : σ → Option κ}
    (hlook : ∀ u x, look u = some x ↔ ∃ a, m.find? x = some a ∧ P u a) (u : σ) {gone : Prop}
    [Decidable gone] (hgone : gone ↔ ∃ x a, m.find? x = some a ∧ P u a ∧ D x a) (x : κ) :
    (if gone then none else look u) = some x ↔ ∃ a, m'.find? x = some a ∧ P u a := by
  simp only [hm]
  split
  · next h =>
    refine ⟨fun h => (by cases h), ?_⟩
    rintro ⟨a, ⟨ha, hkept⟩, hu⟩
    obtain ⟨x', a', ha', hu', hdropped⟩ := hgone.1 h
    obtain rfl : x = x' := Option.some.inj
      (((hlook u x).2 ⟨a, ha, hu⟩).symm.trans ((hlook u x').2 ⟨a', ha', hu'⟩))
    obtain rfl : a = a' := Option.some.inj (ha.symm.trans ha')
    exact absurd hdropped hkept
  · next h =>
    rw [hlook]
    constructor
    · rintro ⟨a, ha, hu⟩
      exact ⟨a, ⟨ha, fun hdropped => h (hgone.2 ⟨x, a, ha, hu, hdropped⟩)⟩, hu⟩
    · rintro ⟨a, ⟨ha, -⟩, hu⟩
      exact ⟨a, ha, hu⟩

theorem HoldsCells.removeCell (h : s.HoldsCells c) (ht : c.Tidy) (hx : c.cells.find? x = some y)
    (hout : ∀ a, c.libraries.find? y.library ≠ some a) :
    (s.removeCell x).HoldsCells (c.dropCells [x]) := by
  have hcell (e : CellId × Cell) (he : e ∈ c.cells.entries) (hex : e.1 = x) : e.2 = y := by
    have hfind := OrderedMap.find?_of_mem ht.cells.nodup he
    rw [hex, hx] at hfind
    exact (Option.some.inj hfind).symm
  have hlibraries : s.libraries = c.libraries.mapValues (c.dropCells [x]).storedLibrary := by
    rw [h.libraries]
    refine OrderedMap.mapValues_congr fun l a hl => ?_
    have hnames : (c.dropCells [x]).cellNames l = c.cellNames l := by
      refine OrderedMap.names_filter (m := c.cells) (q := fun x' _ => x' ∉ [x])
        fun x' y' hy hyl => decide_eq_true fun hin => ?_
      obtain rfl : y' = y := hcell (x', y') hy (List.mem_singleton.1 hin)
      refine hout a ?_
      rw [of_decide_eq_true hyl]
      exact OrderedMap.find?_of_mem ht.libraries.nodup hl
    rw [Catalog.storedLibrary, Catalog.storedLibrary, hnames]
  have hcells : s.cells.erase x =
      (c.cells.filter fun x' _ => x' ∉ [x]).mapValues (c.dropCells [x]).storedCell := by
    have hsame : c.cells.erase x = c.cells.filter fun x' _ => x' ∉ [x] := by
      rw [OrderedMap.erase, OrderedMap.filter]
      simp
    rw [h.cells, OrderedMap.erase_mapValues, hsame]
    refine OrderedMap.mapValues_congr fun x' y' hy => ?_
    have hne : x' ∉ [x] := of_decide_eq_true (List.mem_filter.1 hy).2
    have hnames : (c.dropCells [x]).portNames x' = c.portNames x' := by
      refine OrderedMap.names_filter (m := c.ports) (q := fun _ q => q.cell ∉ [x]) fun p q _ hq =>
        decide_eq_true ?_
      rw [of_decide_eq_true hq]
      exact hne
    rw [Catalog.storedCell, Catalog.storedCell, hnames]
  have hports : ((c.portsOf x).map (·.1)).foldl erase s.ports =
      c.ports.filter fun _ q => q.cell ∉ [x] := by
    rw [OrderedMap.foldl_erase, h.ports, OrderedMap.filter, OrderedMap.filter,
      OrderedMap.mk.injEq]
    refine List.filter_congr fun e he => decide_eq_decide.2 (not_congr ?_)
    rw [List.mem_map, List.mem_singleton]
    constructor
    · rintro ⟨e', he', hsame⟩
      obtain ⟨he', hcell⟩ := List.mem_filter.1 he'
      have hfind := OrderedMap.find?_of_mem ht.ports.nodup he
      rw [← hsame, OrderedMap.find?_of_mem ht.ports.nodup he'] at hfind
      rw [← Option.some.inj hfind]
      exact of_decide_eq_true hcell
    · intro hcell
      exact ⟨e, List.mem_filter.2 ⟨he, decide_eq_true hcell⟩, rfl⟩
  have hmem {t : PortId × Port} :
      t ∈ c.portsOf x ↔ c.ports.find? t.1 = some t.2 ∧ t.2.cell = x := by
    rw [OrderedMap.find?_eq_some_iff ht.ports.nodup, Catalog.portsOf, List.mem_filter,
      decide_eq_true_eq]
  have hterms (t : MTermId) (p : PortId) :
      (((c.portsOf x).flatMap fun e => e.2.source.mterm?.toList).foldl erase
        s.mtermPorts).find? t = some p ↔
          ∃ q, (c.dropCells [x]).ports.find? p = some q ∧ q.source = .physical t := by
    rw [OrderedMap.find?_foldl_erase]
    refine find_dropped_iff (P := fun t (q : Port) => q.source = .physical t)
      (D := fun _ q => q.cell = x) (fun p q => ?_) h.mtermPorts t ?_ p
    · have hfind := OrderedMap.find?_filter ht.ports.nodup (fun _ q => q.cell ∉ [x]) p
      rw [Catalog.dropCells, hfind, Option.filter_eq_some_iff, decide_eq_true_eq,
        List.mem_singleton]
    · rw [List.mem_flatMap]
      simp only [PortSource.mem_mterm?, hmem, Prod.exists]
      exact exists_congr fun p => exists_congr fun q => by tauto
  have hboundary : ((c.portsOf x).flatMap fun e => e.2.source.modBTerm?.toList).foldl erase
      s.boundaryPorts = (c.dropCells [x]).boundaryPorts := by
    rw [OrderedMap.foldl_erase, h.boundaryPorts]
    refine congrArg OrderedMap.mk (List.filter_congr fun e _ => ?_)
    rw [Bool.eq_iff_iff, decide_eq_true_eq, List.all_eq_true, List.mem_flatMap]
    simp only [PortSource.mem_modBTerm?, Catalog.portsOf, List.mem_filter, decide_eq_true_eq,
      Bool.or_eq_true, List.mem_singleton, not_exists, not_and, and_imp]
    exact forall_congr' fun q => by tauto
  have hfor (source : CellSource) (x' : CellId) : (s.removeCell x).cellFor? source = some x' ↔
      ∃ y', (c.dropCells [x]).cells.find? x' = some y' ∧ y'.source = source := by
    have hthis : (s.dropPorts x (c.portsOf x)).cellFor? y.source = some x :=
      (h.cellFor ..).2 ⟨y, hx, rfl⟩
    rw [removeCell_eq h ht hx, cellFor?_forgetCell hthis]
    refine find_dropped_iff (P := fun u (z : Cell) => z.source = u) (D := fun z _ => z = x)
      (fun z w => ?_) h.cellFor source ?_ x'
    · have hfind := OrderedMap.find?_filter ht.cells.nodup (fun z _ => z ∉ [x]) z
      rw [Catalog.dropCells, hfind, Option.filter_eq_some_iff, decide_eq_true_eq,
        List.mem_singleton]
    · constructor
      · rintro rfl
        exact ⟨x, y, hx, rfl, rfl⟩
      · rintro ⟨_, z, hz, rfl, rfl⟩
        rw [Option.some.inj (hz.symm.trans hx)]
  have hmasters : (s.removeCell x).timingMasters = (c.dropCells [x]).timingMasters := by
    have hkept (m : MasterId) : (c.cells.entries.all fun e =>
        e.1 ∉ [x] || e.2.source ≠ .physical m) = decide (y.source ≠ .physical m) := by
      rw [Bool.eq_iff_iff, List.all_eq_true, decide_eq_true_eq]
      simp only [Bool.or_eq_true, decide_eq_true_eq, List.mem_singleton]
      constructor
      · intro hall
        exact (hall (x, y) (OrderedMap.mem_of_find? hx)).resolve_left (not_not_intro rfl)
      · intro hne e he
        by_cases hex : e.1 = x
        · exact .inr (hcell e he hex ▸ hne)
        · exact .inl hex
    have hsame : (s.dropPorts x (c.portsOf x)).timingMasters = c.timingMasters := h.timingMasters
    rw [removeCell_eq h ht hx, timingMasters_forgetCell, hsame]
    exact congrArg OrderedMap.mk (List.filter_congr fun e _ => (hkept e.2).symm)
  obtain ⟨masters, modules, top, timing, hs⟩ :=
    exists_forgetCell (s.dropPorts x (c.portsOf x)) x y.source
  rw [removeCell_eq h ht hx, hs] at hfor hmasters ⊢
  exact ⟨h.count, hlibraries, hcells, hports, hfor, hterms, hboundary, h.boundaries,
    h.boundaryNames, hmasters⟩

theorem libraryFor?_removeCell (h : s.HoldsCells c) (ht : c.Tidy)
    (hx : c.cells.find? x = some y) (u : LibrarySource) :
    (s.removeCell x).libraryFor? u = s.libraryFor? u := by
  obtain ⟨_, _, _, _, hs⟩ := exists_forgetCell (s.dropPorts x (c.portsOf x)) x y.source
  rw [removeCell_eq h ht hx, hs]
  rfl

theorem HoldsCells.removeCells (h : s.HoldsCells c) (ht : c.Tidy) {xs : List CellId}
    (hnodup : xs.Nodup) (hxs : ∀ x ∈ xs, ∃ y, c.cells.find? x = some y ∧
      ∀ a, c.libraries.find? y.library ≠ some a) :
    (xs.foldl Inventory.removeCell s).HoldsCells (c.dropCells xs) ∧
      ∀ u, (xs.foldl Inventory.removeCell s).libraryFor? u = s.libraryFor? u := by
  induction xs generalizing s c with
  | nil => exact ⟨(Catalog.dropCells_nil c).symm ▸ h, fun _ => rfl⟩
  | cons x xs ih =>
    obtain ⟨hnew, hnodup⟩ := List.nodup_cons.1 hnodup
    obtain ⟨y, hx, hout⟩ := hxs x List.mem_cons_self
    obtain ⟨hcells, htables⟩ := ih (h.removeCell ht hx hout) (ht.dropCells [x]) hnodup
      fun x' hx' => by
        obtain ⟨y', hy', hout'⟩ := hxs x' (List.mem_cons_of_mem x hx')
        have hne : x' ∉ [x] := fun hin => hnew (List.mem_singleton.1 hin ▸ hx')
        exact ⟨y', Catalog.find?_dropCells ht hy' hne, hout'⟩
    rw [List.foldl_cons, Catalog.dropCells_cons]
    exact ⟨hcells, fun u => (htables u).trans (libraryFor?_removeCell h ht hx u)⟩

end Inventory

namespace Catalog

variable {c : Catalog} {id : LibraryId}

theorem mem_map_cellsOf (ht : c.Tidy) {x : CellId} :
    x ∈ (c.cellsOf id).map (·.1) ↔ ((c.cells.find? x).any fun y => y.library = id) = true := by
  rw [List.mem_map, Option.any_eq_true (fun y : Cell => decide (y.library = id))]
  constructor
  · rintro ⟨⟨x, y⟩, he, rfl⟩
    obtain ⟨hx, hl⟩ := (mem_cellsOf ht).1 he
    exact ⟨y, hx, decide_eq_true hl⟩
  · rintro ⟨y, hx, hl⟩
    exact ⟨(x, y), (mem_cellsOf ht).2 ⟨hx, of_decide_eq_true hl⟩, rfl⟩

/-- To remove a library is to drop its cells. Only modules have boundary terminals, so all ports of
one boundary terminal are in one library, as the cells of the modules are. -/
theorem removeLibrary_eq (hi : c.Intact)
    (hmodules : ∀ x x' y y' m m', c.cells.find? x = some y → c.cells.find? x' = some y' →
      y.source = .module m → y'.source = .module m' → y.library = y'.library) :
    c.removeLibrary id =
      dropCells { c with libraries := c.libraries.erase id } ((c.cellsOf id).map (·.1)) := by
  have ht := hi.tidy
  have hports (b : ModBTermId) (p : PortId) (hb : (b, p) ∈ c.boundaryPorts.entries) :
      (c.ports.entries.all fun e =>
        e.2.cell ∉ (c.cellsOf id).map (·.1) || e.2.source ≠ .moduleBoundary b) =
          !(c.ports.find? p).any fun q => (c.cells.find? q.cell).any fun y => y.library = id := by
    obtain ⟨l, hp, hsource⟩ := hi.boundaryPorts (OrderedMap.find?_of_mem ht.boundaryPorts hb)
    obtain ⟨q, hq, rfl⟩ := Option.map_eq_some_iff.1 hp
    rw [hq, Option.any_some, Bool.eq_iff_iff, List.all_eq_true, Bool.not_eq_true',
      ← Bool.not_eq_true, ← mem_map_cellsOf ht]
    constructor
    · intro hall hin
      have hone := hall (p, q) (OrderedMap.mem_of_find? hq)
      rw [Bool.or_eq_true, decide_eq_true_eq, decide_eq_true_eq] at hone
      exact hone.elim (fun h => h hin) fun h => h hsource
    · intro hout e he
      rw [Bool.or_eq_true, decide_eq_true_eq, decide_eq_true_eq]
      refine or_iff_not_imp_right.2 fun hsame hin => hout ?_
      -- Both are ports of modules, whose cells are in one library.
      have he := portLabel?_of_find? (OrderedMap.find?_of_mem ht.ports.nodup he)
      obtain ⟨_, m, hk, hm⟩ := hi.borders hp hsource
      obtain ⟨_, m', hk', hm'⟩ := hi.borders he (not_not.1 hsame)
      obtain ⟨y, hy, rfl⟩ := Option.map_eq_some_iff.1 hk
      obtain ⟨y', hy', rfl⟩ := Option.map_eq_some_iff.1 hk'
      have hy' : c.cells.find? e.2.cell = some y' := hy'
      rw [mem_map_cellsOf ht, hy', Option.any_some, decide_eq_true_eq] at hin
      have hy : c.cells.find? q.cell = some y := hy
      rw [mem_map_cellsOf ht, hy, Option.any_some, decide_eq_true_eq, ← hin]
      exact hmodules _ _ _ _ m m' hy hy' hm hm'
  have hmasters (m : MasterId) : (c.cells.entries.all fun e =>
      e.1 ∉ (c.cellsOf id).map (·.1) || e.2.source ≠ .physical m) =
        !(c.cellsOf id).any fun e => e.2.source = .physical m := by
    rw [Bool.eq_iff_iff, List.all_eq_true, Bool.not_eq_true', List.any_eq_false]
    constructor
    · intro hall e he hsource
      have hone := hall e (List.mem_filter.1 he).1
      rw [Bool.or_eq_true, decide_eq_true_eq, decide_eq_true_eq] at hone
      exact hone.elim (fun h => h (List.mem_map_of_mem he)) fun h => h (of_decide_eq_true hsource)
    · intro hall e he
      rw [Bool.or_eq_true, decide_eq_true_eq, decide_eq_true_eq]
      refine or_iff_not_imp_left.2 fun hin hsource => ?_
      have hx := (mem_map_cellsOf ht).1 (not_not.1 hin)
      rw [OrderedMap.find?_of_mem ht.cells.nodup he] at hx
      exact hall e (List.mem_filter.2 ⟨he, hx⟩) (decide_eq_true hsource)
  unfold Catalog.removeLibrary dropCells
  simp only [OrderedMap.filter, Catalog.mk.injEq, OrderedMap.mk.injEq, true_and]
  refine ⟨?_, ?_, ?_, ?_⟩
  · refine List.filter_congr fun e he => decide_eq_decide.2 (not_congr ?_)
    rw [mem_map_cellsOf ht, OrderedMap.find?_of_mem ht.cells.nodup he, Option.any_some,
      decide_eq_true_eq]
  · refine List.filter_congr fun e _ => ?_
    rw [Bool.eq_iff_iff, decide_eq_true_eq, mem_map_cellsOf ht, Bool.not_eq_true']
    exact Bool.eq_false_iff
  · exact List.filter_congr fun e he => (hports e.1 e.2 he).symm
  · exact List.filter_congr fun e _ => (hmasters e.2).symm

end Catalog

namespace Inventory

variable {s : Inventory} {c : Catalog}

theorem libraryFor?_forgetLibrary {l : LibraryId} {source : LibrarySource}
    (h : s.libraryFor? source = some l) (u : LibrarySource) :
    (s.forgetLibrary l source).libraryFor? u = if u = source then none else s.libraryFor? u := by
  cases source with
  | physical lib => cases u <;> simp [forgetLibrary, libraryFor?, OrderedMap.find?_erase]
  | modules =>
    have htable : s.moduleLibrary? = some l := h
    cases u <;> simp [forgetLibrary, libraryFor?, htable]
  | design =>
    have htable : s.topLibrary? = some l := h
    cases u <;> simp [forgetLibrary, libraryFor?, htable]

theorem exists_forgetLibrary (s : Inventory) (l : LibraryId) (source : LibrarySource) :
    ∃ physical modules top, s.forgetLibrary l source = { s with
      physicalLibraries := physical, moduleLibrary? := modules, topLibrary? := top } := by
  cases source with
  | physical => exact ⟨_, _, _, rfl⟩
  | modules | design =>
    unfold forgetLibrary
    dsimp only
    split
    · exact ⟨_, _, _, rfl⟩
    · exact ⟨_, _, _, rfl⟩

theorem Holds.removeLibrary (h : s.Holds c) (hi : c.Intact)
    (hmodules : ∀ x x' y y' m m', c.cells.find? x = some y → c.cells.find? x' = some y' →
      y.source = .module m → y'.source = .module m' → y.library = y'.library)
    {l : LibraryId} {a : Library} (hl : c.libraries.find? l = some a) :
    (s.removeLibrary l).Holds (c.removeLibrary l) := by
  have ht := hi.tidy
  have hvalues : (c.cellNames l).values = (c.cellsOf l).map (·.1) := OrderedMap.values_names ..
  have hstored : s.libraries.find? l = some (c.storedLibrary l a) := by
    rw [h.libraries, OrderedMap.find?_mapValues, hl, Option.map_some]
  have herased : HoldsCells { s with libraries := s.libraries.erase l }
      { c with libraries := c.libraries.erase l } := by
    refine ⟨h.count, ?_, h.cells, h.ports, h.cellFor, h.mtermPorts, h.boundaryPorts, h.boundaries,
      h.boundaryNames, h.timingMasters⟩
    rw [h.libraries]
    exact OrderedMap.erase_mapValues ..
  have hterased : Catalog.Tidy { c with libraries := c.libraries.erase l } :=
    ⟨ht.libraries.erase l, ht.cells, ht.ports, ht.boundaryPorts⟩
  have hnodup : ((c.cellsOf l).map (·.1)).Nodup :=
    ht.cells.nodup.sublist (List.filter_sublist.map _)
  obtain ⟨hcells, htables⟩ := herased.removeCells hterased hnodup fun x hx => by
      obtain ⟨y, hx, hyl⟩ := (Option.any_eq_true ..).1 ((Catalog.mem_map_cellsOf ht).1 hx)
      refine ⟨y, hx, fun b hb => ?_⟩
      rw [OrderedMap.find?_erase, if_pos (of_decide_eq_true hyl)] at hb
      cases hb
  have hs : s.removeLibrary l = forgetLibrary (((c.cellsOf l).map (·.1)).foldl removeCell
      { s with libraries := s.libraries.erase l }) l a.source := by
    unfold Inventory.removeLibrary
    rw [hstored]
    dsimp only [Catalog.storedLibrary]
    rw [hvalues]
  have hfor : ∀ u, (((c.cellsOf l).map (·.1)).foldl removeCell
      { s with libraries := s.libraries.erase l }).libraryFor? u = s.libraryFor? u := htables
  rw [hs, Catalog.removeLibrary_eq hi hmodules]
  generalize List.foldl Inventory.removeCell _ _ = s' at hcells hfor ⊢
  have hthis : s'.libraryFor? a.source = some l :=
    (hfor _).trans ((h.libraryFor ..).2 ⟨a, hl, rfl⟩)
  have hlook (u : LibrarySource) (l' : LibraryId) :
      (s'.forgetLibrary l a.source).libraryFor? u = some l' ↔
        ∃ b, (c.libraries.erase l).find? l' = some b ∧ b.source = u := by
    rw [libraryFor?_forgetLibrary hthis, hfor]
    refine find_dropped_iff (P := fun u (b : Library) => b.source = u)
      (D := fun l' _ => l' = l) (fun l' b => ?_) h.libraryFor u ?_ l'
    · rw [OrderedMap.find?_erase]
      by_cases hl' : l' = l <;> simp [hl']
    · constructor
      · rintro rfl
        exact ⟨l, a, hl, rfl, rfl⟩
      · rintro ⟨_, b, hb, rfl, rfl⟩
        rw [Option.some.inj (hb.symm.trans hl)]
  obtain ⟨_, _, _, he⟩ := exists_forgetLibrary s' l a.source
  rw [he] at hlook ⊢
  exact ⟨⟨hcells.count, hcells.libraries, hcells.cells, hcells.ports, hcells.cellFor,
    hcells.mtermPorts, hcells.boundaryPorts, hcells.boundaries, hcells.boundaryNames,
    hcells.timingMasters⟩, hlook⟩

end Inventory
end DesignView
