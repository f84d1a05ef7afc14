import DesignView.Proofs.Catalog.Bare
import DesignView.Proofs.Catalog.Beside
import DesignView.Proofs.Catalog.Without

/-!
The two parts of a catalog: the physical libraries with the cells of masters, and the libraries of
the design and its modules. What is done to cells of the one part leaves the other part alone.
-/

namespace DesignView

namespace OrderedMap

variable {κ α : Type}

def move (m : OrderedMap κ α) (key : κ → κ) (val : α → α) : OrderedMap κ α :=
  ⟨m.entries.map fun e => (key e.1, val e.2)⟩

theorem UpTo.ext [DecidableEq κ] {m m' : OrderedMap κ α} {num : κ → Nat} {count count' : Nat}
    (h : m.UpTo num count) (h' : m'.UpTo num count')
    (hfind : ∀ k a, m'.find? k = some a ↔ m.find? k = some a) : m' = m := by
  have hmem (e : κ × α) : e ∈ m'.entries ↔ e ∈ m.entries := by
    rw [← find?_eq_some_iff h.nodup, ← find?_eq_some_iff h'.nodup]
    exact hfind e.1 e.2
  have hperm : m'.entries.Perm m.entries :=
    (List.perm_ext_iff_of_nodup (List.Nodup.of_map _ h'.nodup) (List.Nodup.of_map _ h.nodup)).2 hmem
  have hsorted {m : OrderedMap κ α} {count : Nat} (h : m.UpTo num count) :
      m.entries.Pairwise fun a b => num a.1 < num b.1 :=
    (List.pairwise_map.1 (List.pairwise_map.1 h.ascending)).imp id
  have heq : m'.entries = m.entries :=
    hperm.eq_of_pairwise (fun a b _ _ hab hba => absurd hba (Nat.lt_asymm hab)) (hsorted h')
      (hsorted h)
  cases m
  cases m'
  simpa using heq

end OrderedMap

structure Part where
  libraries : OrderedMap LibraryId Library := {}
  cells : OrderedMap CellId Cell := {}
  ports : OrderedMap PortId Port := {}

namespace Part

def append (e e' : Part) : Part where
  libraries := ⟨e.libraries.entries ++ e'.libraries.entries⟩
  cells := ⟨e.cells.entries ++ e'.cells.entries⟩
  ports := ⟨e.ports.entries ++ e'.ports.entries⟩

def shift (s : Shift) (e : Part) : Part where
  libraries := e.libraries.move s.libraryId id
  cells := e.cells.move s.cellId s.cell
  ports := e.ports.move s.portId s.port

def Unlinked (e : Part) : Prop :=
  (∀ a ∈ e.cells.entries, a.2.timing = none) ∧ ∀ a ∈ e.ports.entries, a.2.timing = none

variable {s t : Shift}

theorem shift_shift (s t : Shift) (e : Part) : (e.shift s).shift t = e.shift (s.comp t) := by
  simp only [shift, OrderedMap.move, List.map_map, Function.comp_def, Shift.libraryId_comp,
    Shift.cellId_comp, Shift.cell_comp, Shift.portId_comp, Shift.port_comp, id]

theorem unlinked_shift (e : Part) (hs : s.links = false) : (e.shift s).Unlinked := by
  refine ⟨fun a ha => ?_, fun a ha => ?_⟩
  · obtain ⟨a, -, rfl⟩ := List.mem_map.1 ha
    simp [Shift.cell, hs]
  · obtain ⟨a, -, rfl⟩ := List.mem_map.1 ha
    simp [Shift.port, hs]

theorem shift_congr {e : Part} (h : e.Unlinked) (hst : s.offset = t.offset) :
    e.shift s = e.shift t := by
  obtain ⟨k, links⟩ := s
  obtain ⟨_, links'⟩ := t
  obtain rfl : k = _ := hst
  simp only [shift, OrderedMap.move, Part.mk.injEq, OrderedMap.mk.injEq]
  refine ⟨rfl, List.map_congr_left fun a ha => Prod.ext rfl ?_,
    List.map_congr_left fun a ha => Prod.ext rfl ?_⟩
  · simp only [Shift.cell, h.1 a ha, Option.filter_none]
    rfl
  · simp only [Shift.port, h.2 a ha, Option.filter_none]
    rfl

theorem unlinked_of_shift {e : Part} (h : (e.shift s).Unlinked) (hs : s.links = true) :
    e.Unlinked := by
  have hkept {α : Type} (o : Option α) : o.filter (fun _ => s.links) = o := by
    cases o <;> simp [hs]
  refine ⟨fun a ha => ?_, fun a ha => ?_⟩
  · exact (hkept a.2.timing).symm.trans (h.1 _ (List.mem_map_of_mem ha))
  · exact (hkept a.2.timing).symm.trans (h.2 _ (List.mem_map_of_mem ha))

theorem empty_append (e : Part) : ({} : Part).append e = e := rfl

theorem append_empty (e : Part) : e.append {} = e := by
  simp only [append, List.append_nil]

end Part

def Library.isPhysical (l : Library) : Bool :=
  match l.source with
  | .physical _ => true
  | _ => false

namespace Catalog

/-- The physical libraries with their cells and ports, or the other ones. -/
def part (c : Catalog) (physical : Bool) : Part where
  libraries := c.libraries.filter fun _ l => l.isPhysical = physical
  cells := c.cells.filter fun _ y => y.isLeaf = physical
  ports := c.ports.filter fun _ q => (c.cells.find? q.cell).any fun y => y.isLeaf = physical

variable {c c' : Catalog} {db : Database} {x : CellId} {physical : Bool}

theorem part_congr (ht : c.Tidy) (ht' : c'.Tidy)
    (hlibraries : ∀ l a, a.isPhysical = physical →
      (c'.libraries.find? l = some a ↔ c.libraries.find? l = some a))
    (hcells : ∀ x y, y.isLeaf = physical →
      (c'.cells.find? x = some y ↔ c.cells.find? x = some y))
    (hports : ∀ p q y, c.cells.find? q.cell = some y → y.isLeaf = physical →
      (c'.ports.find? p = some q ↔ c.ports.find? p = some q)) :
    c'.part physical = c.part physical := by
  have hcell (x : CellId) : ((c'.cells.find? x).any fun y => y.isLeaf = physical) =
      (c.cells.find? x).any fun y => y.isLeaf = physical := by
    rw [Bool.eq_iff_iff, Option.any_eq_true, Option.any_eq_true]
    simp only [decide_eq_true_eq]
    exact exists_congr fun y => and_congr_left fun hy => hcells x y hy
  simp only [part, Part.mk.injEq]
  refine ⟨(ht.libraries.filter _).ext (ht'.libraries.filter _) fun l a => ?_,
    (ht.cells.filter _).ext (ht'.cells.filter _) fun x y => ?_,
    (ht.ports.filter _).ext (ht'.ports.filter _) fun p q => ?_⟩
  · simp only [OrderedMap.find?_filter ht.libraries.nodup, OrderedMap.find?_filter
      ht'.libraries.nodup, Option.filter_eq_some_iff, decide_eq_true_eq]
    exact and_congr_left fun ha => hlibraries l a ha
  · simp only [OrderedMap.find?_filter ht.cells.nodup, OrderedMap.find?_filter ht'.cells.nodup,
      Option.filter_eq_some_iff, decide_eq_true_eq]
    exact and_congr_left fun hy => hcells x y hy
  · simp only [OrderedMap.find?_filter ht.ports.nodup, OrderedMap.find?_filter ht'.ports.nodup,
      Option.filter_eq_some_iff, hcell, Option.any_eq_true, decide_eq_true_eq]
    refine and_congr_left ?_
    rintro ⟨y, hy, hleaf⟩
    exact hports p q y hy hleaf

theorem Beside.part (h : c.Beside x c') (ht : c.Tidy) (ht' : c'.Tidy)
    (hx : ∀ y, c.cells.find? x = some y → y.isLeaf ≠ physical)
    (hx' : ∀ y, c'.cells.find? x = some y → y.isLeaf ≠ physical) :
    c'.part physical = c.part physical := by
  refine part_congr ht ht' (fun l a _ => by rw [h.libraries]) (fun z y hy => ?_)
    fun p q y hcell hy => h.ports p q ?_
  · by_cases hz : z = x
    · subst hz
      exact ⟨fun hfind => absurd hy (hx' y hfind), fun hfind => absurd hy (hx y hfind)⟩
    · rw [h.cells z hz]
  · intro e
    exact hx y (e ▸ hcell) hy

theorem part_addLibrary (ht : c.Tidy) (name : String) (s : LibrarySource)
    (hs : Library.isPhysical ⟨name, s⟩ ≠ physical) :
    (c.addLibrary name s).2.part physical = c.part physical := by
  refine part_congr ht (ht.addLibrary name s) (fun l a ha => ?_) (fun _ _ _ => Iff.rfl)
    fun _ _ _ _ _ => Iff.rfl
  have hfind : (c.addLibrary name s).2.libraries.find? l =
      if l = ⟨c.count + 1⟩ then some ⟨name, s⟩ else c.libraries.find? l :=
    OrderedMap.find?_insert ..
  rw [hfind]
  split
  · next hl =>
    rw [hl, ht.libraries.find?_fresh rfl]
    constructor
    · intro e
      exact absurd (Option.some.inj e ▸ ha) hs
    · intro e
      cases e
  · exact Iff.rfl

theorem isLeaf_iff_home {y : Cell} {s : LibrarySource} (h : db.home? y.source = some s) :
    y.isLeaf = true ↔ ∃ id, s = .physical id := by
  unfold Cell.isLeaf
  cases hs : y.source with
  | physical m =>
    rw [hs] at h
    obtain ⟨a, -, ha⟩ := Option.map_eq_some_iff.1 h
    exact ⟨fun _ => ⟨a.lib, ha.symm⟩, fun _ => rfl⟩
  | module m =>
    rw [hs] at h
    cases h
    simp
  | design =>
    rw [hs] at h
    cases h
    simp

theorem Mirrors.part_without (h : c.Mirrors db) (hi : c.Intact) {s : LibrarySource}
    (hs : (∃ id, s = .physical id) ↔ physical = false) :
    (c.without s).part physical = c.part physical := by
  have hhome {y : Cell} (hy : y.isLeaf = physical) : db.home? y.source ≠ some s := by
    intro e
    have hiff := isLeaf_iff_home e
    rw [hs, hy] at hiff
    cases physical <;> simp at hiff
  have hcells (x : CellId) (y : Cell) (hy : y.isLeaf = physical) :
      (c.without s).cells.find? x = some y ↔ c.cells.find? x = some y := by
    rw [h.cells_without, Option.filter_eq_some_iff, and_iff_left (decide_eq_true (hhome hy))]
  refine part_congr h.tidy (h.without s).1.mirrors.tidy (fun l a ha => ?_) hcells
    fun p q y hcell hy => ?_
  · rw [h.libraries_without, Option.filter_eq_some_iff, and_iff_left]
    refine decide_eq_true fun e => ?_
    have hiff : a.isPhysical = true ↔ ∃ id, s = .physical id := by
      rw [Library.isPhysical, e]
      cases s <;> simp
    rw [hs, ha] at hiff
    cases physical <;> simp at hiff
  · rw [h.ports_without hi, Option.filter_eq_some_iff, (hcells _ _ hy).2 hcell, Option.isSome_some,
      and_iff_left rfl]

theorem part_eq_empty (ht : c.Tidy)
    (hlibraries : ∀ l a, c.libraries.find? l = some a → a.isPhysical ≠ physical)
    (hcells : ∀ x y, c.cells.find? x = some y → y.isLeaf ≠ physical) : c.part physical = {} := by
  have hempty : ({} : Catalog).part physical = {} := rfl
  rw [← hempty]
  refine part_congr tidy_empty ht (fun l a ha => ⟨fun h => ?_, fun h => by cases h⟩)
    (fun x y hy => ⟨fun h => ?_, fun h => by cases h⟩) fun p q y h => by cases h
  · exact absurd ha (hlibraries l a h)
  · exact absurd hy (hcells x y h)

theorem Mirrors.part_withoutDesign (h : c.Mirrors db) :
    ((c.without .design).without .modules).part false = {} := by
  obtain ⟨hout, hnodesign⟩ := h.without .design
  obtain ⟨hout', hnomodules⟩ := hout.mirrors.without .modules
  have hphysical {l : LibraryId} {a : Library}
      (hl : ((c.without .design).without .modules).libraries.find? l = some a) :
      ∃ id, a.source = .physical id := by
    have hold := hl
    rw [hout.mirrors.libraries_without, Option.filter_eq_some_iff] at hold
    cases hs : a.source with
    | physical id => exact ⟨id, rfl⟩
    | modules =>
      exact absurd ((congrArg (Option.map _) hl).trans (congrArg some hs)) (hnomodules l)
    | design =>
      exact absurd ((congrArg (Option.map _) hold.1).trans (congrArg some hs)) (hnodesign l)
  refine part_eq_empty hout'.mirrors.tidy (fun l a hl => ?_) fun x y hx => ?_
  · obtain ⟨id, hid⟩ := hphysical hl
    simp [Library.isPhysical, hid]
  · obtain ⟨s, hs, hl⟩ := hout'.mirrors.home (cellLabel?_of_find? hx)
    obtain ⟨a, ha, rfl⟩ := Option.map_eq_some_iff.1 hl
    simp [(isLeaf_iff_home hs).2 (hphysical ha)]

end Catalog

theorem Graft.part_catalog (g : Graft) (e : Catalog) (physical : Bool) :
    (g.catalog e).part physical =
      (g.base.part physical).append ((e.part physical).shift g.shift) := by
  have hbase : ∀ a ∈ g.base.ports.entries,
      (g.catalog e).cells.find? a.2.cell = g.base.cells.find? a.2.cell := by
    intro a ha
    have hfind := OrderedMap.find?_of_mem g.intact.tidy.ports.nodup (k := a.1) (a := a.2) ha
    obtain ⟨k, hk⟩ := g.intact.owned (Catalog.portLabel?_of_find? hfind)
    obtain ⟨y, hy, -⟩ := Option.map_eq_some_iff.1 hk
    exact OrderedMap.find?_graft_of_mem (OrderedMap.mem_keys_iff.2 ⟨y, hy⟩)
  have hmoved (q : Port) : ((g.catalog e).cells.find? (g.shift.port q).cell).any
      (fun y => y.isLeaf = physical) = (e.cells.find? q.cell).any fun y => y.isLeaf = physical := by
    refine (congrArg (Option.any _) (g.cell?_catalog e q.cell)).trans ?_
    rw [Option.any_map]
    rfl
  simp only [Catalog.part, Part.append, Part.shift, Part.mk.injEq, OrderedMap.filter,
    OrderedMap.move, OrderedMap.mk.injEq]
  refine ⟨?_, ?_, ?_⟩
  · exact (List.filter_append ..).trans (congrArg _ List.filter_map)
  · exact (List.filter_append ..).trans (congrArg _ List.filter_map)
  · refine (List.filter_append ..).trans (congrArg₂ _ (List.filter_congr fun a ha => ?_) ?_)
    · rw [hbase a ha]
    · refine List.filter_map.trans (congrArg _ (List.filter_congr fun a _ => ?_))
      exact hmoved a.2

theorem part_bare (c : Catalog) (physical : Bool) :
    (Graft.bare.catalog c).part physical = (c.part physical).shift ⟨0, false⟩ :=
  Graft.bare.part_catalog c physical

end DesignView
