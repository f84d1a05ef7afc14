import DesignView.Proofs.Catalog.Face
import DesignView.Proofs.Catalog.Mirror

/-!
What a catalog is without the library that is built from a source: the cells that belong elsewhere
stay, and so do their ports and whatever is recorded of them.
-/

namespace DesignView

namespace Catalog

theorem Intact.without {c : Catalog} (h : c.Intact) (s : LibrarySource) : (c.without s).Intact := by
  unfold Catalog.without
  split
  · exact h.removeLibrary _
  · exact h

theorem boundaries_without (c : Catalog) (s : LibrarySource) :
    (c.without s).boundaries = c.boundaries := by
  unfold Catalog.without
  split <;> rfl

namespace Mirrors

variable {c : Catalog} {db : Database} {s : LibrarySource} {x : CellId} {y : Cell}

theorem library_eq_iff (h : c.Mirrors db) (hx : c.cells.find? x = some y) {l : LibraryId}
    (hl : c.librarySource? l = some s) : y.library = l ↔ db.home? y.source = some s := by
  obtain ⟨s', hhome, hl'⟩ := h.home (cellLabel?_of_find? hx)
  constructor
  · rintro rfl
    exact hhome.trans (hl'.symm.trans hl)
  · intro e
    have hsame : s' = s := Option.some.inj (hhome.symm.trans e)
    exact h.libraries (hl'.trans (congrArg some hsame)) hl

theorem librarySource?_of_firstKey? (h : c.Mirrors db) {l : LibraryId}
    (hl : (c.libraries.firstKey? fun a => a.source = s) = some l) :
    c.librarySource? l = some s := by
  obtain ⟨a, ha, hsource⟩ := OrderedMap.exists_of_firstKey? h.tidy.libraries.nodup hl
  exact (congrArg (Option.map _) ha).trans (congrArg some (of_decide_eq_true hsource))

theorem home?_ne_of_firstKey? (h : c.Mirrors db)
    (hl : (c.libraries.firstKey? fun a => a.source = s) = none)
    (hx : c.cells.find? x = some y) : db.home? y.source ≠ some s := by
  intro e
  obtain ⟨s', hhome, hl'⟩ := h.home (cellLabel?_of_find? hx)
  obtain rfl : s' = s := Option.some.inj (hhome.symm.trans e)
  obtain ⟨a, ha, hsource⟩ := Option.map_eq_some_iff.1 hl'
  obtain ⟨k, hk⟩ := OrderedMap.firstKey?_isSome (p := fun a => a.source = s') ha
    (decide_eq_true hsource)
  cases hl.symm.trans hk

theorem libraries_without (h : c.Mirrors db) (s : LibrarySource) (l : LibraryId) :
    (c.without s).libraries.find? l = (c.libraries.find? l).filter fun a => a.source ≠ s := by
  unfold Catalog.without
  split
  · next old hold =>
    have hs : c.librarySource? old = some s := h.librarySource?_of_firstKey? hold
    have hfind : (c.removeLibrary old).libraries.find? l =
        if l = old then none else c.libraries.find? l := OrderedMap.find?_erase ..
    rw [hfind]
    cases hl : c.libraries.find? l with
    | none => simp
    | some a =>
      have hsource : c.librarySource? l = some a.source := congrArg (Option.map _) hl
      have hiff : l = old ↔ a.source = s := by
        constructor
        · rintro rfl
          exact Option.some.inj (hsource.symm.trans hs)
        · rintro rfl
          exact h.libraries hsource hs
      rw [Option.filter_some]
      by_cases hl : l = old
      · simp [hl, hiff.1 hl]
      · simp [hl, mt hiff.2 hl]
  · next hnone =>
    cases hl : c.libraries.find? l with
    | none => rfl
    | some a =>
      have hne : a.source ≠ s := by
        intro hs
        obtain ⟨k, hk⟩ := OrderedMap.firstKey?_isSome (p := fun a => a.source = s) hl
          (decide_eq_true hs)
        cases hnone.symm.trans hk
      rw [Option.filter_some, if_pos (decide_eq_true hne)]

theorem cells_without (h : c.Mirrors db) (s : LibrarySource) (x : CellId) :
    (c.without s).cells.find? x =
      (c.cells.find? x).filter fun y => db.home? y.source ≠ some s := by
  unfold Catalog.without
  split
  · next old hold =>
    rw [h.tidy.cells_removeLibrary]
    cases hx : c.cells.find? x with
    | none => rfl
    | some y =>
      have hiff := h.library_eq_iff hx (h.librarySource?_of_firstKey? hold)
      simp only [Option.filter_some, ne_eq, hiff]
  · next hnone =>
    cases hx : c.cells.find? x with
    | none => rfl
    | some y =>
      have hhome : db.home? y.source ≠ some s := h.home?_ne_of_firstKey? hnone hx
      rw [Option.filter_some, if_pos (decide_eq_true hhome)]

theorem ports_without (h : c.Mirrors db) (hi : c.Intact) (s : LibrarySource) (p : PortId) :
    (c.without s).ports.find? p = (c.ports.find? p).filter fun q =>
      ((c.without s).cells.find? q.cell).isSome := by
  cases hp : c.ports.find? p with
  | none =>
    unfold Catalog.without
    split
    · rw [h.tidy.ports_removeLibrary, hp]
      rfl
    · exact hp
  | some q =>
    obtain ⟨k, hk⟩ := hi.owned (portLabel?_of_find? hp)
    obtain ⟨y, hy, -⟩ := Option.map_eq_some_iff.1 hk
    have hy : c.cells.find? q.cell = some y := hy
    rw [Option.filter_some]
    unfold Catalog.without
    split
    · next old hold =>
      have hin : c.within old q.cell = decide (y.library = old) := by
        rw [within, cellLabel?_of_find? hy]
        rfl
      rw [h.tidy.ports_removeLibrary, h.tidy.cells_removeLibrary, hp, Option.filter_some, hin, hy,
        Option.filter_some]
      by_cases hy : y.library = old <;> simp [hy]
    · rw [hp, hy]
      rfl

theorem face?_without (h : c.Mirrors db) (s : LibrarySource) (x : CellId) :
    (c.without s).face? x = (c.face? x).filter fun y => db.home? y.source ≠ some s := by
  rw [face?, h.cells_without, face?]
  cases c.cells.find? x with
  | none => rfl
  | some y =>
    rw [Option.map_some, Option.filter_some, Option.filter_some]
    by_cases hy : db.home? y.source = some s <;> simp [Cell.face, hy]

theorem timingMasters_without (h : c.Mirrors db) (hi : c.Intact) (s : LibrarySource)
    (k : TimingId × String) : (c.without s).timingMasters.find? k =
      (c.timingMasters.find? k).filter fun m => db.home? (.physical m) ≠ some s := by
  cases hk : c.timingMasters.find? k with
  | none =>
    unfold Catalog.without
    split
    · rw [find?_timingMasters_removeLibrary hi.timingKeys, hk]
      rfl
    · rw [hk]
      rfl
  | some m =>
    obtain ⟨x, l, hx, hsource⟩ := hi.timingMasters hk
    obtain ⟨y, hy, rfl⟩ := Option.map_eq_some_iff.1 hx
    have hsource : y.source = .physical m := hsource
    unfold Catalog.without
    split
    · next old hold =>
      have hiff := h.library_eq_iff hy (h.librarySource?_of_firstKey? hold)
      rw [hsource] at hiff
      -- Only one cell stands for the master.
      have hany : ((c.cellsOf old).any fun e => e.2.source = .physical m) = true ↔
          db.home? (.physical m) = some s := by
        rw [← hiff, List.any_eq_true]
        constructor
        · rintro ⟨⟨x', y'⟩, he, hsame⟩
          obtain ⟨hx', hin⟩ := (mem_cellsOf h.tidy).1 he
          obtain rfl : x' = x := h.cells (cellLabel?_of_find? hx') (cellLabel?_of_find? hy)
            ((of_decide_eq_true hsame).trans hsource.symm)
          cases hx'.symm.trans hy
          exact hin
        · intro hin
          exact ⟨(x, y), (mem_cellsOf h.tidy).2 ⟨hy, hin⟩, decide_eq_true hsource⟩
      rw [find?_timingMasters_removeLibrary hi.timingKeys, hk, Option.filter_some,
        Option.filter_some]
      by_cases hhome : db.home? (.physical m) = some s
      · simp [hany.2 hhome, hhome]
      · simp [eq_false_of_ne_true (mt hany.1 hhome), hhome]
    · next hnone =>
      have hhome := hsource ▸ h.home?_ne_of_firstKey? hnone hy
      rw [hk, Option.filter_some, if_pos (decide_eq_true hhome)]

theorem boundaryPorts_without (h : c.Mirrors db) (hi : c.Intact) (hs : s ≠ .modules) :
    (c.without s).boundaryPorts = c.boundaryPorts := by
  unfold Catalog.without
  split
  · next old hold =>
    have hkept : ∀ e ∈ c.boundaryPorts.entries,
        (!(c.ports.find? e.2).any fun q => (c.cells.find? q.cell).any fun y => y.library = old) =
          true := by
      intro e he
      obtain ⟨l, hl, hsource⟩ := hi.boundaryPorts (OrderedMap.find?_of_mem h.tidy.boundaryPorts he)
      obtain ⟨q, hq, rfl⟩ := Option.map_eq_some_iff.1 hl
      obtain ⟨k, m, hk, hm⟩ := hi.borders hl hsource
      obtain ⟨y, hy, rfl⟩ := Option.map_eq_some_iff.1 hk
      have hy : c.cells.find? q.cell = some y := hy
      have hm : y.source = .module m := hm
      have hiff := h.library_eq_iff hy (h.librarySource?_of_firstKey? hold)
      have hne : y.library ≠ old := fun e => by
        have hhome := hiff.1 e
        rw [hm] at hhome
        exact hs (Option.some.inj hhome).symm
      rw [hq, Option.any_some, hy, Option.any_some, decide_eq_false hne]
      rfl
    exact congrArg OrderedMap.mk (List.filter_eq_self.2 hkept)
  · rfl

theorem source_ne_module (h : c.Mirrors db) (hnone : ∀ a, c.librarySource? a ≠ some .modules)
    (hx : c.cells.find? x = some y) (id : ModuleId) : y.source ≠ .module id := by
  intro e
  obtain ⟨s, hs, hl⟩ := h.home (cellLabel?_of_find? hx)
  have hs : db.home? y.source = some s := hs
  rw [e] at hs
  cases hs
  exact hnone _ hl

theorem boundaryPorts_eq_empty (h : c.Mirrors db) (hi : c.Intact)
    (hnone : ∀ a, c.librarySource? a ≠ some .modules) : c.boundaryPorts.keys = [] := by
  refine List.eq_nil_iff_forall_not_mem.2 fun b hb => ?_
  obtain ⟨p, hp⟩ := OrderedMap.mem_keys_iff.1 hb
  obtain ⟨l, hl, hsource⟩ := hi.boundaryPorts hp
  obtain ⟨k, id, hk, hid⟩ := hi.borders hl hsource
  obtain ⟨y, hy, rfl⟩ := Option.map_eq_some_iff.1 hk
  exact h.source_ne_module hnone hy id hid

end Mirrors
end Catalog

end DesignView
