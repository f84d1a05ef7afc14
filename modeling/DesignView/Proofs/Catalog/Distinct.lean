import DesignView.Catalog.Basic
import DesignView.Proofs.Container.OrderedMap

/-!
Catalogs in which nothing is there twice: no two libraries, cells or ports stand for the same, and
no two have the same name where names count. Look-ups by name and by source are exact then.
-/

namespace DesignView.Catalog

variable {c : Catalog}

/-- No two libraries, cells or terminal ports stand for the same, and no two cells of a library or
ports of a cell have the same name. -/
structure Distinct (c : Catalog) : Prop where
  libraries : ∀ ⦃l l' a a'⦄, c.libraries.find? l = some a → c.libraries.find? l' = some a' →
    a.source = a'.source → l = l'
  cells : ∀ ⦃x x' y y'⦄, c.cells.find? x = some y → c.cells.find? x' = some y' →
    y.source = y'.source → x = x'
  cellNames : ∀ ⦃x x' y y'⦄, c.cells.find? x = some y → c.cells.find? x' = some y' →
    y.library = y'.library → y.name = y'.name → x = x'
  portNames : ∀ ⦃p p' q q'⦄, c.ports.find? p = some q → c.ports.find? p' = some q' →
    q.cell = q'.cell → q.name = q'.name → p = p'
  mterms : ∀ ⦃p p' q q' t⦄, c.ports.find? p = some q → c.ports.find? p' = some q' →
    q.source = .physical t → q'.source = .physical t → p = p'

namespace Distinct

theorem libraryFor_eq_some_iff (h : c.Distinct) (hkeys : c.libraries.keys.Nodup)
    {s : LibrarySource} {l : LibraryId} : (c.libraries.firstKey? fun a => a.source = s) = some l ↔
      ∃ a, c.libraries.find? l = some a ∧ a.source = s := by
  rw [OrderedMap.firstKey?_eq_some_iff hkeys]
  · simp only [decide_eq_true_eq]
  · intro l l' a a' hl hl' ha ha'
    exact h.libraries hl hl' ((of_decide_eq_true ha).trans (of_decide_eq_true ha').symm)

theorem cellFor_eq_some_iff (h : c.Distinct) (hkeys : c.cells.keys.Nodup) {s : CellSource}
    {x : CellId} : (c.cells.firstKey? fun y => y.source = s) = some x ↔
      ∃ y, c.cells.find? x = some y ∧ y.source = s := by
  rw [OrderedMap.firstKey?_eq_some_iff hkeys]
  · simp only [decide_eq_true_eq]
  · intro x x' y y' hx hx' hy hy'
    exact h.cells hx hx' ((of_decide_eq_true hy).trans (of_decide_eq_true hy').symm)

theorem cellIn?_eq_some_iff (h : c.Distinct) (hkeys : c.cells.keys.Nodup) {l : LibraryId}
    {name : String} {x : CellId} : c.cellIn? l name = some x ↔
      ∃ y, c.cells.find? x = some y ∧ y.library = l ∧ y.name = name := by
  rw [cellIn?, OrderedMap.firstKey?_eq_some_iff hkeys]
  · simp only [Bool.and_eq_true, decide_eq_true_eq]
  · intro x x' y y' hx hx' hy hy'
    simp only [Bool.and_eq_true, decide_eq_true_eq] at hy hy'
    exact h.cellNames hx hx' (hy.1.trans hy'.1.symm) (hy.2.trans hy'.2.symm)

theorem portNamed?_eq_some_iff (h : c.Distinct) (hkeys : c.ports.keys.Nodup) {x : CellId}
    {name : String} {p : PortId} : c.portNamed? x name = some p ↔
      ∃ q, c.ports.find? p = some q ∧ q.cell = x ∧ q.name = name := by
  rw [portNamed?, OrderedMap.firstKey?_eq_some_iff hkeys]
  · simp only [Bool.and_eq_true, decide_eq_true_eq]
  · intro p p' q q' hp hp' hq hq'
    simp only [Bool.and_eq_true, decide_eq_true_eq] at hq hq'
    exact h.portNames hp hp' (hq.1.trans hq'.1.symm) (hq.2.trans hq'.2.symm)

theorem portOfMTerm?_eq_some_iff (h : c.Distinct) (hkeys : c.ports.keys.Nodup) {t : MTermId}
    {p : PortId} : c.portOfMTerm? t = some p ↔
      ∃ q, c.ports.find? p = some q ∧ q.source = .physical t := by
  rw [portOfMTerm?, OrderedMap.firstKey?_eq_some_iff hkeys]
  · simp only [decide_eq_true_eq]
  · intro p p' q q' hp hp' hq hq'
    exact h.mterms hp hp' (of_decide_eq_true hq) (of_decide_eq_true hq')

end Distinct
end DesignView.Catalog
