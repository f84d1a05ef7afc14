import DesignView.Proofs.Catalog.Graft

/-!
Bare catalogs. A catalog that is put on nothing keeps its numbers and loses its links. Whatever does
not look at links is the same for a catalog and for what is bare of it.
-/

namespace DesignView

/-- A catalog is put on nothing, without its links. -/
def Graft.bare : Graft := ⟨{}, false, Catalog.intact_empty⟩

namespace Graft

theorem above_zero (n : Nat) : above 0 n = n := by
  cases n <;> rfl

@[simp] theorem bare_libraryId (l : LibraryId) : bare.libraryId l = l :=
  congrArg LibraryId.mk (above_zero l.num)

@[simp] theorem bare_cellId (x : CellId) : bare.cellId x = x :=
  congrArg CellId.mk (above_zero x.num)

@[simp] theorem bare_portId (p : PortId) : bare.portId p = p :=
  congrArg PortId.mk (above_zero p.num)

theorem map_bare_portId (ps : List PortId) : ps.map bare.portId = ps := by
  rw [funext bare_portId, List.map_id']

theorem bare_shape (s : PortShape) : bare.shift.shape s = s := by
  have hport (p : PortId) : bare.shift.portId p = p := bare_portId p
  cases s <;> simp [Shift.shape, funext hport]

theorem bare_cell (y : Cell) : bare.shift.cell y = { y with timing := none } := by
  have hlibrary : bare.shift.libraryId y.library = y.library := bare_libraryId y.library
  have hports : y.ports.map bare.shift.portId = y.ports := map_bare_portId y.ports
  have htiming : y.timing.filter (fun _ => bare.shift.links) = none := by
    cases y.timing <;> rfl
  rw [Shift.cell, hlibrary, hports, htiming]

theorem bare_port (q : Port) : bare.shift.port q = { q with timing := none } := by
  have hcell : bare.shift.cellId q.cell = q.cell := bare_cellId q.cell
  have htiming : q.timing.filter (fun _ => bare.shift.links) = none := by
    cases q.timing <;> rfl
  rw [Shift.port, hcell, bare_shape, htiming]

end Graft

namespace Catalog

open Graft (bare)

variable {c c' : Catalog}

theorem cell?_bare (c : Catalog) (x : CellId) : (bare.catalog c).cells.find? x =
    (c.cells.find? x).map fun y => { y with timing := none } := by
  have hfind := bare.cell?_catalog c x
  rw [Graft.bare_cellId, funext Graft.bare_cell] at hfind
  exact hfind

theorem port?_bare (c : Catalog) (p : PortId) : (bare.catalog c).ports.find? p =
    (c.ports.find? p).map fun q => { q with timing := none } := by
  have hfind := bare.port?_catalog c p
  rw [Graft.bare_portId, funext Graft.bare_port] at hfind
  exact hfind

theorem libraries_bare (c : Catalog) : (bare.catalog c).libraries = c.libraries := by
  have hgraft : (bare.catalog c).libraries =
      ⟨c.libraries.entries.map fun e => (bare.libraryId e.1, e.2)⟩ := rfl
  simp [hgraft]

theorem boundaryPorts_bare (c : Catalog) :
    (bare.catalog c).boundaryPorts = c.boundaryPorts := by
  have hgraft : (bare.catalog c).boundaryPorts =
      ⟨c.boundaryPorts.entries.map fun e => (e.1, bare.portId e.2)⟩ := rfl
  simp [hgraft]

theorem cellKeys_bare (c : Catalog) : (bare.catalog c).cells.keys = c.cells.keys := by
  have hgraft : (bare.catalog c).cells =
      ⟨c.cells.entries.map fun e => (bare.cellId e.1, bare.shift.cell e.2)⟩ := rfl
  simp [hgraft, OrderedMap.keys]

theorem exists_cell_of_bare (h : bare.catalog c' = bare.catalog c) {x : CellId} {y : Cell}
    (hx : c'.cells.find? x = some y) :
    ∃ y₀, c.cells.find? x = some y₀ ∧ y = { y₀ with timing := y.timing } := by
  have hbare := c'.cell?_bare x
  rw [h, cell?_bare, hx] at hbare
  obtain ⟨y₀, hy₀, hsame⟩ := Option.map_eq_some_iff.1 hbare
  exact ⟨y₀, hy₀, congrArg (fun y₁ : Cell => { y₁ with timing := y.timing }) hsame.symm⟩

theorem exists_port_of_bare (h : bare.catalog c' = bare.catalog c) {p : PortId} {q : Port}
    (hq : c'.ports.find? p = some q) :
    ∃ q₀, c.ports.find? p = some q₀ ∧ q = { q₀ with timing := q.timing } := by
  have hbare := c'.port?_bare p
  rw [h, port?_bare, hq] at hbare
  obtain ⟨q₀, hq₀, hsame⟩ := Option.map_eq_some_iff.1 hbare
  exact ⟨q₀, hq₀, congrArg (fun q₁ : Port => { q₁ with timing := q.timing }) hsame.symm⟩

theorem topPorts_bare (c : Catalog) (x : CellId) :
    (bare.catalog c).topPorts x = c.topPorts x := by
  have htop := bare.topPorts_catalog c x
  rw [Graft.bare_cellId, Graft.map_bare_portId] at htop
  exact htop

theorem portNamed?_bare (c : Catalog) (x : CellId) (name : String) :
    (bare.catalog c).portNamed? x name = c.portNamed? x name := by
  have hnamed := bare.portNamed?_catalog c x name
  rw [Graft.bare_cellId, funext Graft.bare_portId, Option.map_id'] at hnamed
  exact hnamed

theorem expand_bare (c : Catalog) (depth : Nat) (p : PortId) :
    (bare.catalog c).expand depth p = c.expand depth p := by
  induction depth generalizing p with
  | zero => rfl
  | succ depth ih =>
    rw [expand, port?_bare, expand]
    cases c.ports.find? p with
    | none => rfl
    | some q =>
      have hmembers : q.shape.members.flatMap ((bare.catalog c).expand depth) =
          q.shape.members.flatMap (c.expand depth) := by rw [funext ih]
      rw [Option.map_some]
      dsimp only
      rw [hmembers]

theorem bitsOf_bare (c : Catalog) (x : CellId) : (bare.catalog c).bitsOf x = c.bitsOf x := by
  have hsize : (bare.catalog c).ports.size = c.ports.size := by
    simp [OrderedMap.size, Graft.catalog, OrderedMap.graft, bare]
  rw [bitsOf, bitsOf, topPorts_bare, hsize, funext (expand_bare c _)]

def mismatches (c : Catalog) (x : CellId) (library : String) (timing : TimingCell) :
    List Mismatch :=
  (c.bitsOf x).filterMap (c.unmatchedPort? library timing) ++
    (timing.ports.entries.filter fun e => !e.2.isSupply && (c.portNamed? x e.1).isNone).map
      fun e => .missingPhysicalPort library timing.name e.1

theorem mismatches_bare (c : Catalog) (x : CellId) (library : String) (timing : TimingCell) :
    (bare.catalog c).mismatches x library timing = c.mismatches x library timing := by
  have hport (p : PortId) : (bare.catalog c).unmatchedPort? library timing p =
      c.unmatchedPort? library timing p := by
    simp only [unmatchedPort?, port?, port?_bare]
    cases c.ports.find? p <;> rfl
  simp only [mismatches, bitsOf_bare, funext hport, portNamed?_bare]

theorem mismatches_link (c : Catalog) (z : CellId) (id : TimingId) (l : String) (t : TimingCell)
    (x : CellId) (library : String) (timing : TimingCell) :
    (c.link z id l t).1.mismatches x library timing = c.mismatches x library timing := by
  rw [← mismatches_bare, Graft.catalog_link (g := bare) rfl, mismatches_bare]

end Catalog
end DesignView
