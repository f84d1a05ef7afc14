import DesignView.Proofs.Catalog.Face

/-!
What is beside a cell. Adding a cell, and adding, grouping and linking its ports, leaves the other
cells and their ports alone.
-/

namespace DesignView.Catalog

variable {c c' c'' : Catalog} {cell x : CellId} {name : String} {p : PortId}

structure Beside (c : Catalog) (x : CellId) (c' : Catalog) : Prop where
  libraries : c'.libraries = c.libraries
  cells : ∀ y, y ≠ x → c'.cells.find? y = c.cells.find? y
  ports : ∀ p q, q.cell ≠ x → (c'.ports.find? p = some q ↔ c.ports.find? p = some q)

namespace Beside

theorem refl (c : Catalog) (x : CellId) : c.Beside x c :=
  ⟨rfl, fun _ _ => rfl, fun _ _ _ => Iff.rfl⟩

theorem trans (h : c.Beside x c') (h' : c'.Beside x c'') : c.Beside x c'' :=
  ⟨h'.libraries.trans h.libraries, fun y hy => (h'.cells y hy).trans (h.cells y hy),
    fun p q hq => (h'.ports p q hq).trans (h.ports p q hq)⟩

theorem of_find? (hlibraries : c'.libraries = c.libraries)
    (hcells : ∀ y, y ≠ x → c'.cells.find? y = c.cells.find? y)
    (hports : ∀ p, c'.ports.find? p = c.ports.find? p ∨
      (∀ q, c.ports.find? p = some q → q.cell = x) ∧ ∀ q, c'.ports.find? p = some q → q.cell = x) :
    c.Beside x c' := by
  refine ⟨hlibraries, hcells, fun p q hq => ?_⟩
  rcases hports p with hsame | ⟨hold, hnew⟩
  · rw [hsame]
  · exact ⟨fun h => absurd (hnew q h) hq, fun h => absurd (hold q h) hq⟩

theorem find?_modify_of_ne (c : Catalog) (x : CellId) (f : Cell → Cell) {y : CellId} (hy : y ≠ x) :
    (c.cells.modify x f).find? y = c.cells.find? y := by
  rw [OrderedMap.find?_modify, if_neg hy]

theorem addCell (c : Catalog) (library : LibraryId) (name : String) (source : CellSource) :
    c.Beside ⟨c.count + 1⟩ (c.addCell library name source).2 := by
  refine ⟨rfl, fun y hy => ?_, fun _ _ _ => Iff.rfl⟩
  exact (OrderedMap.find?_insert ..).trans (if_neg hy)

theorem addPort (ht : c.Tidy) (x : CellId) (name : String) (source : PortSource)
    (direction : PortDirection) : c.Beside x (c.addPort x name source direction).2 := by
  refine of_find? rfl (fun y hy => find?_modify_of_ne c x _ hy) fun p => ?_
  rw [find?_addPort]
  split
  · next hp =>
    refine .inr ⟨fun q hq => ?_, fun q hq => ?_⟩
    · cases (hp ▸ ht.ports.find?_fresh rfl).symm.trans hq
    · cases hq
      rfl
  · exact .inl rfl

theorem addPorts (ht : c.Tidy) (x : CellId) (ps : List PortSpec) :
    c.Beside x (c.addPorts x ps) := by
  induction ps generalizing c with
  | nil => exact refl c x
  | cons s ps ih =>
    have hone := ht.tidy_addPort x s.name s.source s.direction
    exact (addPort ht x s.name s.source s.direction).trans (ih hone)

theorem buildCell (ht : c.Tidy) (library : LibraryId) (name : String) (source : CellSource)
    (ps : List PortSpec) :
    c.Beside ⟨c.count + 1⟩ (c.buildCell library name source ps) :=
  (addCell c library name source).trans
    (addPorts (ht.tidy_addCell library name source) _ ps)

theorem cell_of_owns {q : Port} (h : c.Owns x p) (hq : c.ports.find? p = some q) : q.cell = x := by
  obtain ⟨l, hl, hcell⟩ := h
  cases (portLabel?_of_find? hq).symm.trans hl
  exact hcell

theorem groups {members : List PortId} (h : c.Intact) (g : c.Groups x name members c') :
    c.Beside x c' := by
  have hlibraries : c'.libraries = c.libraries := by rw [g.frame]
  refine of_find? hlibraries (fun y hy => (g.cellAt y).trans (if_neg hy)) fun p => ?_
  by_cases hp : p = ⟨c.count + 1⟩
  · obtain ⟨direction, shape, -, -, hgroup⟩ := g.group
    refine .inr ⟨fun q hq => ?_, fun q hq => ?_⟩
    · cases (hp ▸ h.tidy.ports.find?_fresh rfl).symm.trans hq
    · cases hgroup.symm.trans (hp ▸ hq)
      rfl
  · by_cases hin : p ∈ members
    · obtain ⟨y, hy, hport⟩ := mem_topPorts.1 (g.top p hin)
      have howns : c.Owns x p := h.top hy hport
      obtain ⟨l, hl, -⟩ := id howns
      obtain ⟨q₀, hq₀, -⟩ := Option.map_eq_some_iff.1 hl
      obtain ⟨shape, hq', -⟩ := g.member p hin q₀ hq₀
      refine .inr ⟨fun q hq => cell_of_owns howns hq, fun q hq => ?_⟩
      have hcell : q₀.cell = x := cell_of_owns howns hq₀
      cases hq'.symm.trans hq
      exact hcell
    · exact .inl (g.other p hin hp)

theorem groupBuses (h : c.Intact) (x : CellId) (msbFirst : String → Bool) :
    c.Beside x (c.groupBuses x msbFirst).1 := by
  have hboth : (c.groupBuses x msbFirst).1.Intact ∧ c.Beside x (c.groupBuses x msbFirst).1 :=
    groupBuses_induct (motive := fun c' => c'.Intact ∧ c.Beside x c') msbFirst h.tidy
      ⟨h, refl c x⟩ fun _ _ _ _ _ hc _ g => ⟨hc.1.groups g, hc.2.trans (groups hc.1 g)⟩
  exact hboth.2

theorem modifyPort (h : c.Owns x p) (f : Port → Port) (hf : ∀ q, (f q).cell = q.cell) :
    c.Beside x { c with ports := c.ports.modify p f } := by
  refine of_find? rfl (fun _ _ => rfl) fun p' => ?_
  have hfind : (c.ports.modify p f).find? p' =
      if p' = p then (c.ports.find? p').map f else c.ports.find? p' := OrderedMap.find?_modify ..
  rw [hfind]
  split
  · next hp =>
    refine .inr ⟨fun q hq => cell_of_owns h (hp ▸ hq), fun q hq => ?_⟩
    obtain ⟨q₀, hq₀, rfl⟩ := Option.map_eq_some_iff.1 hq
    exact (hf q₀).trans (cell_of_owns h (hp ▸ hq₀))
  · exact .inl rfl

theorem setCellTiming (c : Catalog) (x : CellId) (ref : TimingCellRef) :
    c.Beside x (c.setCellTiming x ref) :=
  ⟨rfl, fun _ hy => find?_modify_of_ne c x _ hy, fun _ _ _ => Iff.rfl⟩

theorem linkPort (h : c.Owns x p) (library : TimingId) (timing : TimingCell) :
    c.Beside x (c.linkPort library timing p) := by
  unfold Catalog.linkPort
  split
  · exact refl c x
  · split
    · exact modifyPort h _ fun _ => rfl
    · exact refl c x

end Beside

theorem Intact.owns_topPorts (h : c.Intact) (hp : p ∈ c.topPorts x) : c.Owns x p := by
  obtain ⟨y, hy, hport⟩ := mem_topPorts.1 hp
  exact h.top hy hport

theorem Intact.owns_expand (h : c.Intact) (depth : Nat) (hp : c.Owns x p) {r : PortId}
    (hr : r ∈ c.expand depth p) : c.Owns x r := by
  induction depth generalizing p with
  | zero => exact List.mem_singleton.1 hr ▸ hp
  | succ depth ih =>
    unfold expand at hr
    split at hr
    · cases hr
    · next q hq =>
      split at hr
      · exact List.mem_singleton.1 hr ▸ hp
      · obtain ⟨m, hm, hr⟩ := List.mem_flatMap.1 hr
        refine ih ?_ hr
        exact Beside.cell_of_owns hp hq ▸ h.refs hq (PortShape.mem_refs_of_members hm)

theorem Intact.owns_bitsOf (h : c.Intact) (hp : p ∈ c.bitsOf x) : c.Owns x p := by
  obtain ⟨r, hr, hp⟩ := List.mem_flatMap.1 hp
  exact h.owns_expand _ (h.owns_topPorts hr) hp

/-- The ports of a cell that are linked with it: the groups at its top level, and its bits. -/
def linkedPorts (c : Catalog) (x : CellId) : List PortId :=
  ((c.topPorts x).filter fun p => (c.port? p).any fun q => q.shape.members ≠ []) ++ c.bitsOf x

theorem Intact.owns_linkedPorts (h : c.Intact) (hp : p ∈ c.linkedPorts x) : c.Owns x p := by
  rcases List.mem_append.1 hp with hp | hp
  · exact h.owns_topPorts (List.mem_filter.1 hp).1
  · exact h.owns_bitsOf hp

theorem Beside.link (h : c.Intact) (x : CellId) (id : TimingId) (library : String)
    (timing : TimingCell) : c.Beside x (c.link x id library timing).1 := by
  have hfold (ids : List PortId) (hids : ∀ p ∈ ids, c.Owns x p) {c₁ : Catalog} (hc₁ : c.Beside x c₁)
      (ht : c₁.Tidy) (hkept : ∀ ⦃p l⦄, c.portLabel? p = some l → c₁.portLabel? p = some l) :
      c.Beside x (ids.foldl (fun c p => c.linkPort id timing p) c₁) := by
    induction ids generalizing c₁ with
    | nil => exact hc₁
    | cons p ids ih =>
      have howns : c₁.Owns x p := (hids p List.mem_cons_self).mono hkept
      have g : c₁.Gains (fun _ => False) (fun _ => False) (c₁.linkPort id timing p) :=
        ht.linkPort id timing p
      exact ih (fun p' hp' => hids p' (List.mem_cons_of_mem p hp'))
        (hc₁.trans (.linkPort howns id timing)) g.tidy fun p l hl => g.keptPorts (hkept hl)
  exact hfold (c.linkedPorts x) (fun p hp => h.owns_linkedPorts hp)
    (.setCellTiming c x ⟨id, timing.name⟩) (h.setCellTiming x ⟨id, timing.name⟩).tidy
    fun p l hl => hl

end DesignView.Catalog
