import DesignView.Proofs.Catalog.Building

/-!
What lasts in a catalog. A number that has been given out is not given out again, so a port found
under an old number is the old port: through any loads it keeps its name, its cell, its source and
its direction for as long as it is there.
-/

namespace DesignView.Catalog

variable {c c' c'' : Catalog} {timing : List TimingLibrary}

/-- What is found under an old number was there before, with the same label and direction. -/
structure Lasts (c c' : Catalog) : Prop where
  count : c.count ≤ c'.count
  port : ∀ ⦃p q'⦄, c'.ports.find? p = some q' → p.num ≤ c.count →
    ∃ q, c.ports.find? p = some q ∧ q'.label = q.label ∧ q'.direction = q.direction

namespace Lasts

theorem refl (c : Catalog) : c.Lasts c := ⟨Nat.le_refl _, fun _ q hq _ => ⟨q, hq, rfl, rfl⟩⟩

theorem trans (h : c.Lasts c') (h' : c'.Lasts c'') : c.Lasts c'' := by
  refine ⟨Nat.le_trans h.count h'.count, fun p q'' hq'' hp => ?_⟩
  obtain ⟨q', hq', hlabel', hdirection'⟩ := h'.port hq'' (Nat.le_trans hp h.count)
  obtain ⟨q, hq, hlabel, hdirection⟩ := h.port hq' hp
  exact ⟨q, hq, hlabel'.trans hlabel, hdirection'.trans hdirection⟩

theorem foldl {ε : Type} {step : Catalog → ε → Catalog}
    (hstep : ∀ (c : Catalog) (e : ε), c.Lasts (step c e)) (es : List ε) (c : Catalog) :
    c.Lasts (es.foldl step c) :=
  List.foldlRecOn (motive := c.Lasts) es step (refl c) fun c' hc' e _ => hc'.trans (hstep c' e)

theorem of_find? (hcount : c.count ≤ c'.count)
    (hports : ∀ ⦃p q⦄, c'.ports.find? p = some q → c.ports.find? p = some q) : c.Lasts c' :=
  ⟨hcount, fun _ q hq _ => ⟨q, hports hq, rfl, rfl⟩⟩

theorem insert {q : Port} (hcount : c'.count = c.count + 1)
    (hports : c'.ports = c.ports.insert ⟨c.count + 1⟩ q) : c.Lasts c' := by
  refine ⟨hcount ▸ Nat.le_succ _, fun p q' hq' hp => ?_⟩
  rw [hports, OrderedMap.find?_insert, if_neg] at hq'
  · exact ⟨q', hq', rfl, rfl⟩
  · rintro rfl
    exact absurd hp (Nat.not_succ_le_self _)

theorem modify {t : PortId} {f : Port → Port} (hlabel : ∀ q, (f q).label = q.label)
    (hdirection : ∀ q, (f q).direction = q.direction) (hcount : c'.count = c.count)
    (hports : c'.ports = c.ports.modify t f) : c.Lasts c' := by
  refine ⟨Nat.le_of_eq hcount.symm, fun p q' hq' _ => ?_⟩
  rw [hports, OrderedMap.find?_modify] at hq'
  split at hq'
  · obtain ⟨q, hq, rfl⟩ := Option.map_eq_some_iff.1 hq'
    exact ⟨q, hq, hlabel q, hdirection q⟩
  · exact ⟨q', hq', rfl, rfl⟩

theorem addPort (c : Catalog) (cell : CellId) (name : String) (source : PortSource)
    (direction : PortDirection) : c.Lasts (c.addPort cell name source direction).2 := insert rfl rfl

theorem addGroup (c : Catalog) (cell : CellId) (name : String) (shape : PortShape) :
    c.Lasts (c.addGroup cell name shape).2 := insert rfl rfl

theorem setShape (c : Catalog) (port : PortId) (shape : PortShape) :
    c.Lasts (c.setShape port shape) :=
  modify (f := fun q => { q with shape }) (fun _ => rfl) (fun _ => rfl) rfl rfl

theorem removeLibrary (ht : c.Tidy) (id : LibraryId) : c.Lasts (c.removeLibrary id) := by
  refine of_find? (Nat.le_refl _) fun p q hq => ?_
  rw [ht.ports_removeLibrary, Option.filter_eq_some_iff] at hq
  exact hq.1

theorem buildCell (c : Catalog) (library : LibraryId) (name : String) (source : CellSource)
    (ps : List PortSpec) : c.Lasts (c.buildCell library name source ps) := by
  have hcell : c.Lasts (c.addCell library name source).2 := .of_find? (Nat.le_succ _) fun _ _ => id
  exact hcell.trans (foldl (fun c (s : PortSpec) => addPort c _ s.name s.source s.direction) ps _)

theorem groupBus (c : Catalog) (cell : CellId) (msbFirst : Bool) (name : String)
    (bits : List (Nat × PortId)) : c.Lasts (c.groupBus cell msbFirst name bits).1 := by
  unfold Catalog.groupBus
  split
  · exact refl c
  · dsimp only
    split
    · exact (addGroup ..).trans (foldl (fun c (b : Nat × PortId) => setShape c b.2 _) _ _)
    · exact refl c

theorem groupBuses (c : Catalog) (cell : CellId) (msbFirst : String → Bool) :
    c.Lasts (c.groupBuses cell msbFirst).1 := by
  refine List.foldlRecOn (motive := fun acc : Catalog × List PortId => c.Lasts acc.1) _ _
    (refl c) fun acc hacc e _ => ?_
  exact hacc.trans (groupBus acc.1 cell _ e.1 e.2)

theorem bundle {cell : CellId} {name : String} {members : List PortId} {r : Option PortId}
    (e : c.bundle cell name members = .ok (r, c')) : c.Lasts c' := by
  rcases bundle_eq_ok e with rfl | ⟨-, -, -, rfl⟩
  · exact refl _
  · exact addGroup ..

theorem linkPort (c : Catalog) (library : TimingId) (timing : TimingCell) (id : PortId) :
    c.Lasts (c.linkPort library timing id) := by
  unfold Catalog.linkPort
  split
  · exact refl c
  · split
    · exact modify (f := fun q => { q with timing := some _ }) (fun _ => rfl) (fun _ => rfl) rfl rfl
    · exact refl c

theorem link (c : Catalog) (cell : CellId) (id : TimingId) (library : String)
    (timing : TimingCell) : c.Lasts (c.link cell id library timing).1 := by
  have hcell : c.Lasts (c.setCellTiming cell ⟨id, timing.name⟩) :=
    .of_find? (Nat.le_refl _) fun _ _ hq => hq
  exact hcell.trans (foldl (fun c p => linkPort c id timing p) _ _)

end Lasts

theorem Build.lasts (s : Build timing c c') (ht : c.Tidy) : c.Lasts c' := by
  cases s with
  | addLibrary name source => exact .of_find? (Nat.le_succ _) fun _ _ => id
  | removeLibrary id => exact .removeLibrary ht id
  | buildCell library name source => exact .buildCell c library name source _
  | groupBuses _ _ msbFirst => exact .groupBuses c _ msbFirst
  | link => exact .link ..
  | recordAll | setBoundaries => exact .of_find? (Nat.le_refl _) fun _ _ => id

theorem Builds.lasts (h : Builds timing c c') (hi : c.Intact) : c.Lasts c' := by
  induction h with
  | refl => exact .refl c
  | tail hrun s ih => exact ih.trans (s.lasts (Builds.steps hrun |>.intact hi).tidy)

end DesignView.Catalog
