import DesignView.Proofs.Catalog.Label

/-!
What building does to a catalog. Ports keep the numbers they were given, links lead to timing
libraries that have been loaded, and the boundary terminals found at the last load of the design are
not disturbed.
-/

namespace DesignView.Catalog

/-- The ports have been numbered, and what they are linked to has been loaded. -/
structure Numbered (c : Catalog) (timing : Nat) : Prop where
  numbered : ∀ e ∈ c.ports.entries, e.1.num ≤ c.count
  linked : ∀ e ∈ c.ports.entries, ∀ ref, e.2.timing = some ref → ref.library.index < timing

variable {c c' c'' : Catalog} {timing : Nat}

theorem numbered_empty : ({} : Catalog).Numbered timing := ⟨by simp, by simp⟩

theorem Numbered.mono (h : c.Numbered timing) {later : Nat} (hl : timing ≤ later) :
    c.Numbered later :=
  ⟨h.numbered, fun e he ref href => Nat.lt_of_lt_of_le (h.linked e he ref href) hl⟩

theorem Numbered.fresh (h : c.Numbered timing) : (⟨c.count + 1⟩ : PortId) ∉ c.ports.keys := by
  intro hin
  obtain ⟨e, he, hnum⟩ := List.mem_map.1 hin
  have hle := h.numbered e he
  rw [hnum] at hle
  exact Nat.not_succ_le_self _ hle

theorem Numbered.insert (h : c.Numbered timing) {p : Port} (hp : p.timing = none)
    (hcount : c'.count = c.count + 1) (hports : c'.ports = c.ports.insert ⟨c.count + 1⟩ p) :
    c'.Numbered timing := by
  constructor
  · intro e he
    rcases OrderedMap.mem_insert (hports ▸ he) with rfl | he
    · exact hcount ▸ Nat.le_refl _
    · exact hcount ▸ Nat.le_succ_of_le (h.numbered e he)
  · intro e he ref href
    rcases OrderedMap.mem_insert (hports ▸ he) with rfl | he
    · cases hp.symm.trans href
    · exact h.linked e he ref href

theorem Numbered.modify (h : c.Numbered timing) {id : PortId} {f : Port → Port}
    (hf : ∀ p ref, (f p).timing = some ref → p.timing = some ref ∨ ref.library.index < timing)
    (hcount : c'.count = c.count) (hports : c'.ports = c.ports.modify id f) :
    c'.Numbered timing := by
  constructor
  · intro e he
    obtain ⟨p, hp, -⟩ := OrderedMap.mem_modify (hports ▸ he)
    rw [hcount]
    exact h.numbered (e.1, p) hp
  · intro e he ref href
    obtain ⟨p, hp, hval⟩ := OrderedMap.mem_modify (hports ▸ he)
    rcases hval with hval | hval
    · exact h.linked _ hp ref (hval ▸ href)
    · rcases hf p ref (hval ▸ href) with hold | hlt
      · exact h.linked _ hp ref hold
      · exact hlt

theorem Numbered.narrow (h : c.Numbered timing) (hcount : c.count ≤ c'.count)
    (hports : ∀ e ∈ c'.ports.entries, e ∈ c.ports.entries) : c'.Numbered timing :=
  ⟨fun e he => Nat.le_trans (h.numbered e (hports e he)) hcount,
    fun e he => h.linked e (hports e he)⟩

/-- The second catalog is built from the first while that many timing libraries are loaded. -/
structure Built (timing : Nat) (c c' : Catalog) : Prop where
  boundaries : c'.boundaries = c.boundaries
  numbered : c.Numbered timing → c'.Numbered timing

namespace Built

theorem refl : c.Built timing c := ⟨rfl, id⟩

theorem trans (h : c.Built timing c') (h' : c'.Built timing c'') : c.Built timing c'' :=
  ⟨h'.boundaries.trans h.boundaries, fun hn => h'.numbered (h.numbered hn)⟩

theorem foldl {ε : Type} {step : Catalog → ε → Catalog}
    (hstep : ∀ (c : Catalog) (e : ε), c.Built timing (step c e)) (es : List ε) (c : Catalog) :
    c.Built timing (es.foldl step c) := by
  induction es generalizing c with
  | nil => exact refl
  | cons e es ih => exact (hstep c e).trans (ih (step c e))

theorem addLibrary (c : Catalog) (name : String) (source : LibrarySource) :
    c.Built timing (c.addLibrary name source).2 :=
  ⟨rfl, fun h => h.narrow (Nat.le_succ _) fun _ he => he⟩

theorem addCell (c : Catalog) (library : LibraryId) (name : String) (source : CellSource) :
    c.Built timing (c.addCell library name source).2 :=
  ⟨rfl, fun h => h.narrow (Nat.le_succ _) fun _ he => he⟩

theorem addPort (c : Catalog) (cell : CellId) (name : String) (source : PortSource)
    (direction : PortDirection) : c.Built timing (c.addPort cell name source direction).2 :=
  ⟨rfl, fun h => h.insert rfl rfl rfl⟩

theorem addPorts {ε : Type} (c : Catalog) (cell : CellId) (name : ε → String)
    (source : ε → PortSource) (direction : ε → PortDirection) (es : List ε) :
    c.Built timing (es.foldl (fun c e => (c.addPort cell (name e) (source e) (direction e)).2) c) :=
  foldl (fun c e => addPort c cell (name e) (source e) (direction e)) es c

theorem addGroup (c : Catalog) (cell : CellId) (name : String) (shape : PortShape) :
    c.Built timing (c.addGroup cell name shape).2 := ⟨rfl, fun h => h.insert rfl rfl rfl⟩

theorem setShape (c : Catalog) (port : PortId) (shape : PortShape) :
    c.Built timing (c.setShape port shape) :=
  ⟨rfl, fun h => h.modify (f := fun p => { p with shape }) (fun _ _ href => .inl href) rfl rfl⟩

theorem setDirection (c : Catalog) (port : PortId) (direction : PortDirection) :
    c.Built timing (c.setDirection port direction) :=
  ⟨rfl, fun h =>
    h.modify (f := fun p => { p with direction }) (fun _ _ href => .inl href) rfl rfl⟩

theorem setCellTiming (c : Catalog) (cell : CellId) (ref : TimingCellRef) :
    c.Built timing (c.setCellTiming cell ref) :=
  ⟨rfl, fun h => h.narrow (Nat.le_refl _) fun _ he => he⟩

theorem setPortTiming (c : Catalog) (port : PortId) {ref : TimingPortRef}
    (href : ref.library.index < timing) : c.Built timing (c.setPortTiming port ref) :=
  ⟨rfl, fun h => h.modify (f := fun p => { p with timing := some ref })
    (fun _ _ e => .inr (Option.some.inj e ▸ href)) rfl rfl⟩

theorem recordTimingMaster (c : Catalog) (library : TimingId) (cell : String) (master : MasterId) :
    c.Built timing (c.recordTimingMaster library cell master) :=
  ⟨rfl, fun h => h.narrow (Nat.le_refl _) fun _ he => he⟩

theorem removeLibrary (c : Catalog) (id : LibraryId) : c.Built timing (c.removeLibrary id) :=
  ⟨rfl, fun h => h.narrow (Nat.le_refl _) fun _ he => (List.mem_filter.1 he).1⟩

theorem groupBus (c : Catalog) (cell : CellId) (msbFirst : Bool) (name : String)
    (bits : List (Nat × PortId)) : c.Built timing (c.groupBus cell msbFirst name bits).1 := by
  unfold Catalog.groupBus
  split
  · exact refl
  · dsimp only
    split
    · exact (addGroup ..).trans (foldl (fun c (b : Nat × PortId) => setShape c b.2 _) _ _)
    · exact refl

theorem groupBuses (c : Catalog) (cell : CellId) (msbFirst : String → Bool) :
    c.Built timing (c.groupBuses cell msbFirst).1 := by
  refine List.foldlRecOn (motive := fun acc : Catalog × List PortId => c.Built timing acc.1) _ _
    refl fun acc hacc e _ => ?_
  exact hacc.trans (groupBus acc.1 cell _ e.1 e.2)

theorem bundle {cell : CellId} {name : String} {members : List PortId} {r : Option PortId}
    (e : c.bundle cell name members = .ok (r, c')) : c.Built timing c' := by
  rcases bundle_eq_ok e with rfl | ⟨-, -, -, rfl⟩
  · exact refl
  · exact addGroup ..

theorem linkPort (c : Catalog) {library : TimingId} (hl : library.index < timing)
    (cell : TimingCell) (id : PortId) : c.Built timing (c.linkPort library cell id) := by
  unfold Catalog.linkPort
  split
  · exact refl
  · split
    · exact setPortTiming c id hl
    · exact refl

theorem link (c : Catalog) (cell : CellId) {id : TimingId} (hl : id.index < timing)
    (library : String) (x : TimingCell) : c.Built timing (c.link cell id library x).1 :=
  (setCellTiming c cell _).trans (foldl (fun c p => linkPort c hl x p) _ _)

end Built

def linkOf? (c : Catalog) (m : MTermId) : Option TimingPortRef :=
  ((c.portOfMTerm? m).bind c.port?).bind Port.timing

theorem linkOf?_congr (h : c'.ports = c.ports) (m : MTermId) : c'.linkOf? m = c.linkOf? m := by
  rw [linkOf?, portOfMTerm?, linkOf?, portOfMTerm?, h]
  refine congrArg (Option.bind · Port.timing) (congrArg _ (funext fun id => ?_))
  rw [port?, port?, h]

theorem Numbered.linkOf?_insert (h : c.Numbered timing) {p : Port} (m : MTermId)
    (hp : p.source ≠ .physical m) (hports : c'.ports = c.ports.insert ⟨c.count + 1⟩ p) :
    c'.linkOf? m = c.linkOf? m := by
  have hfirst : c'.portOfMTerm? m = c.portOfMTerm? m := by
    rw [portOfMTerm?, hports]
    exact OrderedMap.firstKey?_insert_of_not h.fresh (decide_eq_false hp)
  rw [linkOf?, hfirst, linkOf?]
  cases hid : c.portOfMTerm? m with
  | none => rfl
  | some id =>
    obtain ⟨e, he, rfl⟩ := Option.map_eq_some_iff.1 hid
    have hne : e.1 ≠ ⟨c.count + 1⟩ := fun heq =>
      h.fresh (heq ▸ OrderedMap.mem_keys_of_mem (List.mem_of_find?_eq_some he))
    have hfind : c'.port? e.1 = c.port? e.1 := by
      rw [port?, hports, OrderedMap.find?_insert, if_neg hne, port?]
    exact congrArg (Option.bind · Port.timing) hfind

theorem linkOf?_setDirection (c : Catalog) (port : PortId) (direction : PortDirection)
    (m : MTermId) : (c.setDirection port direction).linkOf? m = c.linkOf? m := by
  have hfirst : (c.setDirection port direction).portOfMTerm? m = c.portOfMTerm? m :=
    OrderedMap.firstKey?_modify (f := fun p : Port => { p with direction }) fun _ => rfl
  rw [linkOf?, hfirst, linkOf?]
  cases c.portOfMTerm? m with
  | none => rfl
  | some id =>
    have hfind : (c.setDirection port direction).port? id =
        if id = port then (c.port? id).map fun p => { p with direction } else c.port? id :=
      OrderedMap.find?_modify ..
    simp only [Option.bind_some, hfind]
    split
    · cases c.port? id <;> rfl
    · rfl

theorem Numbered.linkOf?_bundle (h : c.Numbered timing) {cell : CellId} {name : String}
    {members : List PortId} {r : Option PortId} (e : c.bundle cell name members = .ok (r, c'))
    (m : MTermId) : c'.linkOf? m = c.linkOf? m := by
  unfold Catalog.bundle at e
  split at e
  · cases pure_eq_ok.1 e
    rfl
  · obtain ⟨x, -, e⟩ := bind_eq_ok.1 e
    split at e
    · cases pure_eq_ok.1 e
      exact h.linkOf?_insert m PortSource.noConfusion rfl
    · cases pure_eq_ok.1 e
      rfl

end DesignView.Catalog
