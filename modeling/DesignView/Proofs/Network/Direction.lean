import DesignView.Network.Drive
import DesignView.Proofs.Network.Sound

/-!
What decides whether a pin drives its net, and whether it is a supply pin. For a leaf pin it is the
terminal of its master and the timing port that this is linked to; for a boundary pin of the design
it is the types of the terminal; a pin of the hierarchy never drives.
-/

namespace DesignView.Network

variable {n n' : Network} {d d' : Design} {p : Pin}

def Drives (n : Network) (p : Pin) : Prop := n.isDriver p = .ok true

/-- The direction of the timing port that a terminal of a master is linked to. -/
def linkedDirection? (n : Network) (m : MTermId) : Option PortDirection :=
  (((n.catalog.portOfMTerm? m).bind n.catalog.port?).bind Port.timing).bind n.timingPort?

def terminalDirection (n : Network) (m : MTermId) : PortDirection :=
  match n.linkedDirection? m with
  | some direction => direction
  | none =>
    match n.db.mterms.find? m with
    | some t => .ofTypes t.sig t.io
    | none => .unknown

theorem timedDirection?_flat (hd : n.design? = some d) {t : ITermId} {x : ITerm}
    (hx : d.iterms.find? t = some x) :
    n.timedDirection? (.flat t) = .ok (n.linkedDirection? x.mterm) := by
  refine bind_eq_ok.2 ⟨n.catalog.portOfMTerm? x.mterm, ?_, rfl⟩
  simp only [portOf, hd]
  exact bind_eq_ok.2 ⟨x, Table.fetch_eq_ok.2 hx, rfl⟩

theorem typesOf_flat (hd : n.design? = some d) {t : ITermId} {x : ITerm}
    (hx : d.iterms.find? t = some x) :
    n.typesOf (.flat t) = .ok ((n.db.mterms.find? x.mterm).map fun y => (y.sig, y.io)) := by
  have hdb : n.db.design? = some d := hd
  simp only [typesOf, hd, Database.itermTypes?, hdb]
  exact bind_eq_ok.2 ⟨x, Table.fetch_eq_ok.2 hx, rfl⟩

theorem typesOf_boundary (hd : n.design? = some d) {t : BTermId} {x : BTerm}
    (hx : d.bterms.find? t = some x) : n.typesOf (.boundary t) = .ok (some (x.sig, x.io)) := by
  simp only [typesOf, hd]
  exact bind_eq_ok.2 ⟨x, Table.fetch_eq_ok.2 hx, rfl⟩

theorem isDriver_flat (hd : n.design? = some d) {t : ITermId} {x : ITerm}
    (hx : d.iterms.find? t = some x) :
    n.isDriver (.flat t) = .ok (n.terminalDirection x.mterm).isAnyOutput := by
  refine bind_eq_ok.2 ⟨n.terminalDirection x.mterm, ?_, rfl⟩
  refine bind_eq_ok.2 ⟨_, timedDirection?_flat hd hx, ?_⟩
  unfold terminalDirection
  cases n.linkedDirection? x.mterm with
  | some direction => rfl
  | none =>
    refine bind_eq_ok.2 ⟨_, typesOf_flat hd hx, ?_⟩
    cases n.db.mterms.find? x.mterm <;> rfl

theorem isDriver_boundary (hd : n.design? = some d) {t : BTermId} {x : BTerm}
    (hx : d.bterms.find? t = some x) :
    n.isDriver (.boundary t) = .ok (PortDirection.ofTypes x.sig x.io).isAnyInput := by
  refine bind_eq_ok.2 ⟨.ofTypes x.sig x.io, ?_, rfl⟩
  exact bind_eq_ok.2 ⟨none, rfl, bind_eq_ok.2 ⟨_, typesOf_boundary hd hx, rfl⟩⟩

theorem isDriver_of_hierarchical (hp : p.isHierarchical = true) : n.isDriver p = .ok false := by
  cases p with
  | flat | boundary => cases hp
  | module | moduleBoundary => rfl

theorem Drives.leaf (h : n.Drives p) : p.isHierarchical = false := by
  by_contra hp
  have := (isDriver_of_hierarchical (eq_true_of_ne_false hp)).symm.trans h
  cases this

theorem isSupply_flat (hd : n.design? = some d) {t : ITermId} {x : ITerm}
    (hx : d.iterms.find? t = some x) :
    n.isSupply (.flat t) = .ok ((n.db.mterms.find? x.mterm).any fun y => y.sig.isSupply) := by
  refine bind_eq_ok.2 ⟨_, typesOf_flat hd hx, ?_⟩
  cases n.db.mterms.find? x.mterm <;> rfl

theorem isSupply_boundary (hd : n.design? = some d) {t : BTermId} {x : BTerm}
    (hx : d.bterms.find? t = some x) : n.isSupply (.boundary t) = .ok x.sig.isSupply :=
  bind_eq_ok.2 ⟨_, typesOf_boundary hd hx, rfl⟩

theorem isDriver_ok (hd : n.design? = some d) (hp : d.Live p) : ∃ b, n.isDriver p = .ok b := by
  cases p with
  | flat t =>
    obtain ⟨x, hx⟩ := Table.mem_ids_iff.1 hp
    exact ⟨_, isDriver_flat hd hx⟩
  | boundary t =>
    obtain ⟨x, hx⟩ := Table.mem_ids_iff.1 hp
    exact ⟨_, isDriver_boundary hd hx⟩
  | module | moduleBoundary => exact ⟨false, rfl⟩

theorem Drives.live (hd : n.design? = some d) (h : n.Drives p) : d.Live p := by
  cases p with
  | flat t =>
    obtain ⟨direction, h, -⟩ := bind_eq_ok.1 h
    obtain ⟨timed?, h, -⟩ := bind_eq_ok.1 h
    obtain ⟨port?, h, -⟩ := bind_eq_ok.1 h
    simp only [portOf, hd] at h
    obtain ⟨x, hx, -⟩ := bind_eq_ok.1 h
    exact Table.mem_ids_of_find? (Table.fetch_eq_ok.1 hx)
  | boundary t =>
    obtain ⟨direction, h, -⟩ := bind_eq_ok.1 h
    obtain ⟨timed?, ht, h⟩ := bind_eq_ok.1 h
    cases pure_eq_ok.1 ht
    obtain ⟨types?, h, -⟩ := bind_eq_ok.1 h
    simp only [typesOf, hd] at h
    obtain ⟨x, hx, -⟩ := bind_eq_ok.1 h
    exact Table.mem_ids_of_find? (Table.fetch_eq_ok.1 hx)
  | module | moduleBoundary => cases h

theorem isSignalDriver_eq_true :
    n.isSignalDriver p = .ok true ↔ n.isSignal p = .ok true ∧ n.Drives p := by
  constructor
  · intro h
    obtain ⟨s, hs, h⟩ := bind_eq_ok.1 h
    cases s
    · cases pure_eq_ok.1 h
    · exact ⟨hs, h⟩
  · rintro ⟨hs, h⟩
    exact bind_eq_ok.2 ⟨true, hs, h⟩

theorem Sound.isSignalDriver_ok (h : n.Sound) (hd : n.design? = some d) (hp : d.Live p) :
    ∃ b, n.isSignalDriver p = .ok b := by
  obtain ⟨s, hs⟩ := h.isSignal_ok hd hp
  obtain ⟨b, hb⟩ := isDriver_ok hd hp
  cases s
  · exact ⟨false, bind_eq_ok.2 ⟨false, hs, rfl⟩⟩
  · exact ⟨b, bind_eq_ok.2 ⟨true, hs, hb⟩⟩

/-- The networks answer alike whether the pin drives and whether it is a supply pin. -/
def SameClass (n n' : Network) (p : Pin) : Prop :=
  n'.isDriver p = n.isDriver p ∧ n'.isSignal p = n.isSignal p

structure SameTerminals (n n' : Network) : Prop where
  mterms : n'.db.mterms = n.db.mterms
  linked : ∀ m, n'.linkedDirection? m = n.linkedDirection? m

theorem SameTerminals.of_eq (hdb : n'.db.mterms = n.db.mterms) (hcatalog : n'.catalog = n.catalog)
    (htiming : n'.timing = n.timing) : n.SameTerminals n' := by
  refine ⟨hdb, fun m => ?_⟩
  have hport : n'.timingPort? = n.timingPort? := by
    unfold timingPort? timingCell? timingLibrary?
    rw [htiming]
  rw [linkedDirection?, hcatalog, hport, linkedDirection?]

theorem SameTerminals.flat (h : n.SameTerminals n') (hd : n.design? = some d)
    (hd' : n'.design? = some d') {t : ITermId} {x : ITerm} (hx : d.iterms.find? t = some x)
    (hx' : d'.iterms.find? t = some x) : n.SameClass n' (.flat t) := by
  have hdir : n'.terminalDirection x.mterm = n.terminalDirection x.mterm := by
    rw [terminalDirection, h.linked, h.mterms, terminalDirection]
  constructor
  · rw [isDriver_flat hd hx, isDriver_flat hd' hx', hdir]
  · rw [isSignal, isSignal, isSupply_flat hd hx, isSupply_flat hd' hx', h.mterms]

theorem SameClass.boundary (hd : n.design? = some d) (hd' : n'.design? = some d') {t : BTermId}
    {x : BTerm} (hx : d.bterms.find? t = some x) (hx' : d'.bterms.find? t = some x) :
    n.SameClass n' (.boundary t) := by
  constructor
  · rw [isDriver_boundary hd hx, isDriver_boundary hd' hx']
  · rw [isSignal, isSignal, isSupply_boundary hd hx, isSupply_boundary hd' hx']

theorem SameTerminals.sameClass (h : n.SameTerminals n') (hd : n.design? = some d)
    (hd' : n'.design? = some d') (hp : d.Live p) (hleaf : p.isHierarchical = false)
    (hiterm : ∀ t x, p = .flat t → d.iterms.find? t = some x → d'.iterms.find? t = some x)
    (hbterm : ∀ t x, p = .boundary t → d.bterms.find? t = some x → d'.bterms.find? t = some x) :
    n.SameClass n' p := by
  cases p with
  | flat t =>
    obtain ⟨x, hx⟩ := Table.mem_ids_iff.1 hp
    exact h.flat hd hd' hx (hiterm t x rfl hx)
  | boundary t =>
    obtain ⟨x, hx⟩ := Table.mem_ids_iff.1 hp
    exact SameClass.boundary hd hd' hx (hbterm t x rfl hx)
  | module | moduleBoundary => cases hleaf

end DesignView.Network
