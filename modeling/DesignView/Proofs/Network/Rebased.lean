import DesignView.Network.Number
import DesignView.Proofs.Network.FlatLoad

/-!
Questions to a network over another database. Without the hierarchy, what is asked about a handle
outside the module hierarchy is answered from what databases with the same flat netlist share. A
pin that is shown on a flat net has no other side, so a sweep from this net goes no further.
-/

namespace DesignView.Network

variable {n : Network} {db : Database} {d : Design} {i : Instance} {p : Pin} {x : NetId}
variable {b : OrderedMap (ModuleId × String) ModBTermId}

section Rebased

variable (h : n.db.SameFlat db) (hn : n.hierarchy = false)

include h in
theorem designs_rebased : n.design? = none ∧ (n.rebased db b).design? = none ∨
    ∃ d d', n.design? = some d ∧ (n.rebased db b).design? = some d' ∧ d.SameFlat d' := h.designs

include hn in
theorem hierarchy_rebased : (n.rebased db b).hierarchy = false := hn

include h hn in
theorem children_rebased (hi : i.module? = none) :
    (n.rebased db b).children i = n.children i := by
  unfold children
  rcases designs_rebased h with ⟨hd, hd'⟩ | ⟨d, d', hd, hd', hs⟩
  · rw [hd, hd']
  · simp only [hd, hd', hn, hierarchy_rebased hn, hs.ids]
    cases i <;> first | rfl | cases hi

include hn in
theorem parent_rebased (hi : i.module? = none) : (n.rebased db b).parent i = n.parent i := by
  unfold parent
  cases i with
  | top => rfl
  | flat id => simp only [hn, hierarchy_rebased hn, Bool.false_eq_true, if_false]
  | module id => cases hi

include h hn in
theorem childNamed?_rebased (hi : i.module? = none) (name : String) :
    (n.rebased db b).childNamed? i name = n.childNamed? i name := by
  unfold childNamed?
  rcases designs_rebased h with ⟨hd, hd'⟩ | ⟨d, d', hd, hd', hs⟩
  · rw [hd, hd']
  · simp only [hd, hd', hn, hierarchy_rebased hn, hs.instNamed?, Bool.false_eq_true, if_false]
    cases i <;> first | rfl | cases hi

include h hn in
theorem instanceAt?_rebased (path : String) :
    (n.rebased db b).instanceAt? path = n.instanceAt? path := by
  unfold instanceAt?
  rcases designs_rebased h with ⟨hd, hd'⟩ | ⟨d, d', hd, hd', hs⟩
  · rw [hd, hd']
  · simp only [hd, hd', hn, hierarchy_rebased hn, hs.instNamed?, Bool.false_eq_true, if_false]

include h hn in
theorem netNamed?_rebased (hi : i.module? = none) (name : String) :
    (n.rebased db b).netNamed? i name = n.netNamed? i name := by
  unfold netNamed?
  rcases designs_rebased h with ⟨hd, hd'⟩ | ⟨d, d', hd, hd', hs⟩
  · rw [hd, hd']
  · simp only [hd, hd', hn, hierarchy_rebased hn, hs.netNamed?, Bool.false_eq_true, if_false]
    cases i <;> first | rfl | cases hi

include h hn in
theorem netsMatching_rebased (i : Instance) (pattern : String) :
    (n.rebased db b).netsMatching i pattern = n.netsMatching i pattern := by
  unfold netsMatching
  rcases designs_rebased h with ⟨hd, hd'⟩ | ⟨d, d', hd, hd', hs⟩
  · rw [hd, hd']
  · simp only [hd, hd', hn, hierarchy_rebased hn, Table.entries_congr hs.nets, Bool.false_eq_true,
      if_false]

include h hn in
theorem netsOf_rebased (hi : i.module? = none) : (n.rebased db b).netsOf i = n.netsOf i := by
  unfold netsOf
  rcases designs_rebased h with ⟨hd, hd'⟩ | ⟨d, d', hd, hd', hs⟩
  · rw [hd, hd']
  · simp only [hd, hd', hn, hierarchy_rebased hn, Table.ids_congr hs.nets, Bool.false_eq_true,
      if_false]
    cases i <;> first | rfl | cases hi

include h in
theorem pinNamed?_rebased (hi : i.module? = none) (port : String) :
    (n.rebased db b).pinNamed? i port = n.pinNamed? i port := by
  unfold pinNamed?
  rcases designs_rebased h with ⟨hd, hd'⟩ | ⟨d, d', hd, hd', hs⟩
  · rw [hd, hd']
  · simp only [hd, hd', hs.btermNamed?, hs.itermOf]
    cases i <;> first | rfl | cases hi

include h in
theorem portOf_rebased (hp : p.isHierarchical = false) :
    (n.rebased db b).portOf p = n.portOf p := by
  unfold portOf
  rcases designs_rebased h with ⟨hd, hd'⟩ | ⟨d, d', hd, hd', hs⟩
  · rw [hd, hd']
  · simp only [hd, hd', hs.iterm, hs.bterm]
    cases p <;> first | rfl | cases hp

include h in
theorem typesOf_rebased (hp : p.isHierarchical = false) :
    (n.rebased db b).typesOf p = n.typesOf p := by
  have htypes (t : ITermId) : (n.rebased db b).db.itermTypes? t = n.db.itermTypes? t :=
    h.itermTypes? t
  unfold typesOf
  rcases designs_rebased h with ⟨hd, hd'⟩ | ⟨d, d', hd, hd', hs⟩
  · rw [hd, hd']
  · simp only [hd, hd', htypes, hs.bterm]
    cases p <;> first | rfl | cases hp

include h in
theorem isSupply_rebased (hp : p.isHierarchical = false) :
    (n.rebased db b).isSupply p = n.isSupply p := by
  rw [isSupply, typesOf_rebased h hp, isSupply]

include h in
theorem isSignal_rebased (hp : p.isHierarchical = false) :
    (n.rebased db b).isSignal p = n.isSignal p := by
  rw [isSignal, isSupply_rebased h hp, isSignal]

include h in
theorem direction_rebased (hp : p.isHierarchical = false) :
    (n.rebased db b).direction p = n.direction p := by
  have htimed : (n.rebased db b).timedDirection? p = n.timedDirection? p := by
    unfold timedDirection?
    rw [portOf_rebased h hp]
    rfl
  rw [direction, htimed, typesOf_rebased h hp, direction]

theorem termOf_rebased (hp : p.isHierarchical = false) :
    (n.rebased db b).termOf p = n.termOf p := by
  cases p <;> first | rfl | cases hp

include h hn in
theorem netOf_rebased (hdb : n.db.WellFormed) (hdb' : db.WellFormed)
    (hp : p.isHierarchical = false) : (n.rebased db b).netOf p = n.netOf p := by
  unfold netOf
  rcases designs_rebased h with ⟨hd, hd'⟩ | ⟨d, d', hd, hd', hs⟩
  · rw [hd, hd']
  · have hwf : d.WellFormed := hdb.design hd
    have hwf' : d'.WellFormed := hdb'.design hd'
    -- A terminal is on the net that lists it, and the nets list the same terminals.
    have hitems := Design.netOf_congr hwf.itermNets.nodup hwf'.itermNets.nodup hs.itermNets
    have hbterms := Design.netOf_congr hwf.btermNets.nodup hwf'.btermNets.nodup hs.btermNets
    simp only [hd, hd', hn, hierarchy_rebased hn, hs.iterm, hs.bterm, hitems, hbterms,
      Bool.false_eq_true, if_false]
    cases p <;> first | rfl | cases hp

theorem flat_of_listed (hp : p ∈ n.listedOn (.flat x)) : p.isHierarchical = false := by
  unfold listedOn at hp
  split at hp
  · cases hp
  · rcases List.mem_append.1 hp with hp | hp
    · obtain ⟨t, -, rfl⟩ := List.mem_map.1 hp
      rfl
    · obtain ⟨t, -, rfl⟩ := List.mem_map.1 hp
      rfl

include h in
theorem listedOn_rebased (x : NetId) :
    (n.rebased db b).listedOn (.flat x) = n.listedOn (.flat x) := by
  unfold listedOn
  rcases designs_rebased h with ⟨hd, hd'⟩ | ⟨d, d', hd, hd', hs⟩
  · rw [hd, hd']
  · simp only [hd, hd', hs.itermNets, hs.btermNets]

theorem keepM_congr {α : Type} {test test' : α → Except Fault Bool} {xs : List α}
    (htest : ∀ a ∈ xs, test' a = test a) : keepM test' xs = keepM test xs := by
  induction xs with
  | nil => rfl
  | cons a xs ih =>
    rw [keepM, htest a List.mem_cons_self, ih fun a' ha' => htest a' (List.mem_cons_of_mem a ha'),
      keepM]

include h in
theorem pinsOn_rebased (x : NetId) : (n.rebased db b).pinsOn (.flat x) = n.pinsOn (.flat x) := by
  unfold pinsOn
  rw [listedOn_rebased h]
  exact keepM_congr fun p hp => isSignal_rebased h (flat_of_listed hp)

include h in
theorem termsOn_rebased (x : NetId) : (n.rebased db b).termsOn (.flat x) = n.termsOn (.flat x) := by
  rw [termsOn, listedOn_rebased h, termsOn]

include h in
theorem pinsOf_rebased (hi : i.module? = none) : (n.rebased db b).pinsOf i = n.pinsOf i := by
  have hsignals {pins : List Pin} (hpins : ∀ p ∈ pins, p.isHierarchical = false) :
      keepM (n.rebased db b).isSignal pins = keepM n.isSignal pins :=
    keepM_congr fun p hp => isSignal_rebased h (hpins p hp)
  unfold pinsOf
  rcases designs_rebased h with ⟨hd, hd'⟩ | ⟨d, d', hd, hd', hs⟩
  · rw [hd, hd']
  · rw [hd, hd']
    cases i with
    | top =>
      show keepM (n.rebased db b).isSignal (d'.bterms.ids.map .boundary) =
        keepM n.isSignal (d.bterms.ids.map .boundary)
      rw [Table.ids_congr hs.bterms]
      apply hsignals
      intro p hp
      obtain ⟨t, -, rfl⟩ := List.mem_map.1 hp
      rfl
    | flat id =>
      have hpins : keepM (n.rebased db b).isSignal ((d.itermsOf id).map fun e => .flat e.1) =
          keepM n.isSignal ((d.itermsOf id).map fun e => .flat e.1) := by
        apply hsignals
        intro p hp
        obtain ⟨e, -, rfl⟩ := List.mem_map.1 hp
        rfl
      show (d'.inst id >>= fun _ => keepM (n.rebased db b).isSignal
        ((d'.itermsOf id).map fun e => .flat e.1)) = _
      rw [hs.itermsOf, hpins]
      exact hs.inst_bind id _
    | module id => cases hi

theorem meet_eq_ok {test : Pin → Except Fault Bool} {s s' : Sweep} (e : s.meet test p = .ok s') :
    s'.work = s.work ∧ ∀ q ∈ s'.kept, q ∈ s.kept ∨ q = p := by
  unfold Sweep.meet at e
  split at e
  · cases pure_eq_ok.1 e
    exact ⟨rfl, fun q => .inl⟩
  · obtain ⟨keep, -, e⟩ := bind_eq_ok.1 e
    cases pure_eq_ok.1 e
    refine ⟨rfl, fun q hq => ?_⟩
    cases keep with
    | false => exact .inl hq
    | true => exact (List.mem_append.1 hq).imp_right List.mem_singleton.1

def meetAll (test : Pin → Except Fault Bool) (ps : List Pin) : Except Fault Sweep :=
  ps.foldlM (fun (s : Sweep) p => s.meet test p) {}

theorem meetAll_eq_ok {test : Pin → Except Fault Bool} {ps : List Pin} {s : Sweep}
    (e : meetAll test ps = .ok s) : s.work = [] ∧ ∀ q ∈ s.kept, q ∈ ps := by
  suffices h : ∀ {s₀ : Sweep}, ps.foldlM (fun (s : Sweep) p => s.meet test p) s₀ = .ok s →
      s.work = s₀.work ∧ ∀ q ∈ s.kept, q ∈ s₀.kept ∨ q ∈ ps from
    ⟨(h e).1, fun q hq => ((h e).2 q hq).resolve_left List.not_mem_nil⟩
  clear e
  intro s₀ e
  induction ps generalizing s₀ with
  | nil =>
    cases pure_eq_ok.1 e
    exact ⟨rfl, fun q => .inl⟩
  | cons p ps ih =>
    obtain ⟨s₁, e₁, e⟩ := bind_eq_ok.1 e
    obtain ⟨hwork₁, hkept₁⟩ := meet_eq_ok e₁
    obtain ⟨hwork, hkept⟩ := ih e
    refine ⟨hwork.trans hwork₁, fun q hq => ?_⟩
    rcases hkept q hq with hq | hq
    · rcases hkept₁ q hq with hq | rfl
      · exact .inl hq
      · exact .inr List.mem_cons_self
    · exact .inr (List.mem_cons_of_mem p hq)

theorem cross_of_leaf (n : Network) (test : Pin → Except Fault Bool) (s : Sweep)
    (hp : p.isHierarchical = false) : n.cross test s p = s.meet test p := by
  have hfacing : n.facing p = .ok none := by cases p <;> first | rfl | cases hp
  unfold cross
  rw [hfacing]
  cases s.meet test p <;> rfl

/-- A sweep from a flat net walks this net and no other. -/
theorem sweepFrom_flat (n : Network) (test : Pin → Except Fault Bool) (x : NetId) :
    n.sweepFrom test (.flat x) [] =
      if n.design? = none then .ok ([], [])
      else if .flat x ∈ n.nets then do
        return ([.flat x], (← meetAll test (n.listedOn (.flat x))).kept)
      else .ok ([.flat x], []) := by
  have hdone (met kept : List Pin) (visited : List Net) :
      n.sweep test ⟨met, kept, []⟩ visited = .ok (visited, kept) := by rw [sweep]
  have hcross : (n.listedOn (.flat x)).foldlM (n.cross test) {} =
      meetAll test (n.listedOn (.flat x)) :=
    foldlM_congr (fun s p hp => n.cross_of_leaf test s (flat_of_listed hp)) {}
  unfold sweepFrom
  cases hd : n.design? with
  | none => rfl
  | some d =>
    rw [if_neg (Option.some_ne_none d)]
    show n.sweep test ⟨[], [], [.flat x]⟩ [] = _
    rw [sweep, if_neg List.not_mem_nil, List.nil_append]
    by_cases hx : Net.flat x ∈ n.nets
    · rw [if_neg (not_not_intro hx), if_pos hx, hcross]
      cases e : meetAll test (n.listedOn (.flat x)) with
      | error fault => rfl
      | ok s =>
        -- Nothing was queued on the way, so the sweep ends with this net.
        have hwork : s.work = [] := (meetAll_eq_ok e).1
        obtain ⟨met, kept, work⟩ := s
        cases hwork
        exact hdone met kept _
    · rw [if_pos hx, if_neg hx]
      exact hdone [] [] _

include h in
theorem sweepFrom_rebased {test test' : Pin → Except Fault Bool}
    (htest : ∀ p : Pin, p.isHierarchical = false → test' p = test p) (x : NetId) :
    (n.rebased db b).sweepFrom test' (.flat x) [] = n.sweepFrom test (.flat x) [] := by
  have hdesign : (n.rebased db b).design? = none ↔ n.design? = none := by
    rcases designs_rebased h with ⟨hd, hd'⟩ | ⟨d, d', hd, hd', -⟩
    · rw [hd, hd']
    · simp [hd, hd']
  have hnets : Net.flat x ∈ (n.rebased db b).nets ↔ Net.flat x ∈ n.nets := by
    unfold nets
    rcases designs_rebased h with ⟨hd, hd'⟩ | ⟨d, d', hd, hd', hs⟩
    · rw [hd, hd']
    · simp [hd, hd', Table.ids_congr hs.nets]
  have hmeet : meetAll test' (n.listedOn (.flat x)) = meetAll test (n.listedOn (.flat x)) := by
    apply foldlM_congr
    intro s p hp
    rw [Sweep.meet, htest p (flat_of_listed hp), Sweep.meet]
  rw [sweepFrom_flat, sweepFrom_flat, listedOn_rebased h, hmeet]
  simp only [hdesign, hnets]

include h in
theorem connectedPins_rebased (x : NetId) :
    (n.rebased db b).connectedPins (.flat x) = n.connectedPins (.flat x) := by
  unfold connectedPins connectedFrom
  rw [sweepFrom_rebased h fun p hp => isSignal_rebased h hp]

include h in
theorem connectedNets_rebased (x : NetId) :
    (n.rebased db b).connectedNets (.flat x) = n.connectedNets (.flat x) := by
  unfold connectedNets addConnectedNets
  rw [sweepFrom_rebased h fun _ _ => rfl]

include h in
theorem isSignalDriver_rebased (hp : p.isHierarchical = false) :
    (n.rebased db b).isSignalDriver p = n.isSignalDriver p := by
  have hdriver : (n.rebased db b).isDriver p = n.isDriver p := by
    unfold isDriver
    rw [direction_rebased h hp]
  rw [isSignalDriver, isSignal_rebased h hp, hdriver, isSignalDriver]

include h in
theorem driversOf_rebased (x : NetId) : (n.rebased db b).driversOf (.flat x) =
    (n.driversOf (.flat x)).map fun r => (r.1, r.2.rebased db b) := by
  have hkept : (n.rebased db b).drivers.find? (.flat x) = n.drivers.find? (.flat x) := rfl
  have hsweep : (n.rebased db b).sweepFrom (n.rebased db b).isSignalDriver (.flat x) [] =
      n.sweepFrom n.isSignalDriver (.flat x) [] :=
    sweepFrom_rebased h (fun p hp => isSignalDriver_rebased h hp) x
  unfold driversOf
  rw [hkept, hsweep]
  cases n.drivers.find? (.flat x) with
  | some pins => rfl
  | none => cases n.sweepFrom n.isSignalDriver (.flat x) [] <;> rfl

end Rebased

theorem Twin.driversOf {m n' : Network} (h : n.Twin m) (x : NetId) {ps : List Pin}
    (e : n.driversOf (.flat x) = .ok (ps, n')) :
    ∃ m', m.driversOf (.flat x) = .ok (ps, m') ∧ n'.Twin m' ∧ n'.settings = n.settings := by
  obtain ⟨db, b, hdb, rfl⟩ := h
  have honly : n'.db = n.db ∧ n'.settings = n.settings := by
    obtain ⟨drivers, rfl⟩ := exists_of_driversOf e
    exact ⟨rfl, rfl⟩
  have e' := driversOf_rebased (b := b) hdb x
  rw [e] at e'
  refine ⟨_, e', ⟨db, b, ?_, rfl⟩, honly.2⟩
  rw [honly.1]
  exact hdb

end DesignView.Network
