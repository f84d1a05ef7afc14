import DesignView.Network.Wire
import DesignView.Proofs.Physical.History
import DesignView.Proofs.Physical.Joined

/-!
What an edit of a design leaves alone. Apart from the pins that it touches, an edit keeps the nets
that a pin is on, the pin that faces it and its terminal. The touched pins are the ones that are
attached, detached, made or destroyed.
-/

namespace DesignView.Design

structure Keeps (d d' : Design) (touched : List Pin) : Prop where
  agree : d.Agree d' (· ∈ touched)
  iterms : ∀ ⦃t x⦄, Pin.flat t ∉ touched → d.iterms.find? t = some x → d'.iterms.find? t = some x
  bterms : ∀ ⦃t x⦄, Pin.boundary t ∉ touched → d.bterms.find? t = some x →
    d'.bterms.find? t = some x
  modBTerms : (∀ b, Pin.moduleBoundary b ∉ touched) → d'.modBTerms = d.modBTerms

variable {d d' : Design} {p q : Pin} {x : Net} {name : String}

theorem on_congr (hf : d'.flatNet? p = d.flatNet? p) (hm : d'.moduleNet? p = d.moduleNet? p) :
    d.On p x ↔ d'.On p x := by
  cases x
  · rw [On, On, hf]
  · rw [On, On, hm]

theorem not_on (hf : d.flatNet? p = none) (hm : d.moduleNet? p = none) : ¬d.On p x := by
  cases x <;> simp [On, hf, hm]

theorem opposite_congr {t : ModITermId} {b : ModBTermId}
    (ht : d'.modITerms.find? t = d.modITerms.find? t)
    (hb : d'.modBTerms.find? b = d.modBTerms.find? b)
    (hi : ∀ ⦃outer⦄, d.modITerms.find? t = some outer →
      d'.modInsts.find? outer.modInst = d.modInsts.find? outer.modInst) :
    d.Opposite t b ↔ d'.Opposite t b := by
  constructor
  · rintro ⟨outer, inner, i, hto, hbi, hio, hm, hname⟩
    exact ⟨outer, inner, i, ht.trans hto, hb.trans hbi, (hi hto).trans hio, hm, hname⟩
  · rintro ⟨outer, inner, i, hto, hbi, hio, hm, hname⟩
    have hto' := ht.symm.trans hto
    exact ⟨outer, inner, i, hto', hb.symm.trans hbi, (hi hto').symm.trans hio, hm, hname⟩

theorem faces_congr (h : ∀ t b, p = .module t ∧ q = .moduleBoundary b ∨
    q = .module t ∧ p = .moduleBoundary b → (d.Opposite t b ↔ d'.Opposite t b)) :
    d.Faces p q ↔ d'.Faces p q := by
  cases p <;> cases q
  case module.moduleBoundary t b => exact h t b (.inl ⟨rfl, rfl⟩)
  case moduleBoundary.module b t => exact h t b (.inr ⟨rfl, rfl⟩)
  all_goals exact Iff.rfl

theorem agree_of_opposite {touched : List Pin}
    (hon : ∀ ⦃p⦄, p ∉ touched → ∀ x, d.On p x ↔ d'.On p x)
    (hopposite : ∀ ⦃t b⦄, Pin.module t ∉ touched → Pin.moduleBoundary b ∉ touched →
      (d.Opposite t b ↔ d'.Opposite t b)) : d.Agree d' (· ∈ touched) := by
  refine ⟨hon, fun p q hp hq => faces_congr fun t b hpq => ?_⟩
  rcases hpq with ⟨rfl, rfl⟩ | ⟨rfl, rfl⟩
  · exact hopposite hp hq
  · exact hopposite hq hp

theorem createNet_keeps {id : NetId} (e : d.createNet name = .ok (id, d')) : d.Keeps d' [] := by
  obtain ⟨-, -, rfl⟩ := createNet_ok e
  exact ⟨⟨fun _ _ _ => Iff.rfl, fun _ _ _ _ => Iff.rfl⟩, fun _ _ _ h => h, fun _ _ _ h => h,
    fun _ => rfl⟩

theorem createModNet_keeps {module : ModuleId} {id : ModNetId}
    (e : d.createModNet module name = .ok (id, d')) : d.Keeps d' [] := by
  obtain ⟨-, -, -, rfl⟩ := createModNet_ok e
  exact ⟨⟨fun _ _ _ => Iff.rfl, fun _ _ _ _ => Iff.rfl⟩, fun _ _ _ h => h, fun _ _ _ h => h,
    fun _ => rfl⟩

theorem WellFormed.createInst_keeps (h : d.WellFormed) {master : MasterId}
    {terms : List (MTermId × MTerm)} {module? : Option ModuleId} {id : InstId}
    (e : d.createInst name master terms module? = .ok (id, d')) : d.Keeps d' [] := by
  obtain ⟨-, -, -, rfl⟩ := createInst_ok e
  exact ⟨⟨fun _ _ _ => Iff.rfl, fun _ _ _ _ => Iff.rfl⟩,
    fun _ _ _ hx => h.iterms.find?_insertAll_of_some _ _ hx, fun _ _ _ hx => hx, fun _ => rfl⟩

theorem WellFormed.createBTerm_keeps (h : d.WellFormed) {id : BTermId}
    (e : d.createBTerm name none = .ok (id, d')) : d.Keeps d' [] := by
  obtain ⟨-, -, e⟩ := createBTerm_ok e
  obtain rfl : d' = { d with bterms := (d.bterms.insert { name }).2 } := e
  exact ⟨⟨fun _ _ _ => Iff.rfl, fun _ _ _ _ => Iff.rfl⟩, fun _ _ _ hx => hx,
    fun _ _ _ hx => h.bterms.find?_insert_of_some _ hx, fun _ => rfl⟩

theorem WellFormed.createModInst_keeps (h : d.WellFormed) {parent master : ModuleId}
    {id : ModInstId} (e : d.createModInst parent master name = .ok (id, d')) : d.Keeps d' [] := by
  obtain ⟨-, -, -, -, -, -, rfl⟩ := createModInst_ok e
  -- A terminal that is there belongs to an instance that was there before.
  refine ⟨agree_of_opposite (fun _ _ _ => Iff.rfl) fun t b _ _ => ?_, fun _ _ _ hx => hx,
    fun _ _ _ hx => hx, fun _ => rfl⟩
  refine opposite_congr rfl rfl fun outer hout => ?_
  obtain ⟨i, hi⟩ := Table.mem_ids_iff.1 (h.modITermModInst hout)
  rw [hi]
  exact h.modInsts.find?_insert_of_some _ hi

theorem WellFormed.createModITerm_keeps (h : d.WellFormed) {modInst : ModInstId} {id : ModITermId}
    (e : d.createModITerm modInst name = .ok (id, d')) : d.Keeps d' [.module id] ∧
      ∀ x, ¬d.On (.module id) x ∧ ¬d'.On (.module id) x := by
  obtain ⟨-, -, hid, rfl⟩ := createModITerm_ok e
  have hfresh : id ∉ d.modITerms.ids := hid ▸ h.modITerms.fresh _
  refine ⟨⟨agree_of_opposite (fun _ _ _ => Iff.rfl) fun t b ht _ => ?_, fun _ _ _ hx => hx,
    fun _ _ _ hx => hx, fun _ => rfl⟩, fun x => ?_⟩
  · refine opposite_congr ?_ rfl fun _ _ => rfl
    have hne : t ≠ id := fun e => ht (e ▸ List.mem_singleton_self _)
    rw [Table.find?_insert, ← hid, if_neg hne]
  · have hoff : ¬d.On (.module id) x := fun hon => hfresh (h.live_of_on hon).1
    exact ⟨hoff, hoff⟩

theorem attach?_keeps {net : Net} (e : d.attach? p net = some d') : d.Keeps d' [p] := by
  have hne {k : Kind} {f : Id k → Pin} {s t : Id k} (h : f s ∉ [f t]) : s ≠ t :=
    fun e => h (e ▸ List.mem_singleton_self _)
  cases p <;> cases net
  case module.flat | moduleBoundary.flat => cases e
  all_goals
    cases e
    refine ⟨⟨fun q hq x => on_congr ?_ ?_, fun _ _ _ _ => Iff.rfl⟩, fun _ _ _ h => h,
      fun _ _ _ h => h, fun _ => rfl⟩
    all_goals
      cases q
      all_goals first
        | rfl
        | exact (Attachments.netOf_move ..).trans (if_neg (hne hq))

theorem detach_keeps (d : Design) (p : Pin) : d.Keeps (d.detach p) [p] := by
  have hne {k : Kind} {f : Id k → Pin} {s t : Id k} (h : f s ∉ [f t]) : s ≠ t :=
    fun e => h (e ▸ List.mem_singleton_self _)
  cases p
  all_goals
    refine ⟨⟨fun q hq x => on_congr ?_ ?_, fun _ _ _ _ => Iff.rfl⟩, fun _ _ _ h => h,
      fun _ _ _ h => h, fun _ => rfl⟩
    all_goals
      cases q
      all_goals first
        | rfl
        | exact (Attachments.netOf_detach ..).trans (if_neg (hne hq))

theorem detach_not_on (d : Design) (p : Pin) (x : Net) : ¬(d.detach p).On p x := by
  cases p
  all_goals
    refine not_on ?_ ?_
    all_goals first
      | rfl
      | exact (Attachments.netOf_detach ..).trans (if_pos rfl)

theorem destroyBTerm_keeps {id : BTermId} (e : d.destroyBTerm id = .ok d') :
    d.Keeps d' [.boundary id] ∧ ∀ x, ¬d'.On (.boundary id) x := by
  obtain ⟨-, rfl⟩ := destroyBTerm_ok e
  have hkeep := d.detach_keeps (.boundary id)
  refine ⟨⟨⟨hkeep.agree.on, hkeep.agree.faces⟩, hkeep.iterms, fun t y ht hy => ?_,
    fun _ => rfl⟩, d.detach_not_on (.boundary id)⟩
  have hne : t ≠ id := fun e => ht (e ▸ List.mem_singleton_self _)
  exact (Table.find?_erase ..).trans ((if_neg hne).trans hy)

theorem destroyModITerm_keeps {id : ModITermId} (e : d.destroyModITerm id = .ok d') :
    d.Keeps d' [.module id] ∧ ∀ x, ¬d'.On (.module id) x := by
  obtain ⟨-, rfl⟩ := destroyModITerm_ok e
  have hkeep := d.detach_keeps (.module id)
  refine ⟨⟨agree_of_opposite hkeep.agree.on fun t b ht _ => ?_, hkeep.iterms, hkeep.bterms,
    fun _ => rfl⟩, d.detach_not_on (.module id)⟩
  have hne : t ≠ id := fun e => ht (e ▸ List.mem_singleton_self _)
  exact opposite_congr ((Table.find?_erase ..).trans (if_neg hne)) rfl fun _ _ => rfl

theorem destroyModBTerm_keeps {id : ModBTermId} (e : d.destroyModBTerm id = .ok d') :
    d.Keeps d' [.moduleBoundary id] ∧ ∀ x, ¬d'.On (.moduleBoundary id) x := by
  obtain ⟨-, rfl⟩ := destroyModBTerm_ok e
  have hkeep := d.detach_keeps (.moduleBoundary id)
  refine ⟨⟨agree_of_opposite hkeep.agree.on fun t b _ hb => ?_, hkeep.iterms, hkeep.bterms,
    fun h => absurd (List.mem_singleton_self _) (h id)⟩, d.detach_not_on (.moduleBoundary id)⟩
  have hne : b ≠ id := fun e => hb (e ▸ List.mem_singleton_self _)
  exact opposite_congr rfl ((Table.find?_erase ..).trans (if_neg hne)) fun _ _ => rfl

theorem destroyInst_keeps {id : InstId} (e : d.destroyInst id = .ok d') :
    d.Keeps d' ((d.itermsOf id).map fun e => .flat e.1) ∧
      ∀ p ∈ (d.itermsOf id).map fun e => Pin.flat e.1, ∀ x, ¬d'.On p x := by
  obtain ⟨-, rfl⟩ := destroyInst_ok e
  have hout {t : ITermId} (ht : Pin.flat t ∉ (d.itermsOf id).map fun e => Pin.flat e.1) :
      t ∉ (d.itermsOf id).map (·.1) := by
    simpa using ht
  refine ⟨⟨⟨fun p hp x => on_congr ?_ ?_, fun _ _ _ _ => Iff.rfl⟩, fun t y ht hy => ?_,
    fun _ _ _ hy => hy, fun _ => rfl⟩, fun p hp x => ?_⟩
  · cases p with
    | flat t => exact (Attachments.netOf_detachAll ..).trans (if_neg (hout hp))
    | _ => rfl
  · cases p with
    | flat t => exact (Attachments.netOf_detachAll ..).trans (if_neg (hout hp))
    | _ => rfl
  · exact (Table.find?_eraseAll ..).trans ((if_neg (hout ht)).trans hy)
  · obtain ⟨t, ht, rfl⟩ := List.mem_map.1 hp
    have hin : t.1 ∈ (d.itermsOf id).map (·.1) := List.mem_map_of_mem ht
    exact not_on ((Attachments.netOf_detachAll ..).trans (if_pos hin))
      ((Attachments.netOf_detachAll ..).trans (if_pos hin))

theorem WellFormed.destroyModInst_keeps (h : d.WellFormed) {id : ModInstId}
    (e : d.destroyModInst id = .ok d') :
    d.Keeps d' ((d.modITermsOf id).map fun e => .module e.1) ∧
      ∀ p ∈ (d.modITermsOf id).map fun e => Pin.module e.1, ∀ x, ¬d'.On p x := by
  obtain ⟨-, rfl⟩ := destroyModInst_ok e
  have hout {t : ModITermId} (ht : Pin.module t ∉ (d.modITermsOf id).map fun e => Pin.module e.1) :
      t ∉ (d.modITermsOf id).map (·.1) := by
    simpa using ht
  refine ⟨⟨agree_of_opposite (fun p hp x => on_congr ?_ ?_) fun t b ht _ => ?_, fun _ _ _ hy => hy,
    fun _ _ _ hy => hy, fun _ => rfl⟩, fun p hp x => ?_⟩
  · cases p <;> rfl
  · cases p with
    | module t => exact (Attachments.netOf_detachAll ..).trans (if_neg (hout hp))
    | _ => rfl
  · refine opposite_congr ?_ rfl fun outer hto => ?_
    · exact (Table.find?_eraseAll ..).trans (if_neg (hout ht))
    -- A terminal of the instance would be among the touched ones.
    · have hne : outer.modInst ≠ id := fun e =>
        hout ht (h.modITerms.mem_map_select.2 ⟨outer, hto, decide_eq_true e⟩)
      exact (Table.find?_erase ..).trans (if_neg hne)
  · obtain ⟨t, ht, rfl⟩ := List.mem_map.1 hp
    have hin : t.1 ∈ (d.modITermsOf id).map (·.1) := List.mem_map_of_mem ht
    exact not_on rfl ((Attachments.netOf_detachAll ..).trans (if_pos hin))

theorem WellFormed.destroyNet_on (h : d.WellFormed) {id : NetId} (e : d.destroyNet id = .ok d') :
    d'.On p x ↔ d.On p x ∧ x ≠ .flat id := by
  obtain ⟨-, rfl⟩ := destroyNet_ok e
  cases x with
  | flat y =>
    cases p <;> simp [On, flatNet?, h.itermNets.netOf_clearNet, h.btermNets.netOf_clearNet,
      Option.filter_eq_some_iff]
  | module y => cases p <;> simp [On, moduleNet?]

theorem WellFormed.destroyModNet_on (h : d.WellFormed) {id : ModNetId}
    (e : d.destroyModNet id = .ok d') : d'.On p x ↔ d.On p x ∧ x ≠ .module id := by
  obtain ⟨-, rfl⟩ := destroyModNet_ok e
  cases x with
  | flat y => cases p <;> simp [On, flatNet?]
  | module y =>
    cases p <;> simp [On, moduleNet?, h.itermModNets.netOf_clearNet,
      h.btermModNets.netOf_clearNet, h.modITermNets.netOf_clearNet, h.modBTermNets.netOf_clearNet,
      Option.filter_eq_some_iff]

theorem reads_iff_of_without {gone a : Net} (hon : ∀ p x, d'.On p x ↔ d.On p x ∧ x ≠ gone)
    (hfaces : ∀ p q, d'.Faces p q ↔ d.Faces p q) (ha : ¬d.Joined a gone) :
    d.Reads a p ↔ d'.Reads a p := by
  -- No walk from `a` comes to the deleted net, so none of its steps is lost.
  have hne {x : Net} (hx : d.Joined a x) : x ≠ gone := fun e => ha (e ▸ hx)
  have hjoined (x : Net) : d.Joined a x ↔ d'.Joined a x := by
    refine joined_congr fun y hy _ z => ⟨?_, ?_⟩
    · rintro ⟨p, q, hp, hf, hq⟩
      have hz : z ≠ gone := hne (hy.tail ⟨p, q, hp, hf, hq⟩)
      exact ⟨p, q, (hon p y).2 ⟨hp, hne hy⟩, (hfaces p q).2 hf, (hon q z).2 ⟨hq, hz⟩⟩
    · rintro ⟨p, q, hp, hf, hq⟩
      exact ⟨p, q, ((hon p y).1 hp).1, (hfaces p q).1 hf, ((hon q z).1 hq).1⟩
  constructor
  · rintro ⟨x, hx, hp⟩
    exact ⟨x, (hjoined x).1 hx, (hon p x).2 ⟨hp, hne hx⟩⟩
  · rintro ⟨x, hx, hp⟩
    exact ⟨x, (hjoined x).2 hx, ((hon p x).1 hp).1⟩

end DesignView.Design
