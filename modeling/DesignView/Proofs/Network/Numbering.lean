import DesignView.Network.Number
import DesignView.Proofs.Except

/-!
What numbers tell. With the hierarchy shown, a number is made from the kind and the sequence number
of one native object, and both are read back from it. Without it, numbers tell apart the instances,
the pins, the nets and the terms.
-/

namespace DesignView

variable {n : Network} {o : Object} {number : Nat}

def tagWidth : Nat := 4

theorem maxNumber_eq : maxNumber = 18446744073709551615 := rfl

theorem tagRange_eq : tagRange = 16 := rfl

theorem maxNumber_shiftRight_tagWidth : maxNumber >>> tagWidth = maxNumber / tagRange :=
  Nat.shiftRight_eq_div_pow ..

theorem maxNumber_shiftRight_one : maxNumber >>> 1 = maxNumber / 2 :=
  Nat.shiftRight_eq_div_pow ..

namespace Kind

theorem ofTag?_eq_some_iff {k : Kind} {tag : Nat} : ofTag? tag = some k ↔ k.tag? = some tag := by
  constructor
  · intro h
    unfold ofTag? at h
    split at h <;> cases h <;> rfl
  · intro h
    cases k <;> cases h <;> rfl

theorem tag?_bounds {k : Kind} {tag : Nat} (h : k.tag? = some tag) : 0 < tag ∧ tag < tagRange := by
  cases k <;> cases h <;> decide

def isHierarchical : Kind → Bool
  | modInst | modITerm | modBTerm | modNet | module => true
  | _ => false

end Kind

namespace Object

theorem tagged_eq_ok : o.tagged = .ok number ↔
    ∃ tag, o.kind.tag? = some tag ∧ o.seq ≤ maxNumber / tagRange ∧
      number = o.seq * tagRange + tag := by
  rw [tagged]
  cases o.kind.tag? with
  | none => simp
  | some tag => by_cases hseq : o.seq ≤ maxNumber / tagRange <;> simp [hseq, eq_comm]

theorem tagged_eq_ok_iff : o.tagged = .ok number ↔
    number ≤ maxNumber ∧ Kind.ofNumber? number = some o.kind ∧ number >>> tagWidth = o.seq := by
  have habove : number >>> tagWidth = number / tagRange := Nat.shiftRight_eq_div_pow ..
  rw [tagged_eq_ok, habove, Kind.ofNumber?, Kind.ofTag?_eq_some_iff, maxNumber_eq, tagRange_eq]
  constructor
  · rintro ⟨tag, htag, hseq, hnumber⟩
    have hlt := (Kind.tag?_bounds htag).2
    rw [tagRange_eq] at hlt
    obtain rfl : number % 16 = tag := by omega
    exact ⟨by omega, htag, by omega⟩
  · rintro ⟨hmax, htag, hseq⟩
    exact ⟨number % 16, htag, by omega, by omega⟩

theorem tagged_bits (h : o.tagged = .ok number) :
    ∃ tag, o.kind.tag? = some tag ∧ number = o.seq <<< tagWidth ||| tag := by
  obtain ⟨tag, htag, -, rfl⟩ := tagged_eq_ok.1 h
  refine ⟨tag, htag, ?_⟩
  calc o.seq * tagRange + tag = o.seq <<< tagWidth + tag := by rw [Nat.shiftLeft_eq]; rfl
    _ = o.seq <<< tagWidth ||| tag := Nat.shiftLeft_add_eq_or_of_lt (Kind.tag?_bounds htag).2 _

theorem tagged_ne_top (h : o.tagged = .ok number) : number ≠ topNumber := by
  obtain ⟨tag, htag, -, rfl⟩ := tagged_eq_ok.1 h
  have hpos := (Kind.tag?_bounds htag).1
  exact Nat.ne_of_gt (Nat.add_pos_right _ hpos)

theorem tagged_oversized {tag : Nat} (htag : o.kind.tag? = some tag)
    (h : maxNumber >>> tagWidth < o.seq) : o.tagged = .error (.oversized o) := by
  rw [maxNumber_shiftRight_tagWidth] at h
  simp only [tagged, htag]
  exact if_neg (Nat.not_le.2 h)

theorem withBit_eq_ok {bit : Bool} : o.withBit bit = .ok number ↔
    o.seq ≤ maxNumber >>> 1 ∧ number = o.seq * 2 + bit.toNat := by
  rw [withBit, maxNumber_shiftRight_one]
  by_cases hseq : o.seq ≤ maxNumber / 2 <;> simp [hseq, eq_comm]

theorem withBit_decoded {bit : Bool} (h : o.withBit bit = .ok number) :
    number % 2 = bit.toNat ∧ number / 2 = o.seq := by
  obtain ⟨-, rfl⟩ := withBit_eq_ok.1 h
  have hbit := bit.toNat_lt
  omega

theorem withBit_oversized {bit : Bool} (h : maxNumber >>> 1 < o.seq) :
    o.withBit bit = .error (.oversized o) := by
  rw [maxNumber_shiftRight_one] at h
  exact if_neg (Nat.not_le.2 h)

theorem plain_eq_ok (h : o.plain = .ok number) : number = o.seq ∧ o.kind.isHierarchical = false := by
  obtain ⟨k, s⟩ := o
  cases k <;> cases h <;> exact ⟨rfl, rfl⟩

theorem plain_of_hierarchical (h : o.kind.isHierarchical = true) :
    o.plain = .error (.hierarchyDisabled o) := by
  obtain ⟨k, s⟩ := o
  cases k <;> first | rfl | cases h

end Object

/-- What a network gives a number to: a handle, or the definition of a module. -/
inductive Entity where
  | handle (x : Handle)
  | module (id : ModuleId)

def Entity.object? : Entity → Option Object
  | handle (.instance i) => i.object?
  | handle (.pin p) => some p.object
  | handle (.net x) => some x.object
  | handle (.term t) => some t.object
  | module id => some id.object

theorem Entity.tag?_object {x : Entity} (h : x.object? = some o) : ∃ tag, o.kind.tag? = some tag := by
  rcases x with ((i | p | x | t) | id)
  · rcases i with _ | id | id <;> cases h <;> exact ⟨_, rfl⟩
  · rcases p with id | id | id | id <;> cases h <;> exact ⟨_, rfl⟩
  · rcases x with id | id <;> cases h <;> exact ⟨_, rfl⟩
  · rcases t with id | id <;> cases h <;> exact ⟨_, rfl⟩
  · cases h
    exact ⟨_, rfl⟩

theorem Entity.exists_object {tag : Nat} (h : o.kind.tag? = some tag) :
    ∃ x : Entity, x.object? = some o := by
  obtain ⟨k, s⟩ := o
  cases k <;> cases h
  · exact ⟨.handle (.instance (.flat ⟨s⟩)), rfl⟩
  · exact ⟨.handle (.pin (.flat ⟨s⟩)), rfl⟩
  · exact ⟨.handle (.pin (.boundary ⟨s⟩)), rfl⟩
  · exact ⟨.handle (.net (.flat ⟨s⟩)), rfl⟩
  · exact ⟨.module ⟨s⟩, rfl⟩
  · exact ⟨.handle (.instance (.module ⟨s⟩)), rfl⟩
  · exact ⟨.handle (.pin (.module ⟨s⟩)), rfl⟩
  · exact ⟨.handle (.pin (.moduleBoundary ⟨s⟩)), rfl⟩
  · exact ⟨.handle (.net (.module ⟨s⟩)), rfl⟩

namespace Network

def numberOf (n : Network) : Entity → Except Fault Nat
  | .handle x => n.number x
  | .module id => n.numberOfModule id

theorem numberOf_of_object (hn : n.hierarchy = true) {x : Entity} (h : x.object? = some o) :
    n.numberOf x = o.tagged := by
  have hobject (o : Object) : n.numberOfObject o = o.tagged := if_pos hn
  rcases x with ((i | p | x | t) | id)
  · rcases i with _ | id | id <;> cases h <;> exact hobject _
  · cases h
    exact if_pos hn
  · cases h
    exact hobject _
  · cases h
    exact hobject _
  · cases h
    rfl

theorem numberOf_of_object_none {x : Entity} (h : x.object? = none) :
    n.numberOf x = .ok topNumber := by
  rcases x with ((i | p | x | t) | id)
  · rcases i with _ | id | id <;> cases h
    rfl
  all_goals cases h

theorem object?_of_number (hn : n.hierarchy = true) {x : Entity} (h : n.numberOf x = .ok number) :
    x.object? = (Kind.ofNumber? number).map fun kind => ⟨kind, number >>> tagWidth⟩ := by
  cases hx : x.object? with
  | none =>
    obtain rfl := Except.ok.inj ((numberOf_of_object_none hx).symm.trans h)
    rfl
  | some o =>
    rw [numberOf_of_object hn hx] at h
    obtain ⟨-, hkind, hseq⟩ := Object.tagged_eq_ok_iff.1 h
    rw [hkind, hseq]
    rfl

/-- With the hierarchy shown, every entity whose sequence number fits above the tag has a number,
which no entity of another native object has. -/
structure Decodable (n : Network) : Prop where
  top : n.numberOf (.handle (.instance .top)) = .ok topNumber
  oversized : ∀ x o, x.object? = some o → maxNumber >>> tagWidth < o.seq →
    n.numberOf x = .error (.oversized o)
  fits : ∀ x o, x.object? = some o → o.seq ≤ maxNumber >>> tagWidth → ∃ number,
    n.numberOf x = .ok number ∧ number ≤ maxNumber ∧ number ≠ topNumber ∧
      ∃ tag, o.kind.tag? = some tag ∧ number = o.seq <<< tagWidth ||| tag
  decoded : ∀ x o number, x.object? = some o → n.numberOf x = .ok number →
    Kind.ofNumber? number = some o.kind ∧ number >>> tagWidth = o.seq
  injective : ∀ x y number, n.numberOf x = .ok number → n.numberOf y = .ok number →
    x.object? = y.object?
  surjective : ∀ number kind, number ≤ maxNumber → Kind.ofNumber? number = some kind →
    ∃ o : Object, (∀ o', o'.tagged = .ok number ↔ o' = o) ∧
      ∃ x : Entity, x.object? = some o ∧ n.numberOf x = .ok number

theorem decodable (hn : n.hierarchy = true) : n.Decodable where
  top := rfl
  oversized x o hx hseq := by
    obtain ⟨tag, htag⟩ := Entity.tag?_object hx
    rw [numberOf_of_object hn hx, Object.tagged_oversized htag hseq]
  fits x o hx hseq := by
    obtain ⟨tag, htag⟩ := Entity.tag?_object hx
    rw [maxNumber_shiftRight_tagWidth] at hseq
    have h : o.tagged = .ok (o.seq * tagRange + tag) :=
      Object.tagged_eq_ok.2 ⟨tag, htag, hseq, rfl⟩
    exact ⟨_, (numberOf_of_object hn hx).trans h, (Object.tagged_eq_ok_iff.1 h).1,
      Object.tagged_ne_top h, Object.tagged_bits h⟩
  decoded x o number hx h := by
    rw [numberOf_of_object hn hx] at h
    exact (Object.tagged_eq_ok_iff.1 h).2
  injective x y number hx hy := (object?_of_number hn hx).trans (object?_of_number hn hy).symm
  surjective number kind hmax hkind := by
    have h : Object.tagged ⟨kind, number >>> tagWidth⟩ = .ok number :=
      Object.tagged_eq_ok_iff.2 ⟨hmax, hkind, rfl⟩
    obtain ⟨tag, htag, -⟩ := Object.tagged_eq_ok.1 h
    obtain ⟨x, hx⟩ := Entity.exists_object htag
    refine ⟨_, fun o' => ⟨fun h' => ?_, ?_⟩, x, hx, (numberOf_of_object hn hx).trans h⟩
    · obtain ⟨-, hkind', hseq'⟩ := Object.tagged_eq_ok_iff.1 h'
      obtain rfl := Option.some.inj (hkind.symm.trans hkind')
      rw [hseq']
    · rintro rfl
      exact h

theorem numberOfObject_flat (hn : n.hierarchy = false) : n.numberOfObject o = o.plain :=
  if_neg (ne_true_of_eq_false hn)

theorem number_pin_flat (hn : n.hierarchy = false) {p : Pin} : n.number (.pin p) =
    if p.isHierarchical then .error (.hierarchyDisabled p.object)
    else p.object.withBit p.isTopLevel := by
  refine (if_neg (ne_true_of_eq_false hn)).trans ?_
  rcases p with id | id | id | id <;> rfl

theorem instance_of_number (hn : n.hierarchy = false) {i : Instance}
    (hseq : ∀ o, i.object? = some o → 1 ≤ o.seq) (h : n.number (.instance i) = .ok number) :
    i = if number = topNumber then .top else .flat ⟨number⟩ := by
  rcases i with _ | id | id
  · cases h
    rfl
  · obtain ⟨rfl, -⟩ := Object.plain_eq_ok ((numberOfObject_flat hn).symm.trans h)
    exact (if_neg (Nat.ne_of_gt (hseq _ rfl))).symm
  · cases (Object.plain_eq_ok ((numberOfObject_flat hn).symm.trans h)).2

theorem pin_of_number (hn : n.hierarchy = false) {p : Pin} (h : n.number (.pin p) = .ok number) :
    p = if number % 2 = 0 then .flat ⟨number / 2⟩ else .boundary ⟨number / 2⟩ := by
  rw [number_pin_flat hn] at h
  rcases p with id | id | id | id
  · obtain ⟨(hbit : number % 2 = 0), hseq⟩ := Object.withBit_decoded h
    rw [if_pos hbit, hseq]
    rfl
  · obtain ⟨(hbit : number % 2 = 1), hseq⟩ := Object.withBit_decoded h
    rw [hbit, if_neg Nat.one_ne_zero, hseq]
    rfl
  · cases h
  · cases h

theorem net_of_number (hn : n.hierarchy = false) {x : Net} (h : n.number (.net x) = .ok number) :
    x = .flat ⟨number⟩ := by
  obtain ⟨rfl, hkind⟩ := Object.plain_eq_ok ((numberOfObject_flat hn).symm.trans h)
  rcases x with id | id
  · rfl
  · cases hkind

theorem term_of_number (hn : n.hierarchy = false) {t : Term} (h : n.number (.term t) = .ok number) :
    t = .boundary ⟨number⟩ := by
  obtain ⟨rfl, hkind⟩ := Object.plain_eq_ok ((numberOfObject_flat hn).symm.trans h)
  rcases t with id | id
  · rfl
  · cases hkind

theorem number_of_hierarchical (hn : n.hierarchy = false) {x : Handle}
    (h : (Entity.handle x).object? = some o) (hkind : o.kind.isHierarchical = true) :
    n.number x = .error (.hierarchyDisabled o) := by
  have hobject : n.numberOfObject o = .error (.hierarchyDisabled o) :=
    (numberOfObject_flat hn).trans (Object.plain_of_hierarchical hkind)
  rcases x with i | p | x | t
  · rcases i with _ | id | id <;> cases h <;> exact hobject
  · rw [number_pin_flat hn]
    rcases p with id | id | id | id <;> cases h <;> first | rfl | cases hkind
  · cases h
    exact hobject
  · cases h
    exact hobject

/-- Without the hierarchy, no two handles of one sort have the same number. The handles of the
module hierarchy have none; the other ones have one, pins as far as it fits above the bit. -/
structure Separating (n : Network) : Prop where
  top : n.number (.instance .top) = .ok topNumber
  instances : ∀ i j number, (∀ o, i.object? = some o → 1 ≤ o.seq) →
    (∀ o, j.object? = some o → 1 ≤ o.seq) →
    n.number (.instance i) = .ok number → n.number (.instance j) = .ok number → i = j
  pins : ∀ p q number, n.number (.pin p) = .ok number → n.number (.pin q) = .ok number → p = q
  nets : ∀ x y number, n.number (.net x) = .ok number → n.number (.net y) = .ok number → x = y
  terms : ∀ t u number, n.number (.term t) = .ok number → n.number (.term u) = .ok number → t = u
  oversizedPin : ∀ p, p.isHierarchical = false → maxNumber >>> 1 < p.object.seq →
    n.number (.pin p) = .error (.oversized p.object)
  fittingPin : ∀ p, p.isHierarchical = false → p.object.seq ≤ maxNumber >>> 1 →
    ∃ number, n.number (.pin p) = .ok number ∧ number ≤ maxNumber
  flatInstance : ∀ id, n.number (.instance (.flat id)) = .ok id.seq
  flatNet : ∀ id, n.number (.net (.flat id)) = .ok id.seq
  boundaryTerm : ∀ id, n.number (.term (.boundary id)) = .ok id.seq
  hierarchical : ∀ x o, (Entity.handle x).object? = some o → o.kind.isHierarchical = true →
    n.number x = .error (.hierarchyDisabled o)

theorem separating (hn : n.hierarchy = false) : n.Separating where
  top := rfl
  instances i j number hi hj ei ej :=
    (instance_of_number hn hi ei).trans (instance_of_number hn hj ej).symm
  pins p q number ep eq := (pin_of_number hn ep).trans (pin_of_number hn eq).symm
  nets x y number ex ey := (net_of_number hn ex).trans (net_of_number hn ey).symm
  terms t u number et eu := (term_of_number hn et).trans (term_of_number hn eu).symm
  oversizedPin p hp hseq := by
    rw [number_pin_flat hn, hp]
    exact Object.withBit_oversized hseq
  fittingPin p hp hseq := by
    rw [number_pin_flat hn, hp]
    have hbit := p.isTopLevel.toNat_lt
    refine ⟨_, Object.withBit_eq_ok.2 ⟨hseq, rfl⟩, ?_⟩
    rw [maxNumber_shiftRight_one] at hseq
    rw [maxNumber_eq] at hseq ⊢
    omega
  flatInstance id := numberOfObject_flat hn
  flatNet id := numberOfObject_flat hn
  boundaryTerm id := numberOfObject_flat hn
  hierarchical x o := number_of_hierarchical hn

/-- With the hierarchy shown, every number is read back; without it, a number tells the handles of
each sort apart. -/
theorem numbers_injective (n : Network) :
    (n.hierarchy = true → n.Decodable) ∧ (n.hierarchy = false → n.Separating) :=
  ⟨decodable, separating⟩

theorem numbers_injective_limits :
    (∃ number, (Network.new .hierarchical).numberOf
        (.handle (.instance (.flat ⟨maxNumber >>> tagWidth⟩))) = .ok number ∧
      Kind.ofNumber? number = some .inst ∧ number >>> tagWidth = maxNumber >>> tagWidth) ∧
    (Network.new .hierarchical).numberOf
        (.handle (.instance (.flat ⟨(maxNumber >>> tagWidth) + 1⟩))) =
      .error (.oversized ⟨.inst, (maxNumber >>> tagWidth) + 1⟩) ∧
    ∀ number, (Network.new .flat).number (.pin (.flat ⟨1⟩)) = .ok number →
      (Network.new .flat).number (.pin (.boundary ⟨1⟩)) ≠ .ok number := by
  have hshown := (numbers_injective (Network.new .hierarchical)).1 rfl
  have hhidden := (numbers_injective (Network.new .flat)).2 rfl
  refine ⟨?_, hshown.oversized _ _ rfl (Nat.lt_succ_self _), fun number e e' => ?_⟩
  · obtain ⟨number, h, -⟩ := hshown.fits
      (.handle (.instance (.flat ⟨maxNumber >>> tagWidth⟩))) _ rfl (Nat.le_refl _)
    exact ⟨number, h, hshown.decoded _ _ _ rfl h⟩
  · cases hhidden.pins _ _ _ e e'

theorem number_modulePin_hidden : (Network.new .flat).hierarchy = false ∧
    (Network.new .flat).number (.pin (.module ⟨1⟩)) = .error (.hierarchyDisabled ⟨.modITerm, 1⟩) ∧
    ¬ ∀ p : Pin, 1 ≤ p.object.seq →
      ((∃ f, (Network.new .flat).number (.pin p) = .error f) ↔ maxNumber >>> 1 < p.object.seq) := by
  refine ⟨rfl, rfl, fun h => ?_⟩
  have hfits := (h (.module ⟨1⟩) (Nat.le_refl 1)).1 ⟨_, rfl⟩
  exact absurd hfits (by decide)

end Network
end DesignView
