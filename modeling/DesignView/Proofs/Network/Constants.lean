import DesignView.Proofs.Network.Answered
import DesignView.Proofs.Network.FlatLoad
import DesignView.Proofs.Network.Integrity
import Mathlib

/-!
Constant nets. The values of flat nets are kept from the load of the design on, whereas power and
ground are looked up in the design. They agree all the same: no edit gives a net another type, and a
net that is destroyed takes its value with it, so that the next net with its number has none.
-/

namespace DesignView

open Relation (ReflTransGen)

namespace Network

variable {n n' : Network} {d d' : Design} {x : Net} {v : LogicValue}

def supplyOf? (n : Network) (id : NetId) : Option LogicValue :=
  (n.design?.bind fun d => d.nets.find? id).bind fun x => constantFor? x.sig

theorem supplyOf?_eq (hd : n.design? = some d) (id : NetId) :
    n.supplyOf? id = (d.nets.find? id).bind fun x => constantFor? x.sig := by
  rw [supplyOf?, hd, Option.bind_some]

/-- The kept constants are those of the nets that are there, by the types that these have now. -/
structure Marked (n : Network) : Prop where
  nodup : n.constants.keys.Nodup
  exact : ∀ id, n.constants.find? id = n.supplyOf? id

namespace Marked

theorem congr (h : n.Marked) (hdb : n'.db = n.db) (hconstants : n'.constants = n.constants) :
    n'.Marked := by
  refine ⟨hconstants ▸ h.nodup, fun id => ?_⟩
  rw [hconstants, h.exact, supplyOf?, supplyOf?, design?, design?, hdb]

theorem of_only (h : n.Marked) (honly : n.Only n') : n'.Marked := by
  obtain ⟨_, _, _, _, _, rfl⟩ := honly
  exact h.congr rfl rfl

theorem of_none (hd : n.design? = none) (hconstants : n.constants = {}) : n.Marked := by
  refine ⟨hconstants ▸ List.nodup_nil, fun id => ?_⟩
  rw [hconstants, supplyOf?, hd]
  rfl

theorem withDesign (h : n.Marked) (hd : n.design? = some d) (hnets : d'.nets = d.nets) :
    (n.withDesign d').Marked := by
  refine ⟨h.nodup, fun id => (h.exact id).trans ?_⟩
  rw [supplyOf?_eq hd, supplyOf?_eq (n := n.withDesign d') rfl, hnets]

theorem createNet (h : n.Marked) (hwf : d.WellFormed) (hd : n.design? = some d) {name : String}
    {id : NetId} (e : d.createNet name = .ok (id, d')) : (n.withDesign d').Marked := by
  obtain ⟨-, rfl, rfl⟩ := Design.createNet_ok e
  refine ⟨h.nodup, fun y => (h.exact y).trans ?_⟩
  rw [supplyOf?_eq hd, supplyOf?_eq (n := n.withDesign _) rfl, Table.find?_insert]
  split
  · next hy =>
    rw [Table.find?_eq_none_iff.2 (hy ▸ hwf.nets.fresh { name })]
    rfl
  · rfl

theorem erase (h : n.Marked) {id : NetId} (hgone : n'.supplyOf? id = none)
    (hrest : ∀ y, y ≠ id → n'.supplyOf? y = n.supplyOf? y)
    (hconstants : n'.constants = n.constants.erase id) : n'.Marked := by
  refine ⟨hconstants ▸ OrderedMap.keys_nodup_erase h.nodup id, fun y => ?_⟩
  rw [hconstants, OrderedMap.find?_erase]
  split
  · next hy => rw [hy, hgone]
  · next hy => rw [hrest y hy, h.exact]

theorem destroyNet (h : n.Marked) (hd : n.design? = some d) {id : NetId}
    (e : d.destroyNet id = .ok d') :
    Marked { n.withDesign d' with constants := n.constants.erase id } := by
  obtain ⟨-, rfl⟩ := Design.destroyNet_ok e
  refine h.erase ?_ (fun y hy => ?_) rfl
  · rw [supplyOf?_eq rfl, Table.find?_erase, if_pos rfl, Option.bind_none]
  · rw [supplyOf?_eq rfl, Table.find?_erase, if_neg hy, supplyOf?_eq hd]

end Marked

theorem Change.marked (s : n.Change n') (hdb : n.db.WellFormed) (h : n.Marked) : n'.Marked := by
  cases s.outline with
  | aside | bundle => exact h.congr rfl rfl
  | trim hd ht => exact h.withDesign hd ht.nets
  | createModInst _ _ hd e =>
    obtain ⟨-, -, -, -, -, -, rfl⟩ := Design.createModInst_ok e
    exact h.withDesign hd rfl
  | createNet hd e => exact h.createNet (hdb.design hd) hd e
  | @topTerminal name direction sig io id d d' hd hmade _ =>
    have hnets : (d'.setBTermTypes id sig io).nets = d.nets := by
      rcases hmade with ⟨-, rfl⟩ | e
      · rfl
      · obtain ⟨-, -, hmade⟩ := Design.createBTerm_ok e
        obtain rfl : d' = { d with bterms := (d.bterms.insert { name }).2 } := hmade
        rfl
    obtain ⟨c, hc, -⟩ :=
      (n.withDesign (d'.setBTermTypes id sig io)).setTopPort_catalog name direction
    rw [hc]
    exact (h.withDesign hd hnets).congr rfl rfl
  | destroyNet hd e => exact h.destroyNet hd e
  | @forgetConstant id d hd hdead =>
    refine h.erase ((supplyOf?_eq hd id).trans ?_) (fun _ _ => rfl) rfl
    rw [Table.find?_eq_none_iff.2 hdead, Option.bind_none]
  | @destroyModBTerm _ d d' hd e =>
    have hnets : d'.nets = d.nets := by
      obtain ⟨-, rfl⟩ := Design.destroyModBTerm_ok e
      rfl
    exact (h.withDesign hd hnets).congr rfl rfl

theorem Changes.marked (hrun : n.Changes n') (hdb : n.db.Reachable) (h : n.Marked) :
    n'.Marked := by
  induction hrun with
  | refl => exact h
  | tail hrun s ih =>
    have hbefore : Database.Reachable _ := hdb.trans (Changes.db hrun)
    exact s.marked hbefore.wellFormed ih

theorem keys_findConstants (n : Network) (d : Design) :
    (n.findConstants d).constants.keys.Sublist d.nets.ids := by
  have hkeys (es : List (NetId × FlatNet)) : ((es.filterMap fun e =>
      (constantFor? e.2.sig).map fun v => (e.1, v)).map (·.1)).Sublist (es.map (·.1)) := by
    induction es with
    | nil => exact .slnil
    | cons e es ih =>
      rw [List.filterMap_cons]
      cases constantFor? e.2.sig with
      | none => exact ih.cons _
      | some v => exact ih.cons_cons _
  exact hkeys d.nets.entries

theorem marked_findConstants (hd : n.design? = some d) (hwf : d.WellFormed) :
    (n.findConstants d).Marked := by
  have hnodup : (n.findConstants d).constants.keys.Nodup :=
    hwf.nets.nodup.sublist (keys_findConstants n d)
  have hd' : (n.findConstants d).design? = some d := hd
  refine ⟨hnodup, fun id => Option.ext fun v => ?_⟩
  rw [OrderedMap.find?_eq_some_iff hnodup, supplyOf?, hd', Option.bind_some,
    Option.bind_eq_some_iff]
  simp only [findConstants, List.mem_filterMap, Option.map_eq_some_iff, Prod.mk.injEq,
    hwf.nets.find?_eq_some_iff]
  constructor
  · rintro ⟨⟨y, a⟩, he, _, hv, rfl, rfl⟩
    exact ⟨a, he, hv⟩
  · rintro ⟨a, he, hv⟩
    exact ⟨(id, a), he, v, hv, rfl, rfl⟩

theorem marked_of_loadDesign (hdb : n.db.WellFormed) (e : n.loadDesign = .ok n') : n'.Marked := by
  have hsame : n'.db = n.db := loadDesign_db e
  obtain ⟨d, n₁, hd, -, rfl⟩ := loadDesign_eq_ok e
  have hd₁ : (n₁.indexBoundaries d).design? = some d := (congrArg Database.design? hsame).trans hd
  exact (marked_findConstants hd₁ (hdb.design hd)).congr rfl rfl

theorem marked_of_loadDatabase {db : Database} (hdb : db.WellFormed)
    (e : n.loadDatabase db = .ok n') : n'.Marked := by
  obtain ⟨m, hm, -, hdesign⟩ :=
    loadDatabase_induct (motive := fun _ => True) hdb trivial (fun _ _ _ _ _ _ _ => trivial)
      (fun _ _ _ _ => trivial) e
  obtain rfl : m.db = db := hm.only.db
  rcases hdesign with ⟨-, e⟩ | ⟨hnone, rfl⟩
  · exact marked_of_loadDesign hdb e
  · exact (Marked.of_none (n := n.reset n'.db) hnone rfl).of_only hm.only

theorem Load.marked (s : n.Load n') (hdb : n.db.WellFormed) (h : n.Marked) : n'.Marked := by
  cases s with
  | loadDatabase hdb' e => exact marked_of_loadDatabase hdb'.wellFormed e
  | loadLibrary e => exact h.of_only (only_loadLibrary e)
  | loadTiming library =>
    have hadded : Marked { n with timing := n.timing ++ [library] } := h.congr rfl rfl
    exact hadded.of_only (Arranges.relinkTiming _ _).only
  | relinkTiming id => exact h.of_only (Arranges.relinkTiming n id).only
  | loadDesign e => exact marked_of_loadDesign hdb e
  | reload e =>
    unfold Network.reload at e
    split at e
    · exact marked_of_loadDesign hdb e
    · cases pure_eq_ok.1 e
      exact h.congr rfl rfl
  | teardown => exact .of_none rfl rfl

theorem Query.marked (s : n.Query n') (h : n.Marked) : n'.Marked := by
  obtain ⟨_, _, _, rfl⟩ := s.exists_eq
  exact h.congr rfl rfl

theorem Step.marked (s : n.Step n') (hdb : n.db.Reachable) (h : n.Marked) : n'.Marked := by
  cases s with
  | load s => exact s.marked hdb.wellFormed h
  | edit s => exact s.changes.marked hdb h
  | query s => exact s.marked h

theorem Reachable.marked (h : n.Reachable) : n.Marked := by
  induction h using Reachable.induct with
  | new => exact .of_none rfl rfl
  | step hbefore s ih => exact s.marked hbefore.db ih

theorem Marked.constantOf_flat (h : n.Marked) (id : NetId) :
    n.constantOf (.flat id) = .ok (n.supplyOf? id) := congrArg Except.ok (h.exact id)

theorem carries_flat (n : Network) (id : NetId) (sig : SigType) : n.carries (.flat id) sig =
    .ok ((n.design?.bind fun d => d.nets.find? id).any fun x => x.sig = sig) := rfl

theorem Sound.carries_ok (h : n.Sound) (x : Net) (sig : SigType) : Answered (n.carries x sig) := by
  cases hd : n.design? with
  | some d => exact h.carries_answered hd sig
  | none =>
    cases x with
    | flat id => exact ⟨_, rfl⟩
    | module id =>
      have hlisted : n.listedOn (.module id) = [] := by simp only [listedOn, hd]
      simp only [carries, hlisted]
      exact ⟨_, rfl⟩

/-- The value that a net has for what it carries; power comes before ground. -/
def valueFor (power ground : Bool) : Option LogicValue :=
  if power then some .one else if ground then some .zero else none

theorem Marked.constantOf_eq (h : n.Marked) {power ground : Bool} (hpower : n.isPower x = .ok power)
    (hground : n.isGround x = .ok ground) : n.constantOf x = .ok (valueFor power ground) := by
  cases x with
  | flat id =>
    rw [h.constantOf_flat, supplyOf?]
    cases Except.ok.inj hpower
    cases Except.ok.inj hground
    cases n.design?.bind fun d => d.nets.find? id with
    | none => rfl
    | some a =>
      simp only [Option.bind_some, Option.any_some]
      cases a.sig <;> rfl
  | module id =>
    refine bind_eq_ok.2 ⟨power, hpower, ?_⟩
    cases power with
    | true => rfl
    | false =>
      refine bind_eq_ok.2 ⟨ground, hground, ?_⟩
      cases ground <;> rfl

theorem Marked.constantNets_nodup (h : n.Marked) (v : LogicValue) : (n.constantNets v).Nodup := by
  have hkeys : ((n.constants.entries.filter fun e => e.2 = v).map (·.1)).Nodup :=
    h.nodup.sublist (List.filter_sublist.map _)
  have hmap := hkeys.map (f := Net.flat) fun a b hab => Net.flat.inj hab
  rwa [List.map_map] at hmap

theorem Marked.mem_constantNets_iff (h : n.Marked) :
    x ∈ n.constantNets v ↔ ∃ id, x = .flat id ∧ n.supplyOf? id = some v := by
  simp only [constantNets, List.mem_map, List.mem_filter, decide_eq_true_eq, Prod.exists]
  constructor
  · rintro ⟨id, _, ⟨hmem, rfl⟩, rfl⟩
    exact ⟨id, rfl, (h.exact id).symm.trans ((OrderedMap.find?_eq_some_iff h.nodup).2 hmem)⟩
  · rintro ⟨id, rfl, hv⟩
    exact ⟨id, v, ⟨(OrderedMap.find?_eq_some_iff h.nodup).1 ((h.exact id).trans hv), rfl⟩, rfl⟩

theorem carries_of_createNet {name : String} {id : NetId} (e : d.createNet name = .ok (id, d'))
    {sig : SigType} (hsig : sig ≠ .signal) :
    (n.withDesign d').carries (.flat id) sig = .ok false := by
  obtain ⟨-, rfl, rfl⟩ := Design.createNet_ok e
  rw [carries_flat]
  show Except.ok (((d.nets.insert { name }).2.find? _).any _) = _
  rw [Table.find?_insert_self, Option.any_some]
  exact congrArg Except.ok (decide_eq_false hsig.symm)

theorem carries_of_createModNet (hwf : d.WellFormed) {module : ModuleId} {name : String}
    {id : ModNetId} (e : d.createModNet module name = .ok (id, d')) (sig : SigType) :
    (n.withDesign d').carries (.module id) sig = .ok false := by
  have hnone : (n.withDesign d').listedOn (.module id) = [] := by
    refine List.eq_nil_iff_forall_not_mem.2 fun p hp => ?_
    -- What is on the net was on it before, when it was not there.
    have hbefore : d.On p (.module id) :=
      ((Design.createModNet_keeps e).agree.on (p := p) List.not_mem_nil _).2
        ((mem_listedOn_iff rfl (hwf.createModNet e)).1 hp)
    have hlive : d.LiveNet (.module id) := (hwf.live_of_on hbefore).2
    obtain ⟨-, -, rfl, -⟩ := Design.createModNet_ok e
    exact hwf.modNets.fresh _ hlive
  simp only [carries, hnone]
  rfl

theorem carries_of_makeNet (hwf : n.db.WellFormed) {name : String} {parent : Instance}
    (e : n.makeNet name parent = .ok (some x, n')) {sig : SigType} (hsig : sig ≠ .signal) :
    n'.carries x sig = .ok false := by
  obtain ⟨d, hd, e⟩ := bind_eq_ok.1 e
  have hwf := hwf.design (design_eq_ok.1 hd)
  cases parent with
  | top =>
    cases hc : d.createNet name with
    | error refusal =>
      rw [hc] at e
      cases e
    | ok made =>
      rw [hc] at e
      cases e
      exact carries_of_createNet hc hsig
  | module i =>
    obtain ⟨inst, -, e⟩ := bind_eq_ok.1 e
    cases hc : d.createModNet inst.master name with
    | error refusal =>
      rw [hc] at e
      cases e
    | ok made =>
      rw [hc] at e
      cases e
      exact carries_of_createModNet hwf hc sig
  | flat i => cases e

/-- The kept constants never differ from what the nets carry: each net, also one that is gone, has
the value that its power and ground give it now, and the nets that are listed for a value are those
flat nets that are there and have it. A net that is made has no value, whichever number it takes
over. -/
theorem Reachable.constants_current (h : n.Reachable) :
    (∀ x, ∃ power ground, n.isPower x = .ok power ∧ n.isGround x = .ok ground ∧
      n.constantOf x = .ok (valueFor power ground)) ∧
    (∀ v, (n.constantNets v).Nodup) ∧
    (∀ v x, x ∈ n.constantNets v ↔ n.constantOf x = .ok (some v) ∧
      ∃ d id, n.design? = some d ∧ id ∈ d.nets.ids ∧ x = .flat id) ∧
    ∀ name parent x n', n.makeNet name parent = .ok (some x, n') →
      n'.constantOf x = .ok none ∧ ∀ v, x ∉ n'.constantNets v := by
  have hm := h.marked
  have hs := h.current.sound
  refine ⟨fun x => ?_, hm.constantNets_nodup, fun v x => ?_, fun name parent x n' e => ?_⟩
  · obtain ⟨power, hpower⟩ := hs.carries_ok x .power
    obtain ⟨ground, hground⟩ := hs.carries_ok x .ground
    exact ⟨power, ground, hpower, hground, hm.constantOf_eq hpower hground⟩
  · rw [hm.mem_constantNets_iff]
    constructor
    · rintro ⟨id, rfl, hv⟩
      obtain ⟨a, ha, -⟩ := Option.bind_eq_some_iff.1 hv
      obtain ⟨d, hd, ha⟩ := Option.bind_eq_some_iff.1 ha
      exact ⟨hv ▸ hm.constantOf_flat id, d, id, hd, Table.mem_ids_of_find? ha, rfl⟩
    · rintro ⟨hv, -, id, -, -, rfl⟩
      exact ⟨id, rfl, Except.ok.inj ((hm.constantOf_flat id).symm.trans hv)⟩
  · have hstep : n.Step n' := .edit (.makeNet e)
    have hm' : n'.Marked := hstep.marked h.db hm
    have hnone : n'.constantOf x = .ok none :=
      hm'.constantOf_eq (carries_of_makeNet hs.db e SigType.noConfusion)
        (carries_of_makeNet hs.db e SigType.noConfusion)
    refine ⟨hnone, fun v hmem => ?_⟩
    obtain ⟨id, rfl, hv⟩ := hm'.mem_constantNets_iff.1 hmem
    rw [hm'.constantOf_flat, hv] at hnone
    cases hnone

theorem constants_current_reused : ∃ n n₁ n', Reachable n ∧
    n.constantOf (.flat ⟨1⟩) = .ok (some .one) ∧ n.deleteNet (.flat ⟨1⟩) = .ok n₁ ∧
    n₁.makeNet "n2" .top = .ok (some (.flat ⟨1⟩), n') ∧ n'.constantOf (.flat ⟨1⟩) = .ok none := by
  have hrun : ∃ db, Database.Reachable db ∧ (do
      let n ← (Network.new .hierarchical).loadDatabase db
      let n₁ ← n.deleteNet (.flat ⟨1⟩)
      let (net?, _) ← n₁.makeNet "n2" .top
      return (← n.isPower (.flat ⟨1⟩), net?)) =
        (.ok (true, some (.flat ⟨1⟩)) : Except Fault (Bool × Option Net)) := by
    refine ⟨_, ReflTransGen.refl
      |>.tail (@Database.Step.createDesign _ "top" _ _ rfl)
      |>.tail (.design rfl (@Design.Step.createNet _ "vdd" _ _ rfl))
      |>.tail (.design rfl (.setNetSig ⟨1⟩ .power)), ?_⟩
    cbv
  obtain ⟨db, hdb, hrun⟩ := hrun
  obtain ⟨n, e, hrun⟩ := bind_eq_ok.1 hrun
  obtain ⟨n₁, e₁, hrun⟩ := bind_eq_ok.1 hrun
  obtain ⟨⟨net?, n'⟩, e', hrun⟩ := bind_eq_ok.1 hrun
  obtain ⟨power, hpower, hrun⟩ := bind_eq_ok.1 hrun
  have hseen := pure_eq_ok.1 hrun
  obtain ⟨rfl, rfl⟩ := Prod.mk.inj hseen
  have h : Reachable n := ⟨_, .single (.load (.loadDatabase hdb e))⟩
  have h₁ : Reachable n₁ := ⟨_, ReflTransGen.refl
    |>.tail (.load (.loadDatabase hdb e)) |>.tail (.edit (.deleteNet e₁))⟩
  obtain ⟨power, ground, hpower', -, hvalue⟩ := h.constants_current.1 (.flat ⟨1⟩)
  obtain rfl : true = power := Except.ok.inj (hpower.symm.trans hpower')
  exact ⟨n, n₁, n', h, hvalue, e₁, e', (h₁.constants_current.2.2.2 _ _ _ _ e').1⟩

end Network
end DesignView
