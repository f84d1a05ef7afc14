import DesignView.Proofs.Network.Answered
import DesignView.Proofs.Network.Origin
import DesignView.Proofs.Network.Rebased
import Mathlib

/-!
Pins and the nets that list them. A net lists a pin exactly if the pin is attached to it, each pin
once, and a pin is on at most one net of each kind. What a pin answers with can therefore be told
from the lists alone: its module net where module nets are looked at, and its flat net otherwise.
-/

namespace DesignView

open Relation (ReflTransGen)

def Pin.isTerm : Pin → Bool
  | .boundary _ | .moduleBoundary _ => true
  | .flat _ | .module _ => false

namespace Network

variable {n : Network} {d : Design} {p : Pin} {x y : Net} {r : Option Net}

/-- Whether the module net of a pin is looked at: with the hierarchy always, and without it for pins
that can be on no other net. -/
def LooksAtModules (n : Network) (p : Pin) : Prop := n.hierarchy = true ∨ p.isHierarchical = true

/-- What a pin answers with, told from the lists of the nets. -/
inductive Resolves (n : Network) (p : Pin) : Option Net → Prop
  | module {y : ModNetId} (hlooks : n.LooksAtModules p) (hy : p ∈ n.listedOn (.module y)) :
      Resolves n p (some (.module y))
  | flat {y : NetId} (hfree : n.LooksAtModules p → ∀ z, p ∉ n.listedOn (.module z))
      (hy : p ∈ n.listedOn (.flat y)) : Resolves n p (some (.flat y))
  | off (hfree : n.LooksAtModules p → ∀ z, p ∉ n.listedOn (.module z))
      (hoff : ∀ z, p ∉ n.listedOn (.flat z)) : Resolves n p none

theorem disjoint_pins {α β : Type} {f : α → Pin} {g : β → Pin} (h : ∀ a b, f a ≠ g b)
    (as : List α) (bs : List β) : List.Disjoint (as.map f) (bs.map g) := by
  intro p ha hb
  obtain ⟨a, -, rfl⟩ := List.mem_map.1 ha
  obtain ⟨b, -, heq⟩ := List.mem_map.1 hb
  exact h a b heq.symm

theorem listedOn_nodup (hd : n.design? = some d) (hwf : d.WellFormed) (x : Net) :
    (n.listedOn x).Nodup := by
  have part {t k : Kind} {a : Attachments t k} (ha : a.keys.Nodup) (y : Id k) {f : Id t → Pin}
      (hf : Function.Injective f) : ((a.members y).map f).Nodup :=
    (Attachments.nodup_members ha y).map hf
  have hflat : Function.Injective Pin.flat := fun _ _ => Pin.flat.inj
  have hboundary : Function.Injective Pin.boundary := fun _ _ => Pin.boundary.inj
  -- Each part is free of repetition, and pins of two sorts differ.
  cases x with
  | flat y =>
    simp only [listedOn, hd]
    apply (part hwf.itermNets.nodup y hflat).append (part hwf.btermNets.nodup y hboundary)
    exact disjoint_pins (fun _ _ => Pin.noConfusion) ..
  | module y =>
    simp only [listedOn, hd]
    apply List.Nodup.append
    · apply List.Nodup.append
      · apply (part hwf.itermModNets.nodup y hflat).append
          (part hwf.btermModNets.nodup y hboundary)
        exact disjoint_pins (fun _ _ => Pin.noConfusion) ..
      · exact part hwf.modBTermNets.nodup y fun _ _ => Pin.moduleBoundary.inj
      · rw [List.disjoint_append_left]
        and_intros <;> exact disjoint_pins (fun _ _ => Pin.noConfusion) ..
    · exact part hwf.modITermNets.nodup y fun _ _ => Pin.module.inj
    · simp only [List.disjoint_append_left]
      and_intros <;> exact disjoint_pins (fun _ _ => Pin.noConfusion) ..

theorem on_unique (hx : d.On p x) (hy : d.On p y) (hkind : x.object.kind = y.object.kind) :
    x = y := by
  cases x <;> cases y
  case flat.flat => exact congrArg _ (Option.some.inj (hx.symm.trans hy))
  case module.module => exact congrArg _ (Option.some.inj (hx.symm.trans hy))
  all_goals cases hkind

theorem netOf_eq (hd : n.design? = some d) (hp : d.Live p) : n.netOf p =
    .ok (match if n.hierarchy || p.isHierarchical then d.moduleNet? p else none with
      | some id => some (.module id)
      | none => (d.flatNet? p).map .flat) := by
  cases p
  all_goals
    obtain ⟨a, -, hfetch⟩ := fetch_of_mem hp
    simp only [netOf, hd, Design.iterm, Design.bterm, Design.modITerm, Design.modBTerm, hfetch,
      Pin.isHierarchical, Bool.or_true, Bool.or_false, if_true]
  case flat | boundary => rfl
  case module t =>
    simp only [Design.moduleNet?, Design.flatNet?]
    cases d.modITermNets.netOf t <;> rfl
  case moduleBoundary t =>
    simp only [Design.moduleNet?, Design.flatNet?]
    cases d.modBTermNets.netOf t <;> rfl

theorem looksAtModules_iff :
    n.LooksAtModules p ↔ (n.hierarchy || p.isHierarchical) = true := Bool.or_eq_true_iff.symm

theorem Resolves.unique (hd : n.design? = some d) (hwf : d.WellFormed) {r' : Option Net}
    (h : n.Resolves p r) (h' : n.Resolves p r') : r = r' := by
  have hone {x y : Net} (hx : p ∈ n.listedOn x) (hy : p ∈ n.listedOn y)
      (hkind : x.object.kind = y.object.kind) : x = y :=
    on_unique ((mem_listedOn_iff hd hwf).1 hx) ((mem_listedOn_iff hd hwf).1 hy) hkind
  cases h with
  | module hlooks hy =>
    cases h' with
    | module _ hz => exact congrArg some (hone hy hz rfl)
    | flat hfree _ | off hfree _ => exact absurd hy (hfree hlooks _)
  | flat hfree hy =>
    cases h' with
    | module hlooks hz => exact absurd hz (hfree hlooks _)
    | flat _ hz => exact congrArg some (hone hy hz rfl)
    | off _ hoff => exact absurd hy (hoff _)
  | off hfree hoff =>
    cases h' with
    | module hlooks hz => exact absurd hz (hfree hlooks _)
    | flat _ hz => exact absurd hz (hoff _)
    | off => rfl

theorem exists_netOf (hd : n.design? = some d) (hwf : d.WellFormed) (hp : d.Live p) :
    ∃ r, n.netOf p = .ok r ∧ n.Resolves p r := by
  refine ⟨_, netOf_eq hd hp, ?_⟩
  have hflat (z : NetId) : p ∈ n.listedOn (.flat z) ↔ d.flatNet? p = some z :=
    mem_listedOn_iff hd hwf
  have hmodule (z : ModNetId) : p ∈ n.listedOn (.module z) ↔ d.moduleNet? p = some z :=
    mem_listedOn_iff hd hwf
  -- The module net that is looked at, if there is one.
  cases hfirst : if n.hierarchy || p.isHierarchical then d.moduleNet? p else none with
  | some y =>
    obtain ⟨hlooks, hy⟩ := Option.ite_none_right_eq_some.1 hfirst
    exact .module (looksAtModules_iff.2 hlooks) ((hmodule y).2 hy)
  | none =>
    have hfree : n.LooksAtModules p → ∀ z, p ∉ n.listedOn (.module z) := fun hlooks z hz => by
      rw [if_pos (looksAtModules_iff.1 hlooks), (hmodule z).1 hz] at hfirst
      cases hfirst
    cases hy : d.flatNet? p with
    | some y => exact .flat hfree ((hflat y).2 hy)
    | none => exact .off hfree fun z hz => by rw [hflat, hy] at hz; cases hz

theorem netOf_eq_ok_iff (hd : n.design? = some d) (hwf : d.WellFormed) (hp : d.Live p) :
    n.netOf p = .ok r ↔ n.Resolves p r := by
  obtain ⟨r', hr', h'⟩ := exists_netOf hd hwf hp
  rw [hr', Except.ok.injEq]
  exact ⟨fun e => e ▸ h', fun h => h'.unique hd hwf h⟩

theorem keepM_eq_ok_iff {α : Type} {test : α → Except Fault Bool} {xs ys : List α} :
    keepM test xs = .ok ys ↔
      ∃ keep : α → Bool, (∀ x ∈ xs, test x = .ok (keep x)) ∧ ys = xs.filter keep := by
  constructor
  · intro e
    refine ⟨fun x => (test x).toOption.getD false, ?_⟩
    induction xs generalizing ys with
    | nil => exact ⟨fun x hx => absurd hx List.not_mem_nil, (Except.ok.inj e).symm⟩
    | cons a xs ih =>
      obtain ⟨b, hb, e⟩ := bind_eq_ok.1 e
      obtain ⟨rest, hrest, e⟩ := bind_eq_ok.1 e
      obtain ⟨htest, rfl⟩ := ih hrest
      have ha : (test a).toOption.getD false = b := by rw [hb]; rfl
      refine ⟨fun x hx => ?_, ?_⟩
      · rcases List.mem_cons.1 hx with rfl | hx
        · exact hb.trans (congrArg Except.ok ha.symm)
        · exact htest x hx
      · rw [List.filter_cons, ha]
        exact (pure_eq_ok.1 e).symm
  · rintro ⟨keep, htest, rfl⟩
    induction xs with
    | nil => rfl
    | cons a xs ih =>
      have hrest := ih fun x hx => htest x (List.mem_cons_of_mem a hx)
      rw [List.filter_cons]
      exact bind_eq_ok.2 ⟨_, htest a List.mem_cons_self, bind_eq_ok.2 ⟨_, hrest, rfl⟩⟩

theorem pinsOn_eq_ok_iff {pins : List Pin} : n.pinsOn x = .ok pins ↔
    ∃ supply : Pin → Bool, (∀ p ∈ n.listedOn x, n.isSupply p = .ok (supply p)) ∧
      pins = (n.listedOn x).filter fun p => !supply p := by
  simp only [pinsOn, keepM_eq_ok_iff, isSignal_eq_ok]
  constructor
  · rintro ⟨keep, hkeep, rfl⟩
    exact ⟨fun p => !keep p, hkeep, by simp only [Bool.not_not]⟩
  · rintro ⟨supply, hsupply, rfl⟩
    exact ⟨fun p => !supply p, by simpa only [Bool.not_not] using hsupply, rfl⟩

theorem termsOn_pins (n : Network) (x : Net) :
    (n.termsOn x).map Term.pin = (n.listedOn x).filter Pin.isTerm := by
  rw [termsOn, List.map_filterMap, ← List.filterMap_eq_filter]
  refine List.filterMap_congr fun p _ => ?_
  cases p <;> rfl

/-- What pins and nets say of each other. -/
structure PinsAgree (n : Network) : Prop where
  once : ∀ x, (n.listedOn x).Nodup
  one : ∀ p x y, p ∈ n.listedOn x → p ∈ n.listedOn y → x.object.kind = y.object.kind → x = y
  attached : ∀ d p x, n.design? = some d → (p ∈ n.listedOn x ↔ d.On p x)
  hierarchical : ∀ p y, p.isHierarchical = true → p ∉ n.listedOn (.flat y)
  net : ∀ d p, n.design? = some d → d.Live p →
    Answered (n.netOf p) ∧ ∀ r, n.netOf p = .ok r ↔ n.Resolves p r
  pins : ∀ x pins, n.pinsOn x = .ok pins ↔
    ∃ supply : Pin → Bool, (∀ p ∈ n.listedOn x, n.isSupply p = .ok (supply p)) ∧
      pins = (n.listedOn x).filter fun p => !supply p
  terms : ∀ x, (n.termsOn x).map Term.pin = (n.listedOn x).filter Pin.isTerm
  term : ∀ x, ∀ t ∈ n.termsOn x, n.termOf t.pin = .ok (some t)

/-- Pins and nets agree, whatever was loaded and edited, also behind the network's back. As long as
all edits go through the network, every listed pin can be told from a supply pin. -/
theorem Accessible.pins_nets_agree (h : n.Accessible) :
    n.PinsAgree ∧ (n.Reachable → ∀ x, Answered (n.pinsOn x)) := by
  have hlisted {d : Design} (hd : n.design? = some d) {p : Pin} {x : Net} :
      p ∈ n.listedOn x ↔ d.On p x := mem_listedOn_iff hd (h.design hd)
  have hnone (hd : n.design? = none) (x : Net) : n.listedOn x = [] := by simp only [listedOn, hd]
  refine ⟨⟨fun x => ?_, fun p x y hx hy hkind => ?_, fun d p x hd => hlisted hd,
    fun p y hp hy => ?_, fun d p hd hp => ?_, fun x pins => pinsOn_eq_ok_iff, n.termsOn_pins,
    fun x t _ => ?_⟩, fun hreach x => ?_⟩
  · cases hd : n.design? with
    | none => exact hnone hd x ▸ List.nodup_nil
    | some d => exact listedOn_nodup hd (h.design hd) x
  · cases hd : n.design? with
    | none =>
      rw [hnone hd] at hx
      cases hx
    | some d => exact on_unique ((hlisted hd).1 hx) ((hlisted hd).1 hy) hkind
  · cases (flat_of_listed hy).symm.trans hp
  · obtain ⟨r, hr, -⟩ := exists_netOf hd (h.design hd) hp
    exact ⟨⟨r, hr⟩, fun r => netOf_eq_ok_iff hd (h.design hd) hp⟩
  · cases t <;> rfl
  · have hs := hreach.current.sound
    cases hd : n.design? with
    | none =>
      rw [pinsOn, hnone hd]
      exact ⟨[], rfl⟩
    | some d => exact hs.signals_answered hd fun p => hs.live_of_listed hd

theorem pins_nets_agree_precedence : ∃ n, Accessible n ∧ n.hierarchy = true ∧
    Pin.boundary ⟨1⟩ ∈ n.listedOn (.flat ⟨1⟩) ∧
    n.netOf (.boundary ⟨1⟩) = .ok (some (.module ⟨1⟩)) := by
  have hrun : ∃ db d, Database.Reachable db ∧ db.design? = some d ∧ (do
      let n ← (Network.new .hierarchical).loadDatabase db
      let n := { n with db := { db with design? := some (d.attachBTermToModNet ⟨1⟩ ⟨1⟩) } }
      return (n.hierarchy, n.listedOn (.flat ⟨1⟩), n.listedOn (.module ⟨1⟩),
        n.design?.map (·.bterms.ids))) =
        (.ok (true, [.boundary ⟨1⟩], [.boundary ⟨1⟩], some [⟨1⟩]) : Except Fault _) := by
    refine ⟨_, _, ReflTransGen.refl
      |>.tail (@Database.Step.createDesign _ "top" _ _ rfl)
      |>.tail (.design rfl (@Design.Step.createNet _ "n1" _ _ rfl))
      |>.tail (.design rfl (@Design.Step.createBTerm _ "a" (some ⟨1⟩) _ _ rfl))
      |>.tail (.design rfl (@Design.Step.createModNet _ ⟨1⟩ "n2" _ _ rfl)), rfl, ?_⟩
    cbv
  obtain ⟨db, d₀, hdb, hd₀, hrun⟩ := hrun
  obtain ⟨n₁, e, hrun⟩ := bind_eq_ok.1 hrun
  have hseen := pure_eq_ok.1 hrun
  simp only [Prod.mk.injEq] at hseen
  obtain ⟨hh, hflat, hmodule, hids⟩ := hseen
  have hdb' := hdb.tail (.design hd₀ (.attachBTermToModNet ⟨1⟩ ⟨1⟩))
  have h : Accessible { n₁ with db := _ } := ⟨_, ReflTransGen.refl
    |>.tail (.step (.load (.loadDatabase hdb e))) |>.tail (.database hdb')⟩
  obtain ⟨d, hd, hids⟩ := Option.map_eq_some_iff.1 hids
  have hlive : d.Live (.boundary ⟨1⟩) := by
    show _ ∈ d.bterms.ids
    rw [hids]
    exact List.mem_singleton_self _
  refine ⟨_, h, hh, hflat ▸ List.mem_singleton_self _, ?_⟩
  exact ((h.pins_nets_agree.1.net d _ hd hlive).2 _).2
    (.module (.inl hh) (hmodule ▸ List.mem_singleton_self _))

end Network
end DesignView
