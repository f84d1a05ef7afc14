import DesignView.Proofs.Network.Answered
import DesignView.Proofs.Network.Origin
import DesignView.Proofs.Physical.Nesting

/-!
Children and parents. What the children of an instance are is read off its inside, and its parent
off the module that it is in. A child knows its parent, in every state and whoever edited the
database; a parent knows its child only where the module between them is the inside of something.
-/

namespace DesignView

open Relation (ReflTransGen)

namespace Design

variable {d : Design} {c p : Instance} {m : ModuleId}

/-- The module that an instance is in. The top is in none. -/
def outer? (d : Design) : Instance → Option ModuleId
  | .top => none
  | .flat id => (d.insts.find? id).map (·.module)
  | .module id => (d.modInsts.find? id).map (·.parent)

/-- The module that is the inside of an instance. A leaf has no inside. -/
def inner? (d : Design) : Instance → Option ModuleId
  | .top => some d.topModule
  | .flat _ => none
  | .module id => (d.modInsts.find? id).map (·.master)

/-- The module is the inside of the top or of an instance. -/
def Entered (d : Design) (m : ModuleId) : Prop :=
  m = d.topModule ∨ ∃ i, d.instanceOf? m = some i

theorem outer?_eq_some (hc : d.LiveInstance c) (htop : c ≠ .top) : ∃ m, d.outer? c = some m := by
  cases c with
  | top => exact absurd rfl htop
  | flat id =>
    obtain ⟨a, ha⟩ := Table.mem_ids_iff.1 hc
    exact ⟨a.module, Option.map_eq_some_iff.2 ⟨a, ha, rfl⟩⟩
  | module id =>
    obtain ⟨a, ha⟩ := Table.mem_ids_iff.1 hc
    exact ⟨a.parent, Option.map_eq_some_iff.2 ⟨a, ha, rfl⟩⟩

theorem live_of_outer? (h : d.outer? c = some m) : d.LiveInstance c := by
  cases c with
  | top => trivial
  | flat id =>
    obtain ⟨a, ha, -⟩ := Option.map_eq_some_iff.1 h
    exact Table.mem_ids_of_find? ha
  | module id =>
    obtain ⟨a, ha, -⟩ := Option.map_eq_some_iff.1 h
    exact Table.mem_ids_of_find? ha

namespace WellFormed

theorem mem_childrenIn (h : d.WellFormed) : c ∈ d.childrenIn m ↔ d.outer? c = some m := by
  have hsub : c ∈ (d.modInstsIn m).map .module ++ (d.instsIn m).map .flat ↔
      (∃ i ∈ d.modInstsIn m, .module i = c) ∨ ∃ i ∈ d.instsIn m, .flat i = c := by
    rw [List.mem_append, List.mem_map, List.mem_map]
  refine hsub.trans ?_
  simp only [modInstsIn, instsIn, Table.idsWhere, h.modInsts.mem_map_select,
    h.insts.mem_map_select, decide_eq_true_eq]
  cases c with
  | top => simp [outer?]
  | flat id => simp [outer?]
  | module id => simp [outer?]

theorem nodup_childrenIn (h : d.WellFormed) (m : ModuleId) : (d.childrenIn m).Nodup := by
  refine List.nodup_append.2 ⟨?_, ?_, ?_⟩
  · exact (h.modInsts.nodup_map_select _).map fun _ _ e => Instance.module.inj e
  · exact (h.insts.nodup_map_select _).map fun _ _ e => Instance.flat.inj e
  · rintro x hx y hy rfl
    obtain ⟨i, -, rfl⟩ := List.mem_map.1 hx
    obtain ⟨j, -, e⟩ := List.mem_map.1 hy
    cases e

theorem insideOf_eq (h : d.WellFormed) (hp : d.inner? p = some m) : d.insideOf m = p := by
  unfold insideOf
  cases p with
  | top =>
    cases hp
    cases hi : d.instanceOf? d.topModule with
    | none => rfl
    | some i =>
      obtain ⟨a, ha, hmaster⟩ := h.instanceOf?_eq_some_iff.1 hi
      exact absurd hmaster (h.topFree ha)
  | flat id => cases hp
  | module id =>
    obtain ⟨a, ha, hmaster⟩ := Option.map_eq_some_iff.1 hp
    rw [h.instanceOf?_eq_some_iff.2 ⟨a, ha, hmaster⟩]

theorem inner?_insideOf_iff (h : d.WellFormed) :
    d.inner? (d.insideOf m) = some m ↔ d.Entered m := by
  unfold insideOf Entered
  cases hi : d.instanceOf? m with
  | none => simp [inner?, eq_comm]
  | some i =>
    obtain ⟨a, ha, hmaster⟩ := h.instanceOf?_eq_some_iff.1 hi
    simp [inner?, ha, hmaster]

end WellFormed
end Design

namespace Network

variable {n n' : Network} {d : Design} {c p q : Instance} {m : ModuleId} {cs : List Instance}

def Shows (n : Network) : Instance → Prop
  | .top => True
  | .flat id => ∃ d, n.design? = some d ∧ id ∈ d.insts.ids
  | .module id => n.hierarchy = true ∧ ∃ d, n.design? = some d ∧ id ∈ d.modInsts.ids

theorem shows_of_live (hn : n.hierarchy = true) (hd : n.design? = some d)
    (hc : d.LiveInstance c) : n.Shows c := by
  cases c with
  | top => trivial
  | flat id => exact ⟨d, hd, hc⟩
  | module id => exact ⟨hn, d, hd, hc⟩

theorem Shows.children_ok (hp : n.Shows p) : ∃ cs, n.children p = .ok cs := by
  unfold children
  cases p with
  | top => cases n.design? <;> exact ⟨_, rfl⟩
  | flat id => cases n.design? <;> exact ⟨_, rfl⟩
  | module id =>
    obtain ⟨hn, d, hd, hid⟩ := hp
    obtain ⟨a, -, hfetch⟩ := fetch_of_mem hid
    have hrequire : n.requireHierarchy id = .ok () := if_pos hn
    have hinst : d.modInst id = .ok a := hfetch
    simp only [hd]
    exact ⟨_, bind_eq_ok.2 ⟨(), hrequire, bind_eq_ok.2 ⟨a, hinst, rfl⟩⟩⟩

theorem children_hierarchical (hd : n.design? = some d) (h : d.WellFormed)
    (hn : n.hierarchy = true) (e : n.children p = .ok cs) :
    cs.Nodup ∧ ∀ c, c ∈ cs ↔ ∃ m, d.inner? p = some m ∧ d.outer? c = some m := by
  have hinside {m} (hp : d.inner? p = some m) (hcs : d.childrenIn m = cs) :
      cs.Nodup ∧ ∀ c, c ∈ cs ↔ ∃ m, d.inner? p = some m ∧ d.outer? c = some m := by
    subst hcs
    refine ⟨h.nodup_childrenIn m, fun c => ?_⟩
    simp only [hp, Option.some.injEq, exists_eq_left']
    exact h.mem_childrenIn
  simp only [children, hd] at e
  cases p with
  | top =>
    simp only [hn, if_true] at e
    exact hinside rfl (pure_eq_ok.1 e)
  | flat id =>
    cases pure_eq_ok.1 e
    exact ⟨List.nodup_nil, fun c => by simp [Design.inner?]⟩
  | module id =>
    obtain ⟨-, -, e⟩ := bind_eq_ok.1 e
    obtain ⟨a, hfetch, e⟩ := bind_eq_ok.1 e
    have ha : d.modInsts.find? id = some a := Table.fetch_eq_ok.1 hfetch
    exact hinside (Option.map_eq_some_iff.2 ⟨a, ha, rfl⟩) (pure_eq_ok.1 e)

theorem children_flat (hd : n.design? = some d) (hn : n.hierarchy = false)
    (e : n.children p = .ok cs) : cs = [] ∨ p = .top ∧ cs = d.insts.ids.map .flat := by
  simp only [children, hd] at e
  cases p with
  | top =>
    simp only [hn, Bool.false_eq_true, if_false] at e
    exact .inr ⟨rfl, (pure_eq_ok.1 e).symm⟩
  | flat id => exact .inl (pure_eq_ok.1 e).symm
  | module id =>
    obtain ⟨_, hrequire, -⟩ := bind_eq_ok.1 e
    simp only [requireHierarchy, hn, Bool.false_eq_true, if_false] at hrequire
    cases hrequire

theorem children_undesigned (hd : n.design? = none) (e : n.children p = .ok cs) : cs = [] := by
  simp only [children, hd] at e
  exact (pure_eq_ok.1 e).symm

theorem parent_hierarchical (hd : n.design? = some d) (hn : n.hierarchy = true)
    (hc : d.outer? c = some m) : n.parent c = .ok (some (d.insideOf m)) := by
  cases c with
  | top => cases hc
  | flat id =>
    obtain ⟨a, ha, rfl⟩ := Option.map_eq_some_iff.1 hc
    have hinst : d.inst id = .ok a := Table.fetch_eq_ok.2 ha
    simp only [parent, hn, if_true]
    exact bind_eq_ok.2 ⟨d, design_eq_ok.2 hd, bind_eq_ok.2 ⟨a, hinst, rfl⟩⟩
  | module id =>
    obtain ⟨a, ha, rfl⟩ := Option.map_eq_some_iff.1 hc
    have hinst : d.modInst id = .ok a := Table.fetch_eq_ok.2 ha
    exact bind_eq_ok.2 ⟨d, design_eq_ok.2 hd, bind_eq_ok.2 ⟨a, hinst, rfl⟩⟩

/-- The children of an instance that is shown are listed once each, are shown themselves, and have
this instance as their parent; no other instance has them as its children. That holds with and
without the hierarchy, and also after edits that the network did not see. -/
theorem Accessible.children_know_parent (h : n.Accessible) (hp : n.Shows p) :
    ∃ cs, n.children p = .ok cs ∧ cs.Nodup ∧ ∀ c ∈ cs,
      n.Shows c ∧ n.parent c = .ok (some p) ∧
      ∀ q qs, n.children q = .ok qs → c ∈ qs → q = p := by
  obtain ⟨cs, e⟩ := hp.children_ok
  refine ⟨cs, e, ?_⟩
  cases hd : n.design? with
  | none =>
    cases children_undesigned hd e
    exact ⟨List.nodup_nil, fun c hc => by cases hc⟩
  | some d =>
    have hwf : d.WellFormed := h.design hd
    cases hn : n.hierarchy with
    | true =>
      obtain ⟨hnodup, hmem⟩ := children_hierarchical hd hwf hn e
      refine ⟨hnodup, fun c hc => ?_⟩
      obtain ⟨m, hinner, houter⟩ := (hmem c).1 hc
      have hinside : d.insideOf m = p := hwf.insideOf_eq hinner
      refine ⟨shows_of_live hn hd (Design.live_of_outer? houter), ?_, fun q qs eq hq => ?_⟩
      · rw [parent_hierarchical hd hn houter, hinside]
      · -- An instance that lists `c` too has the module of `c` as its inside.
        obtain ⟨m', hinner', houter'⟩ := ((children_hierarchical hd hwf hn eq).2 c).1 hq
        obtain rfl : m = m' := Option.some.inj (houter.symm.trans houter')
        exact (hwf.insideOf_eq hinner').symm.trans hinside
    | false =>
      rcases children_flat hd hn e with rfl | ⟨rfl, rfl⟩
      · exact ⟨List.nodup_nil, fun c hc => by cases hc⟩
      · refine ⟨hwf.insts.nodup.map fun _ _ e => Instance.flat.inj e, fun c hc => ?_⟩
        obtain ⟨i, hi, rfl⟩ := List.mem_map.1 hc
        refine ⟨⟨d, hd, hi⟩, ?_, fun q qs eq hq => ?_⟩
        · simp only [parent, hn, Bool.false_eq_true, if_false]
          rfl
        · rcases children_flat hd hn eq with rfl | ⟨rfl, -⟩
          · cases hq
          · rfl

theorem children_know_parent_unseen : ∃ n cs, Accessible n ∧ n.Shows (.module ⟨1⟩) ∧
    n.children (.module ⟨1⟩) = .ok cs ∧ .flat ⟨1⟩ ∈ cs ∧
    n.parent (.flat ⟨1⟩) = .ok (some (.module ⟨1⟩)) := by
  have hrun : ∃ db db', Database.Reachable db ∧ Database.Reachable db' ∧ (do
      let n ← (Network.new .hierarchical).loadDatabase db
      let n' : Network := { n with db := db' }
      return (n'.hierarchy, n'.design?.map fun d => d.modInsts.ids, n'.children (.module ⟨1⟩))) =
        (.ok (true, some [⟨1⟩], .ok [.flat ⟨1⟩]) : Except Fault _) := by
    refine ⟨_, _, ReflTransGen.refl
      |>.tail (@Database.Step.createLib _ "cells" _ _ rfl)
      |>.tail (@Database.Step.createMaster _ ⟨1⟩ "BUF" _ _ rfl)
      |>.tail (@Database.Step.createDesign _ "top" _ _ rfl), ReflTransGen.refl
      |>.tail (@Database.Step.createLib _ "cells" _ _ rfl)
      |>.tail (@Database.Step.createMaster _ ⟨1⟩ "BUF" _ _ rfl)
      |>.tail (@Database.Step.createDesign _ "top" _ _ rfl)
      |>.tail (.design rfl (@Design.Step.createModule _ "A" _ _ rfl))
      |>.tail (.design rfl (@Design.Step.createModInst _ ⟨1⟩ ⟨2⟩ "a" _ _ rfl))
      |>.tail (@Database.Step.createInst _ ⟨1⟩ "a/u" (some ⟨2⟩) _ _ rfl), ?_⟩
    cbv
  obtain ⟨db, db', hdb, hdb', hrun⟩ := hrun
  obtain ⟨n, e, hrun⟩ := bind_eq_ok.1 hrun
  obtain ⟨hn, hrun⟩ := Prod.mk.inj (pure_eq_ok.1 hrun)
  obtain ⟨hids, hchildren⟩ := Prod.mk.inj hrun
  obtain ⟨d, hd, hids⟩ := Option.map_eq_some_iff.1 hids
  have h : Accessible { n with db := db' } := ⟨.hierarchical, ReflTransGen.refl
    |>.tail (.step (.load (.loadDatabase hdb e)))
    |>.tail (.database hdb')⟩
  have hp : Shows { n with db := db' } (.module ⟨1⟩) :=
    ⟨hn, d, hd, hids ▸ List.mem_singleton_self _⟩
  obtain ⟨cs, ecs, -, hall⟩ := h.children_know_parent hp
  have hmem : .flat ⟨1⟩ ∈ cs :=
    Except.ok.inj (hchildren.symm.trans ecs) ▸ List.mem_singleton_self _
  exact ⟨_, cs, h, hp, ecs, hmem, (hall _ hmem).2.1⟩

/-- With the hierarchy, every instance but the top has a parent, and it is among the children of
this parent exactly if its module is the inside of something. What is in a module that has no
instance, and is not the top one, has the top as its parent and is nobody's child. -/
theorem Reachable.listed_under_parent_iff (h : n.Reachable) (hn : n.hierarchy = true)
    (hd : n.design? = some d) (hc : d.LiveInstance c) (htop : c ≠ .top) :
    ∃ m p cs, d.outer? c = some m ∧ n.parent c = .ok (some p) ∧ n.children p = .ok cs ∧
      (c ∈ cs ↔ d.Entered m) ∧
      (¬d.Entered m → p = .top ∧ ∀ q qs, n.children q = .ok qs → c ∉ qs) := by
  have hwf : d.WellFormed := h.accessible.design hd
  obtain ⟨m, houter⟩ := Design.outer?_eq_some hc htop
  have hlive : d.LiveInstance (d.insideOf m) := by
    unfold Design.insideOf
    cases hi : d.instanceOf? m with
    | none => trivial
    | some i =>
      obtain ⟨a, ha, -⟩ := hwf.instanceOf?_eq_some_iff.1 hi
      exact Table.mem_ids_of_find? ha
  obtain ⟨cs, e⟩ := (shows_of_live hn hd hlive).children_ok
  have hlisted {q qs} (eq : n.children q = .ok qs) : c ∈ qs ↔ d.inner? q = some m := by
    rw [(children_hierarchical hd hwf hn eq).2 c]
    simp only [houter, Option.some.injEq, exists_eq_right']
  refine ⟨m, d.insideOf m, cs, houter, parent_hierarchical hd hn houter, e, ?_, fun hout => ?_⟩
  · exact (hlisted e).trans hwf.inner?_insideOf_iff
  · refine ⟨?_, fun q qs eq hq => hout ?_⟩
    · unfold Design.insideOf
      cases hi : d.instanceOf? m with
      | none => rfl
      | some i => exact absurd (.inr ⟨i, hi⟩) hout
    · have hinner : d.inner? q = some m := (hlisted eq).1 hq
      exact hwf.inner?_insideOf_iff.1 ((hwf.insideOf_eq hinner).symm ▸ hinner)

theorem listed_under_parent_orphan : ∃ n d, Reachable n ∧ n.design? = some d ∧
    d.LiveInstance (.flat ⟨1⟩) ∧ n.parent (.flat ⟨1⟩) = .ok (some .top) ∧
    ∀ q qs, n.children q = .ok qs → .flat ⟨1⟩ ∉ qs := by
  have hrun : ∃ db, Database.Reachable db ∧ (do
      let n ← (Network.new .hierarchical).loadDatabase db
      let n ← n.deleteInstance (.module ⟨1⟩)
      return (n.hierarchy, n.design?.map fun d =>
        (d.outer? (.flat ⟨1⟩), d.topModule, d.instanceOf? ⟨2⟩))) =
        (.ok (true, some (some ⟨2⟩, ⟨1⟩, none)) : Except Fault _) := by
    refine ⟨_, ReflTransGen.refl
      |>.tail (@Database.Step.createLib _ "cells" _ _ rfl)
      |>.tail (@Database.Step.createMaster _ ⟨1⟩ "BUF" _ _ rfl)
      |>.tail (@Database.Step.createDesign _ "top" _ _ rfl)
      |>.tail (.design rfl (@Design.Step.createModule _ "A" _ _ rfl))
      |>.tail (.design rfl (@Design.Step.createModInst _ ⟨1⟩ ⟨2⟩ "a" _ _ rfl))
      |>.tail (@Database.Step.createInst _ ⟨1⟩ "a/u" (some ⟨2⟩) _ _ rfl), ?_⟩
    cbv
  obtain ⟨db, hdb, hrun⟩ := hrun
  obtain ⟨n₁, e₁, hrun⟩ := bind_eq_ok.1 hrun
  obtain ⟨n, e₂, hrun⟩ := bind_eq_ok.1 hrun
  obtain ⟨hn, hrun⟩ := Prod.mk.inj (pure_eq_ok.1 hrun)
  obtain ⟨d, hd, hrun⟩ := Option.map_eq_some_iff.1 hrun
  obtain ⟨houter, hrun⟩ := Prod.mk.inj hrun
  obtain ⟨htop, hnone⟩ := Prod.mk.inj hrun
  have h : Reachable n := ⟨.hierarchical, ReflTransGen.refl
    |>.tail (.load (.loadDatabase hdb e₁))
    |>.tail (.edit (.deleteInstance e₂))⟩
  have hlive : d.LiveInstance (.flat ⟨1⟩) := Design.live_of_outer? houter
  have hleaf : Instance.flat ⟨1⟩ ≠ .top := Instance.noConfusion
  obtain ⟨m, p, cs, hm, hparent, -, -, horphan⟩ := h.listed_under_parent_iff hn hd hlive hleaf
  obtain rfl : m = ⟨2⟩ := Option.some.inj (hm.symm.trans houter)
  have hout : ¬d.Entered ⟨2⟩ := by
    rintro (e | ⟨i, hi⟩)
    · cases e.trans htop
    · cases hi.symm.trans hnone
  obtain ⟨rfl, hnobody⟩ := horphan hout
  exact ⟨n, d, h, hd, hlive, hparent, hnobody⟩

end Network
end DesignView
