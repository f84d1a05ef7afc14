import DesignView.Proofs.Network.Children
import DesignView.Proofs.Network.Nesting
import DesignView.Proofs.Physical.Descent
import Mathlib

/-!
Look-ups by path and by name. The path of an instance leads back to it, as far as a path tells its
segments and leaf names apart. The child of a given name is a child, but for one case: at the top
any leaf answers to its full name, also a leaf that is in another module.
-/

namespace DesignView.Network

open Relation (ReflTransGen)

variable {n : Network} {d : Design} {c p : Instance} {i : ModInstId} {a : ModInst} {x : InstId}
variable {names : List String} {name path : String}

theorem pathOf_flat (hd : n.design? = some d) {u : Inst} (hx : d.insts.find? x = some u) :
    n.pathOf (.flat x) = .ok u.name :=
  bind_eq_ok.2 ⟨d, design_eq_ok.2 hd, bind_eq_ok.2 ⟨u, Table.fetch_eq_ok.2 hx, rfl⟩⟩

theorem pathOf_located (hd : n.design? = some d) (hwf : d.WellFormed)
    (hi : d.modInsts.find? i = some a) (h : d.Located a.parent names) :
    n.pathOf (.module i) = .ok (Path.join n.settings.divider (names ++ [a.name])) :=
  bind_eq_ok.2 ⟨d, design_eq_ok.2 hd, h.modInstPath hwf hi n.settings.divider⟩

theorem instNamed?_eq_some_iff (hwf : d.WellFormed) :
    d.instNamed? name = some x ↔ ∃ u, d.insts.find? x = some u ∧ u.name = name :=
  hwf.instNames.firstWhere?_eq_some_iff hwf.insts

theorem pathOf_of_instanceAt? (hd : n.design? = some d) (hwf : d.WellFormed)
    (e : n.instanceAt? path = some c) : n.pathOf c = .ok path := by
  simp only [instanceAt?, hd] at e
  split at e
  · next x hx =>
    cases e
    obtain ⟨u, hu, rfl⟩ := (instNamed?_eq_some_iff hwf).1 hx
    exact pathOf_flat hd hu
  · split at e
    · obtain ⟨i, hi, rfl⟩ := Option.map_eq_some_iff.1 e
      obtain ⟨a, names, ha, hlocated, hnames⟩ := located_of_descend? hwf .top hi
      rw [pathOf_located hd hwf ha hlocated, ← hnames, List.nil_append, Path.join_split]
    · cases e

theorem instanceAt?_of_named (hd : n.design? = some d) (hx : d.instNamed? path = some x) :
    n.instanceAt? path = some (.flat x) := by
  simp only [instanceAt?, hd, hx]

theorem instanceAt?_of_located (hd : n.design? = some d) (hwf : d.WellFormed)
    (hh : n.hierarchy = true) (hi : d.modInsts.find? i = some a)
    (h : d.Located a.parent names) (hplain : ∀ s ∈ names ++ [a.name], n.settings.divider ∉ s.toList)
    (hleaf : d.instNamed? (Path.join n.settings.divider (names ++ [a.name])) = none) :
    n.instanceAt? (Path.join n.settings.divider (names ++ [a.name])) = some (.module i) := by
  have hsplit := Path.split_join (by simp) hplain
  simp only [instanceAt?, hd, hleaf, hh, if_true, hsplit, descend?_of_located hwf h hi,
    Option.map_some]

/-- With the hierarchy, the instance at a path has this path. Each leaf is the instance at its path,
and so is a module instance on a chain from the top module, if the names on the chain hold no
divider and no leaf has the path as its name. -/
theorem Accessible.instanceAt_inverse (h : n.Accessible) (hh : n.hierarchy = true) :
    (∀ path c, n.instanceAt? path = some c → n.pathOf c = .ok path) ∧
    ∀ d, n.design? = some d →
      (∀ x ∈ d.insts.ids, ∃ path, n.pathOf (.flat x) = .ok path ∧
        n.instanceAt? path = some (.flat x)) ∧
      ∀ i a names, d.modInsts.find? i = some a → d.Located a.parent names → ∃ path,
        n.pathOf (.module i) = .ok path ∧
        path = Path.join n.settings.divider (names ++ [a.name]) ∧
        ((∀ s ∈ names ++ [a.name], n.settings.divider ∉ s.toList) →
          d.instNamed? path = none → n.instanceAt? path = some (.module i)) := by
  refine ⟨fun path c e => ?_, fun d hd => ⟨fun x hx => ?_, fun i a names hi hlocated => ?_⟩⟩
  · cases hd : n.design? with
    | none =>
      simp only [instanceAt?, hd] at e
      cases e
    | some d => exact pathOf_of_instanceAt? hd (h.design hd) e
  · have hwf : d.WellFormed := h.design hd
    obtain ⟨u, hu⟩ := Table.mem_ids_iff.1 hx
    have hnamed : d.instNamed? u.name = some x := (instNamed?_eq_some_iff hwf).2 ⟨u, hu, rfl⟩
    exact ⟨u.name, pathOf_flat hd hu, instanceAt?_of_named hd hnamed⟩
  · have hwf : d.WellFormed := h.design hd
    refine ⟨_, pathOf_located hd hwf hi hlocated, rfl, fun hplain hleaf => ?_⟩
    exact instanceAt?_of_located hd hwf hh hi hlocated hplain hleaf

theorem instanceAt_inverse_nested : ∃ n, Accessible n ∧ n.hierarchy = true ∧
    n.instanceAt? "a/b" = some (.module ⟨2⟩) ∧ n.pathOf (.module ⟨2⟩) = .ok "a/b" ∧
    n.instanceAt? "a/b/u" = some (.flat ⟨1⟩) ∧ n.pathOf (.flat ⟨1⟩) = .ok "a/b/u" := by
  have hrun : ∃ db, Database.Reachable db ∧ (do
      let n ← (Network.new .hierarchical).loadDatabase db
      return (n.hierarchy, n.settings.divider, n.instanceAt? "a/b/u", n.design?.map fun d =>
        (d.topModule, d.modInsts.entries, d.instNamed? "a/b"))) =
        (.ok (true, '/', some (.flat ⟨1⟩), some (⟨1⟩,
          [(⟨1⟩, ⟨"a", ⟨1⟩, ⟨2⟩⟩), (⟨2⟩, ⟨"b", ⟨2⟩, ⟨3⟩⟩)], none)) : Except Fault _) := by
    refine ⟨_, ReflTransGen.refl
      |>.tail (@Database.Step.createLib _ "cells" _ _ rfl)
      |>.tail (@Database.Step.createMaster _ ⟨1⟩ "BUF" _ _ rfl)
      |>.tail (@Database.Step.createDesign _ "top" _ _ rfl)
      |>.tail (.design rfl (@Design.Step.createModule _ "A" _ _ rfl))
      |>.tail (.design rfl (@Design.Step.createModule _ "B" _ _ rfl))
      |>.tail (.design rfl (@Design.Step.createModInst _ ⟨1⟩ ⟨2⟩ "a" _ _ rfl))
      |>.tail (.design rfl (@Design.Step.createModInst _ ⟨2⟩ ⟨3⟩ "b" _ _ rfl))
      |>.tail (@Database.Step.createInst _ ⟨1⟩ "a/b/u" (some ⟨3⟩) _ _ rfl), ?_⟩
    cbv
  obtain ⟨db, hdb, hrun⟩ := hrun
  obtain ⟨n, e, hrun⟩ := bind_eq_ok.1 hrun
  obtain ⟨hh, hrun⟩ := Prod.mk.inj (pure_eq_ok.1 hrun)
  obtain ⟨hdivider, hrun⟩ := Prod.mk.inj hrun
  obtain ⟨hleaf, hrun⟩ := Prod.mk.inj hrun
  obtain ⟨d, hd, hrun⟩ := Option.map_eq_some_iff.1 hrun
  obtain ⟨htop, hrun⟩ := Prod.mk.inj hrun
  obtain ⟨hentries, hnone⟩ := Prod.mk.inj hrun
  have h : Accessible n := ⟨.hierarchical, ReflTransGen.refl
    |>.tail (.step (.load (.loadDatabase hdb e)))⟩
  obtain ⟨hpath, hlive⟩ := h.instanceAt_inverse hh
  have hfind (i : ModInstId) : d.modInsts.find? i =
      (OrderedMap.mk [(⟨1⟩, ⟨"a", ⟨1⟩, ⟨2⟩⟩), (⟨2⟩, ⟨"b", ⟨2⟩, ⟨3⟩⟩)]).find? i := by
    rw [← hentries]
    rfl
  have ha : d.modInsts.find? ⟨1⟩ = some ⟨"a", ⟨1⟩, ⟨2⟩⟩ := hfind ⟨1⟩
  have hb : d.modInsts.find? ⟨2⟩ = some ⟨"b", ⟨2⟩, ⟨3⟩⟩ := hfind ⟨2⟩
  have hbelow : d.Located ⟨1⟩ [] := htop ▸ Design.Located.top
  have hlocated : d.Located ⟨2⟩ ["a"] := .inside ha hbelow
  obtain ⟨path, epath, rfl, hback⟩ := (hlive d hd).2 ⟨2⟩ _ _ hb hlocated
  rw [hdivider] at epath hback
  exact ⟨n, h, hh, hback (by decide) hnone, epath, hleaf, hpath _ _ hleaf⟩

/-- The answer to a look-up at the top is a leaf that is not in the top module. -/
def Strays (n : Network) (p c : Instance) : Prop :=
  n.hierarchy = true ∧ p = .top ∧ ∃ d x u, n.design? = some d ∧ c = .flat x ∧
    d.insts.find? x = some u ∧ u.module ≠ d.topModule

theorem strays_iff {u : Inst} (hd : n.design? = some d) (hx : d.insts.find? x = some u) :
    n.Strays .top (.flat x) ↔ n.hierarchy = true ∧ u.module ≠ d.topModule := by
  constructor
  · rintro ⟨hh, -, d', y, v, hd', ⟨rfl⟩, hy, hother⟩
    obtain rfl : d = d' := Option.some.inj (hd.symm.trans hd')
    obtain rfl : u = v := Option.some.inj (hx.symm.trans hy)
    exact ⟨hh, hother⟩
  · rintro ⟨hh, hother⟩
    exact ⟨hh, rfl, d, x, u, hd, rfl, hx, hother⟩

theorem hierarchy_of_required (e : n.requireHierarchy i = .ok ()) : n.hierarchy = true := by
  unfold requireHierarchy at e
  split at e
  · assumption
  · cases e

theorem leaf_mem_children_top {u : Inst} {cs : List Instance} (hd : n.design? = some d)
    (hwf : d.WellFormed) (e : n.children .top = .ok cs) (hx : d.insts.find? x = some u) :
    .flat x ∈ cs ↔ (n.hierarchy = true → u.module = d.topModule) := by
  cases hh : n.hierarchy with
  | true =>
    rw [(children_hierarchical hd hwf hh e).2]
    simp [Design.inner?, Design.outer?, hx]
  | false =>
    simp only [children, hd, hh, Bool.false_eq_true, if_false] at e
    obtain rfl := pure_eq_ok.1 e
    have hlive : x ∈ d.insts.ids := Table.mem_ids_of_find? hx
    simp [hlive]

theorem Shows.childNamed?_ok (hp : n.Shows p) (hwf : ∀ d, n.design? = some d → d.WellFormed)
    (hac : ∀ d, n.design? = some d → d.Acyclic) (name : String) :
    ∃ r, n.childNamed? p name = .ok r := by
  cases hd : n.design? with
  | none => exact ⟨none, by simp only [childNamed?, hd]; rfl⟩
  | some d =>
    cases p with
    | top =>
      simp only [childNamed?, hd]
      split <;> exact ⟨_, rfl⟩
    | flat x => exact ⟨none, by simp only [childNamed?, hd]; rfl⟩
    | module i =>
      obtain ⟨hh, d', hd', hi⟩ := hp
      obtain rfl : d = d' := Option.some.inj (hd.symm.trans hd')
      exact childNamed?_module_ok hd (hwf d hd) hh hi ((hwf d hd).acyclic_iff.1 (hac d hd) i hi) name

theorem childNamed?_eq_some (hd : n.design? = some d) (hwf : d.WellFormed)
    (e : n.childNamed? p name = .ok (some c)) :
    (n.hierarchy = true ∧ ∃ m, d.inner? p = some m ∧ d.outer? c = some m) ∨
      p = .top ∧ ∃ x u, c = .flat x ∧ d.insts.find? x = some u ∧ u.name = name := by
  have hbelow {m : ModuleId} {j : ModInstId} (hj : d.modInstNamed? m name = some j) :
      d.outer? (.module j) = some m := by
    obtain ⟨b, hb, rfl, -⟩ := hwf.modInstNamed?_eq_some_iff.1 hj
    exact Option.map_eq_some_iff.2 ⟨b, hb, rfl⟩
  simp only [childNamed?, hd] at e
  cases p with
  | top =>
    dsimp only at e
    split at e
    · next j hj =>
      cases pure_eq_ok.1 e
      cases hh : n.hierarchy with
      | false => simp [hh] at hj
      | true =>
        rw [hh, if_pos rfl] at hj
        exact .inl ⟨rfl, d.topModule, rfl, hbelow hj⟩
    · obtain ⟨x, hx, rfl⟩ := Option.map_eq_some_iff.1 (pure_eq_ok.1 e)
      obtain ⟨u, hu, hname⟩ := (instNamed?_eq_some_iff hwf).1 hx
      exact .inr ⟨rfl, x, u, rfl, hu, hname⟩
  | flat x => cases pure_eq_ok.1 e
  | module i =>
    obtain ⟨_, hrequire, e⟩ := bind_eq_ok.1 e
    obtain ⟨a, hfetch, e⟩ := bind_eq_ok.1 e
    have hh : n.hierarchy = true := hierarchy_of_required hrequire
    have ha : d.modInsts.find? i = some a := Table.fetch_eq_ok.1 hfetch
    refine .inl ⟨hh, a.master, Option.map_eq_some_iff.2 ⟨a, ha, rfl⟩, ?_⟩
    split at e
    · next j hj =>
      cases pure_eq_ok.1 e
      exact hbelow hj
    · obtain ⟨above, -, e⟩ := bind_eq_ok.1 e
      split at e
      · cases pure_eq_ok.1 e
      · next x hx =>
        obtain ⟨u, hfetchu, e⟩ := bind_eq_ok.1 e
        have hu : d.insts.find? x = some u := Table.fetch_eq_ok.1 hfetchu
        split at e
        · next hmodule =>
          cases pure_eq_ok.1 e
          exact Option.map_eq_some_iff.2 ⟨u, hu, hmodule⟩
        · cases pure_eq_ok.1 e

/-- In an acyclic hierarchy every look-up of a child is answered. What it finds is shown, and is a
child of the instance and has it as its parent, unless the look-up was at the top and strayed to a
leaf of another module. Such a leaf, which has the name as its path, is no child of the top. -/
theorem Accessible.childNamed_exact (h : n.Accessible)
    (hac : ∀ d, n.design? = some d → d.Acyclic) (hp : n.Shows p) (name : String) :
    ∃ cs r, n.children p = .ok cs ∧ n.childNamed? p name = .ok r ∧ ∀ c, r = some c →
      n.Shows c ∧ (¬n.Strays p c → c ∈ cs ∧ n.parent c = .ok (some p)) ∧
      (n.Strays p c → c ∉ cs ∧ n.pathOf c = .ok name) := by
  obtain ⟨cs, ecs, -, hall⟩ := h.children_know_parent hp
  obtain ⟨r, er⟩ := hp.childNamed?_ok (fun d hd => h.design hd) hac name
  refine ⟨cs, r, ecs, er, fun c hc => ?_⟩
  subst hc
  cases hd : n.design? with
  | none =>
    simp only [childNamed?, hd] at er
    cases pure_eq_ok.1 er
  | some d =>
    have hwf : d.WellFormed := h.design hd
    rcases childNamed?_eq_some hd hwf er with ⟨hh, m, hinner, houter⟩ | ⟨rfl, x, u, rfl, hx, rfl⟩
    · have hin : c ∈ cs := ((children_hierarchical hd hwf hh ecs).2 c).2 ⟨m, hinner, houter⟩
      refine ⟨(hall c hin).1, fun _ => ⟨hin, (hall c hin).2.1⟩, ?_⟩
      rintro ⟨-, rfl, d', x, u, hd', rfl, hx, hother⟩
      obtain rfl : d = d' := Option.some.inj (hd.symm.trans hd')
      refine absurd ((leaf_mem_children_top hd hwf ecs hx).1 hin hh) hother
    · have hmem := leaf_mem_children_top hd hwf ecs hx
      rw [strays_iff hd hx]
      refine ⟨⟨d, hd, Table.mem_ids_of_find? hx⟩, fun hstay => ?_, fun hstray => ?_⟩
      · have hin : .flat x ∈ cs := hmem.2 fun hh => by_contra fun hother => hstay ⟨hh, hother⟩
        exact ⟨hin, (hall _ hin).2.1⟩
      · exact ⟨fun hin => hstray.2 (hmem.1 hin hstray.1), pathOf_flat hd hx⟩

theorem childNamed_exact_leaf : ∃ n cs, Accessible n ∧ n.children .top = .ok cs ∧
    n.childNamed? .top "a/u" = .ok (some (.flat ⟨1⟩)) ∧ .flat ⟨1⟩ ∉ cs := by
  have hrun : ∃ db, Database.Reachable db ∧ (do
      let n ← (Network.new .hierarchical).loadDatabase db
      return (n.hierarchy, n.childNamed? .top "a/u", n.design?.map fun d =>
        (d.topModule, (d.insts.find? ⟨1⟩).map (·.module), d.modInsts.ids,
          d.pathNames (d.modInsts.size + 1) ⟨1⟩))) =
        (.ok (true, .ok (some (.flat ⟨1⟩)), some (⟨1⟩, some ⟨2⟩, [⟨1⟩], .ok ["a"])) :
          Except Fault _) := by
    refine ⟨_, ReflTransGen.refl
      |>.tail (@Database.Step.createLib _ "cells" _ _ rfl)
      |>.tail (@Database.Step.createMaster _ ⟨1⟩ "BUF" _ _ rfl)
      |>.tail (@Database.Step.createDesign _ "top" _ _ rfl)
      |>.tail (.design rfl (@Design.Step.createModule _ "A" _ _ rfl))
      |>.tail (.design rfl (@Design.Step.createModInst _ ⟨1⟩ ⟨2⟩ "a" _ _ rfl))
      |>.tail (@Database.Step.createInst _ ⟨1⟩ "a/u" (some ⟨2⟩) _ _ rfl), ?_⟩
    cbv
  obtain ⟨db, hdb, hrun⟩ := hrun
  obtain ⟨n, e, hrun⟩ := bind_eq_ok.1 hrun
  obtain ⟨hh, hrun⟩ := Prod.mk.inj (pure_eq_ok.1 hrun)
  obtain ⟨hfound, hrun⟩ := Prod.mk.inj hrun
  obtain ⟨d, hd, hrun⟩ := Option.map_eq_some_iff.1 hrun
  obtain ⟨htop, hrun⟩ := Prod.mk.inj hrun
  obtain ⟨hmodule, hrun⟩ := Prod.mk.inj hrun
  obtain ⟨hids, hpath⟩ := Prod.mk.inj hrun
  obtain ⟨u, hu, hmodule⟩ := Option.map_eq_some_iff.1 hmodule
  have h : Accessible n := ⟨.hierarchical, ReflTransGen.refl
    |>.tail (.step (.load (.loadDatabase hdb e)))⟩
  have hac : ∀ d, n.design? = some d → d.Acyclic := by
    intro d' hd'
    obtain rfl : d = d' := Option.some.inj (hd.symm.trans hd')
    refine (h.design hd).acyclic_iff.2 fun i hi => ⟨["a"], ?_⟩
    obtain rfl : i = ⟨1⟩ := List.mem_singleton.1 (hids ▸ hi)
    exact hpath
  have hother : u.module ≠ d.topModule := by
    rw [hmodule, htop]
    decide
  obtain ⟨cs, r, ecs, er, hall⟩ := h.childNamed_exact hac (p := .top) trivial "a/u"
  obtain rfl : r = some (.flat ⟨1⟩) := Except.ok.inj (er.symm.trans hfound)
  exact ⟨n, cs, h, ecs, hfound, ((hall _ rfl).2.2 ((strays_iff hd hu).2 ⟨hh, hother⟩)).1⟩

end DesignView.Network
