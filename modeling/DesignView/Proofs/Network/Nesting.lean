import DesignView.Proofs.Network.Origin
import DesignView.Proofs.Physical.Nesting
import Mathlib

/-!
Paths through nested modules. Whether every module instance has a path depends on the nesting of the
modules alone, and a history of a network can leave modules that hold themselves: a module may be
instantiated wherever it has no instance yet, also inside a module that it holds.
-/

namespace DesignView.Network

open Relation (ReflTransGen TransGen)

variable {n : Network} {d : Design} {i : ModInstId}

theorem pathOf_module_ok (hd : n.design? = some d) : (∃ path, n.pathOf (.module i) = .ok path) ↔
    ∃ names, d.pathNames (d.modInsts.size + 1) i = .ok names := by
  constructor
  · rintro ⟨path, e⟩
    obtain ⟨d', hd', e⟩ := bind_eq_ok.1 e
    obtain rfl : d = d' := Option.some.inj (hd.symm.trans (design_eq_ok.1 hd'))
    obtain ⟨names, e, -⟩ := bind_eq_ok.1 e
    exact ⟨names, e⟩
  · rintro ⟨names, e⟩
    exact ⟨_, bind_eq_ok.2 ⟨d, design_eq_ok.2 hd, bind_eq_ok.2 ⟨names, e, rfl⟩⟩⟩

theorem childNamed?_module_ok (hd : n.design? = some d) (h : d.WellFormed)
    (hh : n.hierarchy = true) (hi : i ∈ d.modInsts.ids)
    (hpath : ∃ names, d.pathNames (d.modInsts.size + 1) i = .ok names) (name : String) :
    ∃ r, n.childNamed? (.module i) name = .ok r := by
  obtain ⟨a, -, hfetch⟩ := fetch_of_mem hi
  obtain ⟨names, hnames⟩ := hpath
  have hrequire : n.requireHierarchy i = .ok () := if_pos hh
  have hinst : d.modInst i = .ok a := hfetch
  have hmodpath : d.modInstPath i n.settings.divider =
      .ok (Path.join n.settings.divider names) := bind_eq_ok.2 ⟨names, hnames, rfl⟩
  simp only [childNamed?, hd, hrequire, hinst, hmodpath, bind, Except.bind]
  split
  · exact ⟨_, rfl⟩
  · split
    · exact ⟨_, rfl⟩
    · next leaf hleaf =>
      -- A leaf that a name leads to is live.
      have hnamed := (h.instNames.firstWhere?_eq_some_iff h.insts).1 hleaf
      obtain ⟨x, hx, -⟩ := hnamed
      have hfetchx : d.inst leaf = .ok x := Table.fetch_eq_ok.2 hx
      simp only [hfetchx]
      exact ⟨_, rfl⟩

/-- In an acyclic hierarchy every module instance has a path, and only there; names below a module
instance are then looked up. A step of the database keeps the hierarchy acyclic exactly if it
instantiates no module in one that the module contains; an edit of the network is a sequence of such
steps. -/
theorem acyclic_exact (h : n.Reachable ∨ n.db.Reachable) (hd : n.design? = some d) :
    (d.Acyclic ↔ ∀ i ∈ d.modInsts.ids, ∃ path, n.pathOf (.module i) = .ok path) ∧
    (d.Acyclic → n.hierarchy = true → ∀ i ∈ d.modInsts.ids, ∀ name,
      ∃ r, n.childNamed? (.module i) name = .ok r) ∧
    (d.Acyclic → ∀ db d', n.db.Step db → db.design? = some d' →
      (d'.Acyclic ↔ ∀ i a, d'.modInsts.find? i = some a → ¬d.Contains a.master a.parent)) ∧
    ∀ n', n.Edit n' → ReflTransGen Database.Step n.db n'.db := by
  have hdb : n.db.WellFormed := (h.elim Reachable.db id).wellFormed
  have hwf : d.WellFormed := hdb.design hd
  have hpaths := hwf.acyclic_iff
  refine ⟨?_, fun hac hh i hi name => ?_, fun hac db d' s hd' => ?_, fun n' s => s.changes.db⟩
  · simp only [hpaths, pathOf_module_ok hd]
  · exact childNamed?_module_ok hd hwf hh hi (hpaths.1 hac i hi) name
  · exact s.acyclic_iff hdb hd hd' hac

/-- Two modules, one in the other: the instance of the outer one is deleted, and then the outer one
is instantiated in the inner one. -/
theorem acyclic_exact_nested : ∃ n d, Reachable n ∧ n.design? = some d ∧ ¬d.Acyclic ∧
    ∃ i ∈ d.modInsts.ids, ¬∃ path, n.pathOf (.module i) = .ok path := by
  have hrun : ∃ db, Database.Reachable db ∧ (do
      let n ← (Network.new .hierarchical).loadDatabase db
      let n ← n.deleteInstance (.module ⟨1⟩)
      let r ← n.makeModuleInstance ⟨4⟩ "x" (.module ⟨2⟩)
      return r.2.design?.map fun d => d.modInsts.entries) =
        (.ok (some [(⟨2⟩, ⟨"b", ⟨2⟩, ⟨3⟩⟩), (⟨1⟩, ⟨"x", ⟨3⟩, ⟨2⟩⟩)]) : Except Fault _) := by
    refine ⟨_, ReflTransGen.refl
      |>.tail (@Database.Step.createDesign _ "top" _ _ rfl)
      |>.tail (.design rfl (@Design.Step.createModule _ "A" _ _ rfl))
      |>.tail (.design rfl (@Design.Step.createModule _ "B" _ _ rfl))
      |>.tail (.design rfl (@Design.Step.createModInst _ ⟨1⟩ ⟨2⟩ "a" _ _ rfl))
      |>.tail (.design rfl (@Design.Step.createModInst _ ⟨2⟩ ⟨3⟩ "b" _ _ rfl)), ?_⟩
    cbv
  obtain ⟨db, hdb, hrun⟩ := hrun
  obtain ⟨n₁, e₁, hrun⟩ := bind_eq_ok.1 hrun
  obtain ⟨n₂, e₂, hrun⟩ := bind_eq_ok.1 hrun
  obtain ⟨⟨r, n⟩, e₃, hrun⟩ := bind_eq_ok.1 hrun
  obtain ⟨d, hd, hentries⟩ := Option.map_eq_some_iff.1 (pure_eq_ok.1 hrun)
  have h : Reachable n := ⟨_, ReflTransGen.refl
    |>.tail (.load (.loadDatabase hdb e₁))
    |>.tail (.edit (.deleteInstance e₂))
    |>.tail (.edit (.makeModuleInstance e₃))⟩
  have hfind (i : ModInstId) : d.modInsts.find? i =
      (OrderedMap.mk [(⟨2⟩, ⟨"b", ⟨2⟩, ⟨3⟩⟩), (⟨1⟩, ⟨"x", ⟨3⟩, ⟨2⟩⟩)]).find? i := by
    rw [← hentries]
    rfl
  have hb : d.Places ⟨2⟩ ⟨3⟩ := ⟨⟨2⟩, _, hfind ⟨2⟩, rfl, rfl⟩
  have hx : d.Places ⟨3⟩ ⟨2⟩ := ⟨⟨1⟩, _, hfind ⟨1⟩, rfl, rfl⟩
  have hcyclic : ¬d.Acyclic := fun hac => hac ⟨2⟩ (.head hb (.single hx))
  have hexact := (acyclic_exact (.inl h) hd).1
  refine ⟨n, d, h, hd, hcyclic, ?_⟩
  by_contra hall
  refine hcyclic (hexact.2 fun i hi => ?_)
  by_contra hno
  exact hall ⟨i, hi, hno⟩

end DesignView.Network
