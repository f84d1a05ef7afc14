import DesignView.Network.Scope
import DesignView.Proofs.Network.Origin
import DesignView.Proofs.Text.Expression
import Mathlib.Data.List.Permutation

/-!
The search for nets by a glob pattern. It is made in a library of expressions, and what that
documents of them is enough to tell what is found: the nets whose names the pattern covers, each
once, in the order in which they are listed.
-/

namespace DesignView

open Relation (ReflTransGen)
open Expression (Engine)

namespace Network

variable {n : Network} {d : Design} {e : Engine} {i : Instance} {pattern : String}

/-- The search as it is made in a library of expressions. Nothing is found where the library refuses
the expression. -/
def netsFound (n : Network) (e : Engine) (i : Instance) (pattern : String) : List Net :=
  if i.isTop then
    match n.design?, e.compile? (e.ofGlob pattern.toList) with
    | some d, some test =>
      let inModule := if n.hierarchy then d.modNetsIn d.topModule else []
      (inModule.filter fun x => test x.2.name.toList).map (.module ·.1) ++
        (d.nets.entries.filter fun x => test x.2.name.toList).map (.flat ·.1)
    | _, _ => []
  else []

theorem netsFound_eq_netsMatching (he : e.Conforms) (hfits : e.Fits (e.ofGlob pattern.toList)) :
    n.netsFound e i pattern = n.netsMatching i pattern := by
  obtain ⟨test, htest, hcovers⟩ := he.exists_test hfits
  unfold netsFound netsMatching
  cases n.design? with
  | none => simp
  | some d => simp only [htest, hcovers, Glob.ofString]

/-- The nets of the top scope with their names: with the hierarchy the module nets of the top
module, then the flat nets. -/
def topNets (n : Network) (d : Design) : List (Net × String) :=
  let inModule := if n.hierarchy then d.modNetsIn d.topModule else []
  inModule.map (fun x => (.module x.1, x.2.name)) ++
    d.nets.entries.map fun x => (.flat x.1, x.2.name)

theorem netsMatching_top (hd : n.design? = some d) :
    n.netsMatching .top pattern =
      ((n.topNets d).filter fun x =>
        Glob.isMatch (Glob.ofString pattern) x.2.toList).map (·.1) := by
  simp only [netsMatching, hd, topNets, List.filter_append, List.map_append, List.filter_map,
    List.map_map, Function.comp_def]
  rfl

theorem netsOf_top (hd : n.design? = some d) : n.netsOf .top = .ok ((n.topNets d).map (·.1)) := by
  have hflat : d.nets.ids.map Net.flat = d.nets.entries.map fun x => .flat x.1 := List.map_map ..
  simp only [netsOf, hd, topNets, List.map_append, List.map_map, Function.comp_def, hflat]
  rfl

theorem topNets_nodup (hwf : d.WellFormed) : ((n.topNets d).map (·.1)).Nodup := by
  have hmodule (p : ModNet → Bool) : ((d.modNets.select p).map fun x => Net.module x.1).Nodup := by
    have hids := (hwf.modNets.nodup_map_select p).map (f := Net.module) fun _ _ => Net.module.inj
    rwa [List.map_map] at hids
  have hflat : (d.nets.entries.map fun x => Net.flat x.1).Nodup := by
    have hids := hwf.nets.nodup.map (f := Net.flat) fun _ _ => Net.flat.inj
    rwa [Table.ids, OrderedMap.keys, List.map_map] at hids
  simp only [topNets, List.map_append, List.map_map, Function.comp_def]
  apply List.Nodup.append _ hflat
  · intro x hx hy
    obtain ⟨_, -, rfl⟩ := List.mem_map.1 hx
    obtain ⟨_, -, heq⟩ := List.mem_map.1 hy
    cases heq
  · split
    · exact hmodule _
    · exact List.nodup_nil

theorem netName_of_mem_topNets (hd : n.design? = some d) (hwf : d.WellFormed) {x : Net}
    {name : String} (hx : (x, name) ∈ n.topNets d) : n.netName x = .ok name := by
  have hdesign : n.design = .ok d := design_eq_ok.2 hd
  rcases List.mem_append.1 hx with hmodule | hflat
  · obtain ⟨⟨id, a⟩, ha, ⟨⟩⟩ := List.mem_map.1 hmodule
    split at ha
    · have hfetch : d.modNet id = .ok a := Table.fetch_eq_ok.2 (hwf.modNets.mem_select.1 ha).1
      exact bind_eq_ok.2 ⟨d, hdesign, bind_eq_ok.2 ⟨a, hfetch, rfl⟩⟩
    · cases ha
  · obtain ⟨⟨id, a⟩, ha, ⟨⟩⟩ := List.mem_map.1 hflat
    have hfetch : d.net id = .ok a := Table.fetch_eq_ok.2 (hwf.nets.find?_eq_some_iff.2 ha)
    exact bind_eq_ok.2 ⟨d, hdesign, bind_eq_ok.2 ⟨a, hfetch, rfl⟩⟩

/-- Whatever was loaded and edited, also behind the network's back: the search at the top finds, of
the nets that are listed there, those whose names the glob pattern covers, as long as the expression
for it is not too large. -/
theorem Accessible.nets_found_by_glob (h : n.Accessible) (hd : n.design? = some d)
    (he : e.Conforms) (pattern : String) (hfits : e.Fits (e.ofGlob pattern.toList)) :
    n.netsFound e .top pattern =
      ((n.topNets d).filter fun x => Glob.Matches (Glob.ofString pattern) x.2.toList).map (·.1) ∧
    n.netsOf .top = .ok ((n.topNets d).map (·.1)) ∧
    ((n.topNets d).map (·.1)).Nodup ∧
    (∀ x name, (x, name) ∈ n.topNets d → n.netName x = .ok name) ∧
    n.netsMatching .top pattern = n.netsFound e .top pattern := by
  have hwf := h.design hd
  have hfound := netsFound_eq_netsMatching (n := n) (i := .top) he hfits
  refine ⟨?_, netsOf_top hd, topNets_nodup hwf, fun x name => netName_of_mem_topNets hd hwf,
    hfound.symm⟩
  rw [hfound, netsMatching_top hd]
  simp only [← Glob.isMatch_iff, Bool.decide_eq_true]

theorem nets_found_by_glob_escaped : ∃ n d, Accessible n ∧ n.design? = some d ∧
    Engine.exhaustive.Conforms ∧ Engine.exhaustive.Fits (Engine.exhaustive.ofGlob "\\*.?".toList) ∧
    Engine.exhaustive.ofGlob "\\*.?".toList = "^\\\\.*\\..$".toList ∧
    n.netsFound .exhaustive .top "\\*.?" = [.module ⟨1⟩, .flat ⟨1⟩] ∧
    n.netsMatching .top "\\*.?" = [.module ⟨1⟩, .flat ⟨1⟩] := by
  have hrun : ∃ db, Database.Reachable db ∧ (do
      let n ← (Network.new .hierarchical).loadDatabase db
      return (n.netsFound .exhaustive .top "\\*.?", n.design?.isSome)) =
        (.ok ([.module ⟨1⟩, .flat ⟨1⟩], true) : Except Fault _) := by
    refine ⟨_, ReflTransGen.refl
      |>.tail (@Database.Step.createDesign _ "top" _ _ rfl)
      |>.tail (.design rfl (@Design.Step.createNet _ "\\a.b" _ _ rfl))
      |>.tail (.design rfl (@Design.Step.createNet _ "\\axb" _ _ rfl))
      |>.tail (.design rfl (@Design.Step.createNet _ "a.b" _ _ rfl))
      |>.tail (.design rfl (@Design.Step.createModNet _ ⟨1⟩ "\\.c" _ _ rfl)), ?_⟩
    cbv
  obtain ⟨db, hdb, hrun⟩ := hrun
  obtain ⟨n, e, hrun⟩ := bind_eq_ok.1 hrun
  have hseen := pure_eq_ok.1 hrun
  simp only [Prod.mk.injEq] at hseen
  obtain ⟨hfound, hsome⟩ := hseen
  obtain ⟨d, hd⟩ := Option.isSome_iff_exists.1 hsome
  have h : Accessible n := ⟨_, .single (.step (.load (.loadDatabase hdb e)))⟩
  have hglob := h.nets_found_by_glob hd Expression.exhaustive_conforms "\\*.?" trivial
  exact ⟨n, d, h, hd, Expression.exhaustive_conforms, trivial, rfl, hfound,
    hglob.2.2.2.2.trans hfound⟩

end Network
end DesignView
