import DesignView.Proofs.Network.Building

/-!
The catalog of a network has a history of its own. A load builds libraries and cells step by step,
in place of others or from nothing, and an edit adds a port, makes a bundle or forgets a boundary
terminal; every other part of a load or an edit leaves the catalog alone.
-/

namespace DesignView.Network

variable {n n' : Network}

theorem Load.catalog (s : n.Load n') (hdb : n.db.WellFormed) (h : n.catalog.Reachable) :
    n'.catalog.Reachable := by
  rcases s.builds hdb h.intact with hbuilds | hbuilds
  · exact h.trans hbuilds.steps
  · exact hbuilds.steps

theorem setTopPort_steps (ht : n.catalog.Tidy) (name : String) (direction : PortDirection) :
    n.catalog.Steps (n.setTopPort name direction).catalog := by
  unfold Network.setTopPort
  split
  · exact .refl _
  · next top htop =>
    split
    · exact .single (.setDirection ..)
    · next hfree =>
      obtain ⟨y, hy, -⟩ := OrderedMap.exists_of_firstKey? ht.cells.nodup htop
      exact .single (.addPort hy hfree direction)

theorem Change.catalog (s : n.Change n') (ht : n.catalog.Tidy) : n.catalog.Steps n'.catalog := by
  cases s with
  | topTerminal hd _ _ => exact setTopPort_steps (n := n.withDesign _) ht ..
  | destroyModBTerm hd e => exact .single (.forgetBoundary ..)
  | bundle e => exact .single (.bundle e)
  | _ => exact .refl _

theorem Changes.catalog (hrun : n.Changes n') (h : n.catalog.Reachable) :
    n'.catalog.Reachable := by
  induction hrun with
  | refl => exact h
  | tail _ s ih => exact ih.trans (s.catalog ih.intact.tidy)

theorem Reachable.catalog (h : n.Reachable) : n.catalog.Reachable := by
  induction h using Reachable.induct with
  | new => exact .refl _
  | step hbefore s ih =>
    cases s with
    | load s => exact s.catalog hbefore.current.sound.db ih
    | edit s => exact s.changes.catalog ih
    | query s => exact s.same.1.symm ▸ ih

end DesignView.Network
