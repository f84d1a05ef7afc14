import DesignView.Proofs.Network.Catalog
import Mathlib.Data.List.Permutation

/-!
The bits of the cells that a network shows. Loads, buses and bundles leave the ports of a cell a
forest, so the list of its bits is found, and no port is lost in it. A bundle is made from any
top-level ports, and a port that is listed in it twice is among the bits twice.
-/

namespace DesignView.Network

open Relation (ReflTransGen)

variable {n : Network} {x : CellId}

/-- The bits of a cell are found, by a loop that ends. They are the ports of the cell that are no
groups, and they are listed once each exactly if no bundle of the cell lists a port twice. -/
theorem Reachable.portBits_exact (h : n.Reachable) {y : Cell}
    (hx : n.catalog.cells.find? x = some y) :
    ∃ bits, n.catalog.portBits x = .ok bits ∧
      (∀ s, ReflTransGen n.catalog.Pops (y.ports, []) s →
        ReflTransGen n.catalog.Pops s ([], bits)) ∧
      (∀ p, p ∈ bits ↔ ∃ q, n.catalog.ports.find? p = some q ∧ q.cell = x ∧ q.source ≠ .group) ∧
      (bits.Nodup ↔ ∀ g q members, n.catalog.ports.find? g = some q → q.cell = x →
        q.shape = .bundle members → members.Nodup) := by
  have hforest : n.catalog.Forest x := h.catalog.planted x
  have ht : n.catalog.Tidy := h.catalog.intact.tidy
  have hport {p : PortId} {motive : PortNode → Prop} : (∃ m, n.catalog.node? p = some m ∧ motive m) ↔
      ∃ q, n.catalog.ports.find? p = some q ∧ motive q.node := by
    simp only [Catalog.node?, Option.map_eq_some_iff]
    constructor
    · rintro ⟨-, ⟨q, hq, rfl⟩, hm⟩
      exact ⟨q, hq, hm⟩
    · rintro ⟨q, hq, hm⟩
      exact ⟨q.node, ⟨q, hq, rfl⟩, hm⟩
  have hbits : n.catalog.portBits x = .ok (n.catalog.bitsOf x) := by
    rw [Catalog.portBits, Catalog.cell_eq_ok.2 hx]
    rfl
  have htop : n.catalog.topPorts x = y.ports := by
    rw [Catalog.topPorts_eq, hx]
    rfl
  refine ⟨_, hbits, fun s hs => ?_, fun p => (hforest.mem_bitsOf_iff ht).trans hport,
    (hforest.bitsOf_nodup_iff ht).trans ?_⟩
  · exact Catalog.pops_of_pops (htop ▸ hforest.pops_bitsOf) hs
  · constructor
    · intro hall g q members hq hcell hshape
      have hmembers := hall g q.node (Catalog.node?_of_find? hq) hcell (by
        rw [Port.node, hshape]
        rfl)
      rwa [Port.node, hshape] at hmembers
    · intro hall g m hm hcell hbus
      obtain ⟨q, hq, rfl⟩ := Option.map_eq_some_iff.1 hm
      cases hshape : q.shape with
      | bundle members =>
        rw [Port.node, hshape]
        exact hall g q members hq hcell hshape
      | bus first last members =>
        rw [Port.node, hshape] at hbus
        cases hbus
      | scalar | busBit bus i =>
        rw [Port.node, hshape]
        exact List.nodup_nil

theorem portBits_exact_repeated : ∃ n bits, Reachable n ∧
    n.catalog.portBits ⟨2⟩ = .ok bits ∧ bits = [⟨3⟩, ⟨3⟩] ∧ ¬bits.Nodup ∧
    ∀ p, p ∈ bits ↔ ∃ q, n.catalog.ports.find? p = some q ∧ q.cell = ⟨2⟩ ∧ q.source ≠ .group := by
  have hrun : ∃ db, Database.Reachable db ∧ (do
      let n ← (Network.new {}).loadDatabase db
      let (_, n) ← n.makeBundle ⟨2⟩ "P" [⟨3⟩, ⟨3⟩]
      let bits ← n.catalog.portBits ⟨2⟩
      return (bits, (n.catalog.ports.find? ⟨4⟩).map fun q => (q.cell, q.shape))) =
        (.ok ([⟨3⟩, ⟨3⟩], some (⟨2⟩, .bundle [⟨3⟩, ⟨3⟩])) : Except Fault _) := by
    refine ⟨_, ReflTransGen.refl
      |>.tail (@Database.Step.createLib _ "cells" _ _ rfl)
      |>.tail (@Database.Step.createMaster _ ⟨1⟩ "BUF" _ _ rfl)
      |>.tail (@Database.Step.createMTerm _ ⟨1⟩ "A" .signal .input _ _ rfl), ?_⟩
    cbv
  obtain ⟨db, hdb, hrun⟩ := hrun
  obtain ⟨n₁, e₁, hrun⟩ := bind_eq_ok.1 hrun
  obtain ⟨⟨r, n⟩, e₂, hrun⟩ := bind_eq_ok.1 hrun
  obtain ⟨found, efound, hrun⟩ := bind_eq_ok.1 hrun
  obtain ⟨hfound, hgroup⟩ := Prod.mk.inj (pure_eq_ok.1 hrun)
  obtain ⟨q, hq, hbundle⟩ := Option.map_eq_some_iff.1 hgroup
  obtain ⟨hcell, hshape⟩ := Prod.mk.inj hbundle
  have h : Reachable n := ⟨{}, ReflTransGen.refl
    |>.tail (.load (.loadDatabase hdb e₁))
    |>.tail (.edit (.makeBundle e₂))⟩
  obtain ⟨y, hy, -⟩ := bind_eq_ok.1 efound
  obtain ⟨bits, ebits, -, hports, hnodup⟩ := h.portBits_exact (Catalog.cell_eq_ok.1 hy)
  have hbits : bits = [⟨3⟩, ⟨3⟩] := (Except.ok.inj (ebits.symm.trans efound)).trans hfound
  refine ⟨n, bits, h, ebits, hbits, fun honce => ?_, hports⟩
  have hmembers : [(⟨3⟩ : PortId), ⟨3⟩].Nodup := hnodup.1 honce ⟨4⟩ q _ hq hcell hshape
  exact absurd hmembers (by decide)

end DesignView.Network
