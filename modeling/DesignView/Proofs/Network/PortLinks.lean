import DesignView.Proofs.Catalog.PortLinks
import DesignView.Proofs.Network.Catalog
import Mathlib

/-!
Links of the ports of a network. A load links a cell together with its ports, by their names. Groups
inside of other groups are passed over; there are none in a cell that the load has built, but there
may be in one that was there before it was linked.
-/

namespace DesignView.Network

open Catalog (Builds)
open Relation (ReflTransGen)

variable {n n' : Network} {x : CellId} {y : Cell} {ref : TimingCellRef}

theorem linkedTo_of_builds {c : Catalog} (h : Builds n.timing c n.catalog) (hc : c.Reachable)
    (hfree : ∀ y₀, c.cells.find? x = some y₀ → y₀.timing = none)
    (hx : n.catalog.cells.find? x = some y) (href : y.timing = some ref) : ∃ library t,
      n.timingLibrary? ref.library = some library ∧ library.cell? y.name = some t ∧
        n.catalog.LinkedTo x y ref.library t ∧
        (c.cells.find? x = none → n.catalog.LinksAll x ref.library t) := by
  rcases h.settled hc hfree hx with ⟨hnone, -⟩ | ⟨id, library, t, hlibrary, ht, hlinked⟩
  · cases href.symm.trans hnone
  · cases href.symm.trans hlinked.cell
    refine ⟨library, t, hlibrary, ht, hlinked, fun hnew => hlinked.linksAll_iff.2 ?_⟩
    intro p q hq hcell hsource hout
    have htop := h.groupsAtTop hc hnew hq hcell hsource
    rw [Catalog.topPorts_eq, hx] at htop
    exact absurd htop hout

/-- A cell that a load links is linked to a timing cell of its name, and so are its ports by theirs,
but for the groups inside of others. All ports are linked if the timing cell has no ports of the
names of such groups, and always if the load has built the cell. -/
theorem Reachable.portLinks_exact (h : n.Reachable) :
    (∀ n', n.Load n' → ∀ x y ref, n'.catalog.cells.find? x = some y → y.timing = some ref →
      (∀ y₀, n.catalog.cells.find? x = some y₀ → y₀.timing = none) →
      ∃ library t, n'.timingLibrary? ref.library = some library ∧ library.cell? y.name = some t ∧
        n'.catalog.LinkedTo x y ref.library t ∧
        (n'.catalog.LinksAll x ref.library t ↔ ∀ p q, n'.catalog.ports.find? p = some q →
          q.cell = x → q.source = .group → p ∉ y.ports → t.port? q.name = none) ∧
        (n.catalog.cells.find? x = none → n'.catalog.LinksAll x ref.library t)) ∧
    ∀ db n', db.Reachable → n.loadDatabase db = .ok n' → ∀ x y ref,
      n'.catalog.cells.find? x = some y → y.timing = some ref →
      ∃ library t, n'.timingLibrary? ref.library = some library ∧ library.cell? y.name = some t ∧
        n'.catalog.LinkedTo x y ref.library t ∧ n'.catalog.LinksAll x ref.library t := by
  constructor
  · intro n' s x y ref hx href hfree
    rcases s.builds h.current.sound.db h.catalog.intact with hbuilds | hbuilds
    · obtain ⟨library, t, hlibrary, ht, hlinked, hnew⟩ :=
        linkedTo_of_builds hbuilds h.catalog hfree hx href
      exact ⟨library, t, hlibrary, ht, hlinked, hlinked.linksAll_iff, hnew⟩
    · obtain ⟨library, t, hlibrary, ht, hlinked, hnew⟩ :=
        linkedTo_of_builds hbuilds (.refl _) (fun y₀ hy₀ => by cases hy₀) hx href
      exact ⟨library, t, hlibrary, ht, hlinked, hlinked.linksAll_iff, fun _ => hnew rfl⟩
  · intro db n' hdb e x y ref hx href
    obtain ⟨htiming, hbuilds⟩ := loadDatabase_builds hdb.wellFormed e
    obtain ⟨library, t, hlibrary, ht, hlinked, hnew⟩ :=
      linkedTo_of_builds (htiming ▸ hbuilds) (.refl _) (fun y₀ hy₀ => by cases hy₀) hx href
    exact ⟨library, t, hlibrary, ht, hlinked, hnew rfl⟩

theorem portLinks_exact_nested : ∃ n n' y t q, Reachable n ∧ n.Load n' ∧
    n'.catalog.cells.find? ⟨2⟩ = some y ∧ n'.catalog.LinkedTo ⟨2⟩ y ⟨0⟩ t ∧
    n'.catalog.ports.find? ⟨5⟩ = some q ∧ q.cell = ⟨2⟩ ∧ (t.port? q.name).isSome = true ∧
    q.timing = none ∧ ¬n'.catalog.LinksAll ⟨2⟩ ⟨0⟩ t := by
  have hrun : ∃ db, Database.Reachable db ∧ ∃ timing, (do
      let n ← (Network.new {}).loadDatabase db
      let (_, n) ← n.makeBundle ⟨2⟩ "P" [⟨5⟩]
      let n' := (n.loadTiming timing).2
      return ((n.catalog.cells.find? ⟨2⟩).map fun y => y.timing.isSome,
        (n'.catalog.cells.find? ⟨2⟩).map fun y => (y.name, y.timing.map (·.library), y.ports),
        (n'.catalog.ports.find? ⟨5⟩).map fun q => (q.cell, q.name, q.source, q.timing),
        (n'.timingLibrary? ⟨0⟩).bind fun library =>
          (library.cell? "top").map fun t => (t.port? "a").isSome)) =
        (.ok (some false, some ("top", some ⟨0⟩, [⟨6⟩]), some (⟨2⟩, "a", .group, none),
          some true) : Except Fault _) := by
    refine ⟨_, ReflTransGen.refl
      |>.tail (@Database.Step.createDesign _ "top" _ _ rfl)
      |>.tail (.design rfl (@Design.Step.createBTerm _ "a[0]" none _ _ rfl))
      |>.tail (.design rfl (@Design.Step.createBTerm _ "a[1]" none _ _ rfl)),
      { name := "t", cells := ⟨[("top", { name := "top", ports :=
        ⟨[("a[0]", .input), ("a[1]", .input), ("a", .input)]⟩ })]⟩ }, ?_⟩
    cbv
  obtain ⟨db, hdb, timing, hrun⟩ := hrun
  obtain ⟨n₁, e₁, hrun⟩ := bind_eq_ok.1 hrun
  obtain ⟨⟨r, n⟩, e₂, hrun⟩ := bind_eq_ok.1 hrun
  have hseen := pure_eq_ok.1 hrun
  simp only [Prod.mk.injEq] at hseen
  obtain ⟨hbefore, hcell, hport, htiming⟩ := hseen
  have h : Reachable n := ⟨{}, ReflTransGen.refl
    |>.tail (.load (.loadDatabase hdb e₁))
    |>.tail (.edit (.makeBundle e₂))⟩
  have hstep : n.Load (n.loadTiming timing).2 := .loadTiming timing
  obtain ⟨y, hy, hlink⟩ := Option.map_eq_some_iff.1 hcell
  simp only [Prod.mk.injEq] at hlink
  obtain ⟨hname, hlibrary, htop⟩ := hlink
  obtain ⟨ref, href, hid⟩ := Option.map_eq_some_iff.1 hlibrary
  obtain ⟨q, hq, hbus⟩ := Option.map_eq_some_iff.1 hport
  simp only [Prod.mk.injEq] at hbus
  obtain ⟨hqx, hqname, hsource, hfree⟩ := hbus
  obtain ⟨library, hl, htiming⟩ := Option.bind_eq_some_iff.1 htiming
  obtain ⟨t, ht, hbusPort⟩ := Option.map_eq_some_iff.1 htiming
  have hunlinked : ∀ y₀, n.catalog.cells.find? ⟨2⟩ = some y₀ → y₀.timing = none := by
    intro y₀ hy₀
    rw [hy₀, Option.map_some, Option.some.injEq] at hbefore
    exact Option.isSome_eq_false_iff.1 hbefore |> Option.isNone_iff_eq_none.1
  obtain ⟨library', t', hl', ht', hlinked, hall, -⟩ :=
    h.portLinks_exact.1 _ hstep ⟨2⟩ y ref hy href hunlinked
  rw [hid] at hl' hlinked hall
  cases hl.symm.trans hl'
  cases ht.symm.trans (hname ▸ ht')
  have hbusName : (t.port? q.name).isSome = true := hqname ▸ hbusPort
  refine ⟨n, _, y, t, q, h, hstep, hy, hlinked, hq, hqx, hbusName, hfree, fun hlinks => ?_⟩
  have hout : (⟨5⟩ : PortId) ∉ y.ports := by rw [htop]; decide
  rw [hall.1 hlinks ⟨5⟩ q hq hqx hsource hout] at hbusName
  cases hbusName

end DesignView.Network
