import DesignView.Proofs.Catalog.BusDirection
import DesignView.Proofs.Network.Catalog
import DesignView.Proofs.Network.Integrity

/-!
Directions of buses in a network. A bus has the common direction of its bits when it is made, and a
load or an edit leaves it so, with one exception: a connection at the top gives the port of its name
a direction, be it a bus or a bit, and leaves the bits or the bus as they are.
-/

namespace DesignView.Network

open Catalog (Builds)
open Relation (ReflTransGen)

variable {n n' : Network} {g : PortId} {name : String} {direction : PortDirection}

def topPort? (n : Network) (name : String) : Option PortId :=
  n.catalog.topCell?.bind fun top => n.catalog.portNamed? top name

def StraysAtTop (c : Catalog) : Prop := ∀ g, c.Strays g → c.AtTop g

theorem not_strays_empty (g : PortId) : ¬({} : Catalog).Strays g := by
  rintro ⟨q, members, hbus, -⟩
  cases hbus.1

theorem straysAtTop_empty : StraysAtTop {} := fun g h => absurd h (not_strays_empty g)

theorem StraysAtTop.steady {c c' : Catalog} (h : StraysAtTop c) (hi : c.Intact)
    (hsteady : c.Steady c') : StraysAtTop c' := by
  intro g hstrays
  obtain ⟨q, members, hbus, -⟩ := id hstrays
  exact hsteady.atTop (h g (hsteady.strays hi hstrays)) ⟨q, hbus.1⟩

theorem StraysAtTop.builds {timing : List TimingLibrary} {c c' : Catalog} (h : StraysAtTop c)
    (hc : c.Reachable) (hbuilds : Builds timing c c') : StraysAtTop c' :=
  hbuilds.induct hc h fun _ _ ha s ih => ih.steady ha.intact (s.steady ha)

theorem strays_congr {c c' : Catalog} (h : SamePorts c c') : c'.Strays g ↔ c.Strays g := by
  obtain ⟨hcells, hports⟩ := h
  simp only [Catalog.Strays, Catalog.IsBus, Catalog.CommonDirection, Catalog.Shares, hports]

theorem StraysAtTop.congr {c c' : Catalog} (h : StraysAtTop c) (hsame : SamePorts c c') :
    StraysAtTop c' := by
  intro g hstrays
  obtain ⟨q, hq, l, hl, hsource⟩ := h g ((strays_congr hsame).1 hstrays)
  refine ⟨q, by rw [hsame.2, hq], l, ?_, hsource⟩
  rw [Catalog.cellLabel?, hsame.1]
  exact hl

theorem Load.strays (s : n.Load n') (hdb : n.db.WellFormed) (hc : n.catalog.Reachable)
    (hstrays : n'.catalog.Strays g) : n.catalog.Strays g := by
  rcases s.builds hdb hc.intact with hbuilds | hbuilds
  · exact hbuilds.strays hc hstrays
  · exact absurd (hbuilds.strays (.refl _) hstrays) (not_strays_empty g)

theorem Edit.steady (s : n.Edit n') (hi : n.catalog.Intact) :
    (∃ c, n.catalog.Steady c ∧ (∀ g, c.Strays g ↔ n.catalog.Strays g) ∧ SamePorts c n'.catalog) ∨
      ∃ name direction, n.Directs name direction n' := by
  cases s.effect with
  | minor h =>
    exact .inl ⟨n.catalog, .of_find? hi (fun _ _ => id) fun _ _ => id, fun _ => .rfl, h.ports⟩
  | directs h => exact .inr ⟨_, _, h⟩
  | bundle _ h =>
    have hsteady : n.catalog.Steady n'.catalog := .bundle hi h
    have hgains : n.catalog.Gains (fun _ => False) (·.source = .group) n'.catalog :=
      hi.tidy.bundle h
    exact .inl ⟨_, hsteady, fun g => hsteady.strays_iff_of_gains hi hgains, rfl, rfl⟩

theorem setTopPort_cases (n : Network) (name : String) (direction : PortDirection) :
    (∃ t, n.topPort? name = some t ∧
      (n.setTopPort name direction).catalog = n.catalog.setDirection t direction) ∨
    n.topPort? name = none ∧ ((n.setTopPort name direction).catalog = n.catalog ∨
      ∃ top, n.catalog.topCell? = some top ∧ n.catalog.portNamed? top name = none ∧
        (n.setTopPort name direction).catalog =
          (n.catalog.addPort top name .design direction).2) := by
  unfold Network.setTopPort topPort?
  cases htop : n.catalog.topCell? with
  | none => exact .inr ⟨rfl, .inl rfl⟩
  | some top =>
    rw [Option.bind_some]
    dsimp only
    cases hname : n.catalog.portNamed? top name with
    | some t => exact .inl ⟨t, rfl, rfl⟩
    | none => exact .inr ⟨rfl, .inr ⟨top, rfl, hname, rfl⟩⟩

theorem setTopPort_steady (hi : n.catalog.Intact) (hnone : n.topPort? name = none) :
    n.catalog.Steady (n.setTopPort name direction).catalog ∧
      ∀ g, (n.setTopPort name direction).catalog.Strays g ↔ n.catalog.Strays g := by
  obtain ⟨c, hc, hi', -⟩ := setTopPort_intact hi name direction
  have hi' : (n.setTopPort name direction).catalog.Intact := hc ▸ hi'
  rcases setTopPort_cases n name direction with ⟨t, ht, -⟩ | ⟨-, hsame | ⟨top, -, -, hadd⟩⟩
  · cases hnone.symm.trans ht
  · rw [hsame]
    exact ⟨.of_find? hi (fun _ _ => id) fun _ _ => id, fun _ => .rfl⟩
  · rw [hadd] at hi' ⊢
    have hsteady := Catalog.Steady.addPort hi top name .design direction hi'
    have hgains : n.catalog.Gains (fun _ => False) (· = ⟨name, top, .design⟩)
        (n.catalog.addPort top name .design direction).2 :=
      hi.tidy.addPort top name .design direction
    exact ⟨hsteady, fun g => hsteady.strays_iff_of_gains hi hgains⟩

theorem atTop_topPort (ht : n.catalog.Tidy) {t : PortId} (h : n.topPort? name = some t) :
    n.catalog.AtTop t := by
  obtain ⟨top, htop, hname⟩ := Option.bind_eq_some_iff.1 h
  obtain ⟨y, hy, hsource⟩ := OrderedMap.exists_of_firstKey? ht.cells.nodup htop
  obtain ⟨q, hq, hnamed⟩ := OrderedMap.exists_of_firstKey? ht.ports.nodup hname
  obtain ⟨rfl, -⟩ : q.cell = top ∧ q.name = name := by simpa using hnamed
  exact ⟨q, hq, y.label, Catalog.cellLabel?_of_find? hy, of_decide_eq_true hsource⟩

theorem strays_setTopPort (hc : n.catalog.Reachable) :
    (n.setTopPort name direction).catalog.Strays g ↔ ∃ q members, n.catalog.IsBus g q members ∧
      (n.topPort? name = some g ∧ ¬n.catalog.CommonDirection members direction ∨
        (∃ t ∈ members, n.topPort? name = some t ∧
          ¬n.catalog.CommonOnce members t direction q.direction) ∨
        n.topPort? name ≠ some g ∧ (∀ t ∈ members, n.topPort? name ≠ some t) ∧
          ¬n.catalog.CommonDirection members q.direction) := by
  rcases setTopPort_cases n name direction with ⟨t, ht, hset⟩ | ⟨hnone, -⟩
  · rw [hset, hc.planted.strays_setDirection hc.intact, ht]
    refine exists₂_congr fun q members => and_congr_right fun _ => ?_
    simp only [Option.some.injEq, ne_eq]
    refine or_congr_right (or_congr ?_ (and_congr_right fun _ => and_congr_left fun _ => ?_))
    · exact ⟨fun ⟨hmem, hd⟩ => ⟨t, hmem, rfl, hd⟩, fun ⟨_, hmem, hs, hd⟩ => hs ▸ ⟨hs ▸ hmem, hd⟩⟩
    · exact ⟨fun hnot s hs heq => hnot (heq ▸ hs), fun hnot hmem => hnot t hmem rfl⟩
  · rw [(setTopPort_steady hc.intact hnone).2, hnone]
    simp only [reduceCtorEq, false_and, and_false, exists_false, false_or, ne_eq, not_false_eq_true,
      implies_true, true_and]
    exact Iff.rfl

theorem StraysAtTop.setTopPort (h : StraysAtTop n.catalog) (hc : n.catalog.Reachable) :
    StraysAtTop (n.setTopPort name direction).catalog := by
  have hi := hc.intact
  rcases setTopPort_cases n name direction with ⟨t, ht, hset⟩ | ⟨hnone, -⟩
  · have htop : n.catalog.AtTop t := atTop_topPort hi.tidy ht
    rw [hset]
    intro g hstrays
    obtain ⟨q, members, hbus, hdirection⟩ := (hc.planted.strays_setDirection hi).1 hstrays
    have hg : n.catalog.AtTop g := by
      rcases hdirection with ⟨rfl, -⟩ | ⟨hmem, -⟩ | ⟨-, -, hdirection⟩
      · exact htop
      · -- A bus is in the cell of its bits.
        obtain ⟨r, hr, hcell⟩ := hi.find?_member hbus hmem
        obtain ⟨r', hr', l, hl, hsource⟩ := htop
        cases hr.symm.trans hr'
        exact ⟨q, hbus.1, l, hcell ▸ hl, hsource⟩
      · exact h g ⟨q, members, hbus, hdirection⟩
    exact hg.setDirection
  · exact h.steady hi (setTopPort_steady hi hnone).1

theorem Step.straysAtTop (s : n.Step n') (hdb : n.db.WellFormed) (hc : n.catalog.Reachable)
    (h : StraysAtTop n.catalog) : StraysAtTop n'.catalog := by
  cases s with
  | load s =>
    rcases s.builds hdb hc.intact with hbuilds | hbuilds
    · exact h.builds hc hbuilds
    · exact straysAtTop_empty.builds (.refl _) hbuilds
  | edit s =>
    rcases s.steady hc.intact with ⟨c, hsteady, -, hsame⟩ | ⟨name, direction, hdirects⟩
    · exact (h.steady hc.intact hsteady).congr hsame
    · exact (h.setTopPort hc).congr hdirects.changes.2
  | query s => exact s.same.1.symm ▸ h

theorem Reachable.straysAtTop (h : n.Reachable) : StraysAtTop n.catalog := by
  induction h using Reachable.induct with
  | new => exact straysAtTop_empty
  | step hbefore s ih =>
    exact s.straysAtTop hbefore.current.sound.db hbefore.catalog ih

theorem not_atTop_without {c : Catalog} {db : Database} (hm : c.Mirrors db) (p : PortId) :
    ¬(c.without .design).AtTop p := by
  rintro ⟨q, -, l, hl, hsource⟩
  obtain ⟨y, hy, rfl⟩ := Option.map_eq_some_iff.1 hl
  rw [hm.cells_without, Option.filter_eq_some_iff] at hy
  refine of_decide_eq_true hy.2 ?_
  have hsource : y.source = .design := hsource
  rw [hsource]
  rfl

theorem Reachable.not_strays_loadDesign (h : n.Reachable) (e : n.loadDesign = .ok n') :
    ¬n'.catalog.Strays g := by
  intro hstrays
  have hout : Builds n.timing n.catalog (n.catalog.without .design) := without_builds ..
  have hbuilds := loadDesign_builds h.current.sound.db e
  have hleft := hbuilds.strays (h.catalog.trans hout.steps) hstrays
  exact not_atTop_without h.shown.mirrors g (h.straysAtTop.builds h.catalog hout g hleft)

/-- A bus that has another direction than the common one of its bits is in the cell of the design.
No load makes one, and none is left once the design is loaded anew. Among the edits only a
connection at the top makes or mends one. It gives the port of its name in the top cell a direction:
the bus of that name then strays unless its bits have the direction in common, and the bus with a
bit of that name strays unless it has the direction that its bits have in common then. -/
theorem Reachable.busDirection_exact (h : n.Reachable) :
    (∀ g, n.catalog.Strays g → n.catalog.AtTop g) ∧
    (∀ n', n.Load n' → ∀ g, n'.catalog.Strays g → n.catalog.Strays g) ∧
    (∀ n', n.loadDesign = .ok n' → ∀ g, ¬n'.catalog.Strays g) ∧
    (∀ n', n.Edit n' → (∀ g, n'.catalog.Strays g ↔ n.catalog.Strays g) ∨
      ∃ name direction, n.Directs name direction n') ∧
    ∀ name direction n', n.Directs name direction n' → ∀ g, n'.catalog.Strays g ↔
      ∃ q members, n.catalog.IsBus g q members ∧
        (n.topPort? name = some g ∧ ¬n.catalog.CommonDirection members direction ∨
          (∃ t ∈ members, n.topPort? name = some t ∧
            ¬n.catalog.CommonOnce members t direction q.direction) ∨
          n.topPort? name ≠ some g ∧ (∀ t ∈ members, n.topPort? name ≠ some t) ∧
            ¬n.catalog.CommonDirection members q.direction) := by
  have hc := h.catalog
  refine ⟨h.straysAtTop, fun n' s g => s.strays h.current.sound.db hc,
    fun n' e g => h.not_strays_loadDesign e, fun n' s => ?_, fun name direction n' s g => ?_⟩
  · refine (s.steady hc.intact).imp_left ?_
    rintro ⟨c, -, hstrays, hsame⟩ g
    exact (strays_congr hsame).trans (hstrays g)
  · exact (strays_congr s.changes.2).trans (strays_setTopPort hc)

theorem busDirection_exact_output : ∃ n n' q, Reachable n ∧ (∀ g, ¬n.catalog.Strays g) ∧
    n.Directs "a[0]" .output n' ∧ n'.catalog.IsBus ⟨9⟩ q [⟨8⟩, ⟨7⟩] ∧ q.direction = .input ∧
    n'.catalog.Strays ⟨9⟩ := by
  have hrun : ∃ db, Database.Reachable db ∧ (do
      let n ← (Network.new {}).loadDatabase db
      let (pin, n') ← n.connect .top ⟨3⟩ (.flat ⟨1⟩)
      return (pin, (n.catalog.port? ⟨3⟩).map fun p => (p.name, p.direction), n.topPort? "a[0]",
        (n.catalog.ports.find? ⟨9⟩).map fun q => (q.shape, q.direction),
        (n'.catalog.ports.find? ⟨9⟩).map fun q => (q.shape, q.direction))) =
        (.ok (some (.boundary ⟨1⟩), some ("a[0]", .output), some ⟨7⟩,
          some (.bus 1 0 [⟨8⟩, ⟨7⟩], .input), some (.bus 1 0 [⟨8⟩, ⟨7⟩], .input)) :
            Except Fault _) := by
    refine ⟨_, ReflTransGen.refl
      |>.tail (@Database.Step.createLib _ "cells" _ _ rfl)
      |>.tail (@Database.Step.createMaster _ ⟨1⟩ "DRV" _ _ rfl)
      |>.tail (@Database.Step.createMTerm _ ⟨1⟩ "a[0]" .signal .output _ _ rfl)
      |>.tail (@Database.Step.createDesign _ "top" _ _ rfl)
      |>.tail (.design rfl (@Design.Step.createNet _ "n1" _ _ rfl))
      |>.tail (.design rfl (@Design.Step.createBTerm _ "a[0]" none _ _ rfl))
      |>.tail (.design rfl (@Design.Step.createBTerm _ "a[1]" none _ _ rfl)), ?_⟩
    cbv
  obtain ⟨db, hdb, hrun⟩ := hrun
  obtain ⟨n, e₁, hrun⟩ := bind_eq_ok.1 hrun
  obtain ⟨⟨pin, n'⟩, e₂, hrun⟩ := bind_eq_ok.1 hrun
  have hseen := pure_eq_ok.1 hrun
  simp only [Prod.mk.injEq] at hseen
  obtain ⟨rfl, hport, htop, hbus, hbus'⟩ := hseen
  have hstep : Network.Load (Network.new {}) n := .loadDatabase hdb e₁
  have h : Reachable n := ⟨{}, .single (.load hstep)⟩
  have hnone : ∀ g, ¬n.catalog.Strays g := fun g hstrays =>
    not_strays_empty g (hstep.strays Database.wellFormed_empty (.refl _) hstrays)
  obtain ⟨p, hp, hdriver⟩ := Option.map_eq_some_iff.1 hport
  obtain ⟨hname, hdirection⟩ := Prod.mk.inj hdriver
  have hdirects : n.Directs "a[0]" .output n' := hname ▸ hdirection ▸ .connect hp e₂
  obtain ⟨q, hq, hmade⟩ := Option.map_eq_some_iff.1 hbus
  obtain ⟨hshape, hinput⟩ := Prod.mk.inj hmade
  obtain ⟨q', hq', hleft⟩ := Option.map_eq_some_iff.1 hbus'
  obtain ⟨hshape', hinput'⟩ := Prod.mk.inj hleft
  -- The bit is an output then, and the bus is an input still.
  have hnew : ¬n.catalog.CommonOnce [⟨8⟩, ⟨7⟩] ⟨7⟩ .output q.direction := by
    rw [hinput]
    rintro (⟨-, hout⟩ | ⟨-, hout⟩) <;> cases hout
  exact ⟨n, n', q', h, hnone, hdirects, ⟨hq', _, _, hshape'⟩, hinput',
    (h.busDirection_exact.2.2.2.2 _ _ _ hdirects _).2
      ⟨q, _, ⟨hq, _, _, hshape⟩, .inr (.inl ⟨_, by simp, htop, hnew⟩)⟩⟩

end DesignView.Network
