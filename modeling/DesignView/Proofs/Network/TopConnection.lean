import DesignView.Proofs.Network.TopCell

/-!
Connections at the top. A boundary terminal is found or made for the port that is connected, and
gets the types for its direction together with the port of its name in the top cell; so the boundary
is mirrored then as it was before.
-/

namespace DesignView.Network

open Relation (ReflTransGen)

variable {n n' : Network} {d d' : Design} {name : String} {direction : PortDirection}

/-- The port of each boundary terminal is in the cell of the design, and has the name of the
terminal and the direction that goes with its types. -/
def MirrorsTop (n : Network) : Prop :=
  ∀ ⦃d⦄, n.design? = some d → ∀ ⦃b t⦄, d.bterms.find? b = some t →
    ∃ p q, n.portOf (.boundary b) = .ok (some p) ∧ n.catalog.port? p = some q ∧
      n.catalog.topCell? = some q.cell ∧ q.name = t.name ∧ q.direction = .ofTypes t.sig t.io

theorem portOf_boundary (hd : n.design? = some d) {b : BTermId} {t : BTerm}
    (hb : d.bterms.find? b = some t) : n.portOf (.boundary b) = .ok (n.topPort? t.name) := by
  unfold topPort?
  simp only [portOf, hd]
  cases n.catalog.topCell? with
  | none => rfl
  | some top => exact bind_eq_ok.2 ⟨t, Table.fetch_eq_ok.2 hb, rfl⟩

theorem Reachable.mirrorsTop (h : n.Reachable) : n.MirrorsTop := by
  intro d hd b t hb
  have hm := h.shown.mirrors
  obtain ⟨p, q, hq, htop, hname⟩ := (h.shown.top hd).exists_atTop hb
  have hport : n.topPort? t.name = some p :=
    (topPort?_eq_some_iff hm h.stored.stocked.intact).2 ⟨q, hq, htop, hname⟩
  exact ⟨p, q, hport ▸ portOf_boundary hd hb, hq, topCell?_of_atTop hm htop hq, hname,
    h.topDirected hd hb hq htop hname⟩

/-- What comes of a connection at the top of a port of that name and direction. It is a fault if
there are no types for the direction. Otherwise it is the terminal of the name, which is made if
there is none; it has the types for the direction then, and the boundary is mirrored. -/
def ConnectsTop (d : Design) (name : String) (direction : PortDirection)
    (outcome : Except Fault (Option Pin × Network)) : Prop :=
  match direction.types? with
  | none => outcome = .error (.unmappable direction)
  | some (sig, io) => PortDirection.ofTypes sig io = direction ∧
    ∃ b n' d' t, outcome = .ok (some (.boundary b), n') ∧
      (d.btermNamed? name = some b ∨ d.btermNamed? name = none ∧ b ∉ d.bterms.ids) ∧
      n'.design? = some d' ∧ d'.bterms.find? b = some t ∧ t.name = name ∧ t.sig = sig ∧
      t.io = io ∧ n'.MirrorsTop

theorem exists_boundaryTerminal (hd : n.design? = some d) (name : String) :
    ∃ id d', (d.btermNamed? name = some id ∧ d' = d ∨ d.createBTerm name none = .ok (id, d')) ∧
      n.boundaryTerminal name = .ok (some id, n.withDesign d') := by
  cases hfound : d.btermNamed? name with
  | some id =>
    refine ⟨id, d, .inl ⟨rfl, rfl⟩, bind_eq_ok.2 ⟨d, design_eq_ok.2 hd, ?_⟩⟩
    rw [hfound, withDesign_self hd]
    rfl
  | none =>
    have hmade : d.createBTerm name none =
        .ok ((d.bterms.insert { name }).1, { d with bterms := (d.bterms.insert { name }).2 }) := by
      unfold Design.createBTerm
      rw [hfound]
      rfl
    refine ⟨_, _, .inr hmade, bind_eq_ok.2 ⟨d, design_eq_ok.2 hd, ?_⟩⟩
    rw [hfound, hmade]
    rfl

theorem topTerminal_unmappable (hd : n.design? = some d) (name : String)
    (htypes : direction.types? = none) :
    n.topTerminal name direction = .error (.unmappable direction) := by
  obtain ⟨id, d', -, hterminal⟩ := exists_boundaryTerminal hd name
  unfold topTerminal
  rw [hterminal]
  simp only [bind, Except.bind, htypes]
  rfl

theorem exists_topTerminal (hd : n.design? = some d) (name : String) {sig : SigType} {io : IoType}
    (htypes : direction.types? = some (sig, io)) :
    ∃ id d', (d.btermNamed? name = some id ∧ d' = d ∨ d.createBTerm name none = .ok (id, d')) ∧
      n.topTerminal name direction = .ok (some id,
        (n.withDesign (d'.setBTermTypes id sig io)).setTopPort name direction) := by
  obtain ⟨id, d', hmade, hterminal⟩ := exists_boundaryTerminal hd name
  refine ⟨id, d', hmade, bind_eq_ok.2 ⟨_, hterminal, ?_⟩⟩
  simp only [htypes]
  exact bind_eq_ok.2 ⟨d', rfl, rfl⟩

theorem Sound.connectFound_boundary (h : n.Sound) (hd : n.design? = some d) {b : BTermId}
    (hb : b ∈ d.bterms.ids) (x : Net) : ∃ n' d', n.connectFound (.boundary b) x =
      .ok (some (.boundary b), n') ∧ n'.design? = some d' ∧ d'.bterms = d.bterms := by
  obtain ⟨nets, hnets, -⟩ := h.reachableNets_ok hd (p := .boundary b) hb
  have hdetach : n.beforeDetach (.boundary b) = .ok (n.removeDriver (.boundary b) nets) :=
    bind_eq_ok.2 ⟨nets, hnets, rfl⟩
  obtain ⟨d', hattach, hbterms⟩ : ∃ d', d.attach? (.boundary b) x = some d' ∧
      d'.bterms = d.bterms := by
    cases x with
    | flat | module => exact ⟨_, rfl, rfl⟩
  have hs : ((n.removeDriver (.boundary b) nets).withDesign d').Sound :=
    (h.setDrivers _).withDesign hd (attach?_wellFormed (h.db.design hd) hattach)
      (attach?_modBTerms hattach)
  have hlive : d'.Live (.boundary b) := by
    rw [Design.Live, hbterms]
    exact hb
  obtain ⟨n', hafter, hd'⟩ : ∃ n', ((n.removeDriver (.boundary b) nets).withDesign d').afterAttach
      (.boundary b) = .ok n' ∧ n'.design? = some d' := by
    obtain ⟨drives, hdrives⟩ := isDriver_ok (n := (n.removeDriver _ nets).withDesign d') rfl hlive
    obtain ⟨nets', hnets', -⟩ := hs.reachableNets_ok rfl hlive
    cases drives with
    | true => exact ⟨_, bind_eq_ok.2 ⟨true, hdrives, bind_eq_ok.2 ⟨nets', hnets', rfl⟩⟩, rfl⟩
    | false => exact ⟨_, bind_eq_ok.2 ⟨false, hdrives, rfl⟩, rfl⟩
  refine ⟨n', d', bind_eq_ok.2 ⟨(true, n'), ?_, rfl⟩, hd', hbterms⟩
  refine bind_eq_ok.2 ⟨_, hdetach, bind_eq_ok.2 ⟨d, design_eq_ok.2 hd, ?_⟩⟩
  rw [hattach]
  exact bind_eq_ok.2 ⟨n', hafter, rfl⟩

theorem Reachable.connectsTop (h : n.Reachable) (hd : n.design? = some d) (name : String)
    (direction : PortDirection) (x : Net) {outcome : Except Fault (Option Pin × Network)}
    (houtcome : outcome = do
      match ← n.topTerminal name direction with
      | (none, n) => return (none, n)
      | (some id, n) => n.connectFound (.boundary id) x)
    (hedit : ∀ r n', outcome = .ok (r, n') → n.Edit n') :
    ConnectsTop d name direction outcome := by
  unfold ConnectsTop
  cases htypes : direction.types? with
  | none =>
    rw [houtcome, topTerminal_unmappable hd name htypes]
    rfl
  | some types =>
    obtain ⟨sig, io⟩ := types
    obtain ⟨id, d', hmade, hterminal⟩ := exists_topTerminal hd name htypes
    obtain ⟨⟨t, ht, hname, hsig, hio⟩, -⟩ :=
      bterm_setBTermTypes (h.current.sound.db.design hd) sig io hmade
    obtain ⟨id', hid, hsound, -⟩ :=
      (h.current.topTerminal hterminal).resolve_left fun hnone => by cases hnone.1
    cases hid
    have hd₁ : ((n.withDesign (d'.setBTermTypes id sig io)).setTopPort name direction).design? =
        some (d'.setBTermTypes id sig io) := by
      obtain ⟨c, hc, -⟩ :=
        (n.withDesign (d'.setBTermTypes id sig io)).setTopPort_catalog name direction
      rw [hc]
      rfl
    obtain ⟨n', d'', hfound, hd'', hbterms⟩ :=
      hsound.connectFound_boundary hd₁ (Table.mem_ids_of_find? ht) x
    have hdone : outcome = .ok (some (.boundary id), n') := by
      rw [houtcome]
      exact bind_eq_ok.2 ⟨_, hterminal, hfound⟩
    have hreachable : n'.Reachable := h.step (.edit (hedit _ _ hdone))
    refine ⟨PortDirection.ofTypes_of_types? htypes, id, n', d'', t, hdone, ?_, hd'', hbterms ▸ ht,
      hname, hsig, hio, hreachable.mirrorsTop⟩
    rcases hmade with ⟨hnamed, -⟩ | hnew
    · exact .inl hnamed
    · obtain ⟨hfree, rfl, -⟩ := Design.createBTerm_ok hnew
      exact .inr ⟨by simpa using hfree, (h.current.sound.db.design hd).bterms.fresh _⟩

/-- The boundary is mirrored whatever has happened to the network, and so it is by a connection at
the top, for any port of any cell and any port of a timing library. A port that is not there changes
nothing. -/
theorem Reachable.top_mirrors_boundary (h : n.Reachable) (hd : n.design? = some d) :
    n.MirrorsTop ∧
    (∀ port p x, n.catalog.port? port = some p →
      ConnectsTop d p.name p.direction (n.connect .top port x)) ∧
    (∀ port x, n.catalog.port? port = none → n.connect .top port x = .ok (none, n)) ∧
    (∀ ref direction x, n.timingPort? ref = some direction →
      ConnectsTop d ref.port direction (n.connectTiming .top ref x)) ∧
    ∀ ref x, n.timingPort? ref = none → n.connectTiming .top ref x = .ok (none, n) := by
  have htop : Instance.top.isTop = true := rfl
  refine ⟨h.mirrorsTop, fun port p x hp => ?_, fun port x hp => ?_, fun ref direction x hp => ?_,
    fun ref x hp => ?_⟩
  · refine h.connectsTop hd p.name p.direction x ?_ fun _ _ e => .connect e
    unfold Network.connect
    exact hp ▸ rfl
  · simp only [Network.connect, hp, pure, Except.pure]
  · refine h.connectsTop hd ref.port direction x ?_ fun _ _ e => .connectTiming e
    rw [Network.connectTiming, if_pos htop]
    exact hp ▸ rfl
  · simp only [Network.connectTiming, if_pos htop, hp, pure, Except.pure]

theorem top_mirrors_boundary_bit : ∃ n d, Reachable n ∧ n.design? = some d ∧
    d.btermNamed? "a[0]" = none ∧ n.topPort? "a[0]" = some ⟨7⟩ ∧
    (n.catalog.port? ⟨7⟩).map (·.direction) = some .input ∧ n.MirrorsTop ∧
    ConnectsTop d "a[0]" .output (n.connect .top ⟨3⟩ (.flat ⟨1⟩)) := by
  have hrun : ∃ db, Database.Reachable db ∧ (do
      let n ← (Network.new {}).loadDatabase db
      let n ← n.deletePin (.boundary ⟨1⟩)
      return (n.design?.map fun d => d.btermNamed? "a[0]", n.topPort? "a[0]",
        (n.catalog.port? ⟨7⟩).map (·.direction),
        (n.catalog.port? ⟨3⟩).map fun p => (p.name, p.direction))) =
        (.ok (some none, some ⟨7⟩, some .input, some ("a[0]", .output)) : Except Fault _) := by
    refine ⟨_, ReflTransGen.refl
      |>.tail (@Database.Step.createLib _ "cells" _ _ rfl)
      |>.tail (@Database.Step.createMaster _ ⟨1⟩ "DRV" _ _ rfl)
      |>.tail (@Database.Step.createMTerm _ ⟨1⟩ "a[0]" .signal .output _ _ rfl)
      |>.tail (@Database.Step.createDesign _ "top" _ _ rfl)
      |>.tail (.design rfl (@Design.Step.createNet _ "n1" _ _ rfl))
      |>.tail (.design rfl (@Design.Step.createBTerm _ "a[0]" none _ _ rfl))
      |>.tail (.design rfl (@Design.Step.createBTerm _ "a[1]" none _ _ rfl)), ?_⟩
    cbv
  obtain ⟨db, hdb, hrun⟩ := hrun
  obtain ⟨n₁, e₁, hrun⟩ := bind_eq_ok.1 hrun
  obtain ⟨n, e₂, hrun⟩ := bind_eq_ok.1 hrun
  have hseen := pure_eq_ok.1 hrun
  simp only [Prod.mk.injEq] at hseen
  obtain ⟨hnamed, htop, hbit, hport⟩ := hseen
  obtain ⟨d, hd, hnamed⟩ := Option.map_eq_some_iff.1 hnamed
  obtain ⟨p, hp, hdriver⟩ := Option.map_eq_some_iff.1 hport
  obtain ⟨hname, hdirection⟩ := Prod.mk.inj hdriver
  have h : Reachable n := ⟨{}, ReflTransGen.refl
    |>.tail (.load (.loadDatabase hdb e₁)) |>.tail (.edit (.deletePin e₂))⟩
  obtain ⟨hmirrors, hconnect, -⟩ := h.top_mirrors_boundary hd
  have hone := hconnect ⟨3⟩ p (.flat ⟨1⟩) hp
  rw [hname, hdirection] at hone
  exact ⟨n, d, h, hd, hnamed, htop, hbit, hmirrors, hone⟩

end DesignView.Network
