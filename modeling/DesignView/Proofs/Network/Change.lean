import DesignView.Proofs.Network.History

/-!
What an edit of a network can do. Every completed edit is a sequence of changes of a few kinds: it
updates the kept drivers, writes to the journal, makes or destroys one object of the design, moves
one pin, or adds a port. Later proofs about edits answer for each kind of change. Only a bundle and
a connection at the top do anything to the ports of the catalog.
-/

namespace DesignView.Network

open Relation (ReflTransGen)

inductive Change (n : Network) : Network → Prop
  | drivers (m) : Change n { n with drivers := m }
  | journal (j) : Change n { n with journal := j }
  | createInst {master name id db} (h : n.db.createInst master name none = .ok (id, db)) :
      Change n { n with db }
  | swapMaster {inst master db} (h : n.db.swapMaster inst master = .ok db) : Change n { n with db }
  | createModInst {cell x module within name id d d'} (hcell : n.catalog.cell cell = .ok x)
      (hsource : x.source = .module module) (hd : n.design? = some d)
      (h : d.createModInst within module name = .ok (id, d')) : Change n (n.withDesign d')
  | createModITerm {modInst name id d d'} (hd : n.design? = some d)
      (h : d.createModITerm modInst name = .ok (id, d')) : Change n (n.withDesign d')
  | createNet {name id d d'} (hd : n.design? = some d) (h : d.createNet name = .ok (id, d')) :
      Change n (n.withDesign d')
  | createModNet {module name id d d'} (hd : n.design? = some d)
      (h : d.createModNet module name = .ok (id, d')) : Change n (n.withDesign d')
  /-- A boundary terminal of the design is found or made, and gets its types together with its
  port. -/
  | topTerminal {name direction sig io id d d'} (hd : n.design? = some d)
      (h : d.btermNamed? name = some id ∧ d' = d ∨ d.createBTerm name none = .ok (id, d'))
      (htypes : direction.types? = some (sig, io)) :
      Change n ((n.withDesign (d'.setBTermTypes id sig io)).setTopPort name direction)
  | attach {p net d d'} (hd : n.design? = some d) (h : d.attach? p net = some d') :
      Change n (n.withDesign d')
  | detach {d} (p) (hd : n.design? = some d) : Change n (n.withDesign (d.detach p))
  | destroyInst {id d d'} (hd : n.design? = some d) (h : d.destroyInst id = .ok d') :
      Change n (n.withDesign d')
  | destroyModInst {id d d'} (hd : n.design? = some d) (h : d.destroyModInst id = .ok d') :
      Change n (n.withDesign d')
  | destroyNet {id d d'} (hd : n.design? = some d) (h : d.destroyNet id = .ok d') :
      Change n { n.withDesign d' with constants := n.constants.erase id }
  | forgetConstant {id d} (hd : n.design? = some d) (h : id ∉ d.nets.ids) :
      Change n { n with constants := n.constants.erase id }
  | destroyModNet {id d d'} (hd : n.design? = some d) (h : d.destroyModNet id = .ok d') :
      Change n (n.withDesign d')
  | destroyBTerm {id d d'} (hd : n.design? = some d) (h : d.destroyBTerm id = .ok d') :
      Change n (n.withDesign d')
  | destroyModITerm {id d d'} (hd : n.design? = some d) (h : d.destroyModITerm id = .ok d') :
      Change n (n.withDesign d')
  | destroyModBTerm {id d d'} (hd : n.design? = some d) (h : d.destroyModBTerm id = .ok d') :
      Change n ({ n with catalog := n.catalog.forgetBoundary id }.withDesign d')
  | bundle {cell name members r c} (h : n.catalog.bundle cell name members = .ok (r, c)) :
      Change n { n with catalog := c }

def Changes : Network → Network → Prop := ReflTransGen Change

variable {n n' n'' : Network} {d d' : Design} {p : Pin} {x : Net} {name : String}

namespace Changes

theorem refl (n : Network) : n.Changes n := ReflTransGen.refl

theorem trans (h : n.Changes n') (h' : n'.Changes n'') : n.Changes n'' := ReflTransGen.trans h h'

theorem single (h : n.Change n') : n.Changes n' := ReflTransGen.single h

end Changes

def SamePorts (c c' : Catalog) : Prop := c'.cells = c.cells ∧ c'.ports = c.ports

/-- Changes that leave the cells and the ports alone. -/
structure Minor (n n' : Network) : Prop where
  changes : n.Changes n'
  ports : SamePorts n.catalog n'.catalog

namespace Minor

theorem refl (n : Network) : n.Minor n := ⟨.refl n, rfl, rfl⟩

theorem trans (h : n.Minor n') (h' : n'.Minor n'') : n.Minor n'' :=
  ⟨h.changes.trans h'.changes, h'.ports.1.trans h.ports.1, h'.ports.2.trans h.ports.2⟩

theorem single (h : n.Change n') (hports : SamePorts n.catalog n'.catalog) : n.Minor n' :=
  ⟨.single h, hports⟩

theorem warn (n : Network) (text : String) : n.Minor (n.warn text) := single (.journal _) ⟨rfl, rfl⟩

theorem settle {outcome : Except Refusal Design}
    (h : ∀ d, outcome = .ok d → n.Change (n.withDesign d)) : n.Minor (n.settle outcome) := by
  cases outcome with
  | ok d => exact single (h d rfl) ⟨rfl, rfl⟩
  | error refusal => exact warn n refusal.message

theorem foldlM {ε : Type} {step : Network → ε → Except Fault Network} {es : List ε}
    (hstep : ∀ (n : Network) (e : ε) (n' : Network), step n e = .ok n' → n.Minor n')
    (e : es.foldlM step n = .ok n') : n.Minor n' :=
  foldlM_ok_induct (fun m e m' hm hstep' => hm.trans (hstep m e m' hstep')) (refl n) e

end Minor

theorem exists_of_beforeDetach (e : n.beforeDetach p = .ok n') :
    ∃ m, n' = { n with drivers := m } := by
  obtain ⟨nets, -, e⟩ := bind_eq_ok.1 e
  cases pure_eq_ok.1 e
  split
  · exact ⟨_, rfl⟩
  · exact ⟨_, rfl⟩

theorem exists_of_afterAttach (e : n.afterAttach p = .ok n') : ∃ m, n' = { n with drivers := m } := by
  unfold afterAttach at e
  split at e
  · obtain ⟨nets, -, e⟩ := bind_eq_ok.1 e
    cases pure_eq_ok.1 e
    exact ⟨_, rfl⟩
  · obtain ⟨drives, -, e⟩ := bind_eq_ok.1 e
    cases drives with
    | true =>
      obtain ⟨nets, -, e⟩ := bind_eq_ok.1 e
      cases pure_eq_ok.1 e
      exact ⟨_, rfl⟩
    | false =>
      cases pure_eq_ok.1 e
      exact ⟨_, rfl⟩

theorem Minor.beforeDetach (e : n.beforeDetach p = .ok n') : n.Minor n' := by
  obtain ⟨m, rfl⟩ := exists_of_beforeDetach e
  exact single (.drivers m) ⟨rfl, rfl⟩

theorem Minor.afterAttach (e : n.afterAttach p = .ok n') : n.Minor n' := by
  obtain ⟨m, rfl⟩ := exists_of_afterAttach e
  exact single (.drivers m) ⟨rfl, rfl⟩

theorem Minor.beforeDelete (e : n.beforeDelete x = .ok n') : n.Minor n' := by
  obtain ⟨nets, -, e⟩ := bind_eq_ok.1 e
  cases pure_eq_ok.1 e
  exact single (.drivers _) ⟨rfl, rfl⟩

theorem withDesign_self (hd : n.design? = some d) : n.withDesign d = n := by
  obtain ⟨_, ⟨_, _, _, _⟩, _⟩ := n
  cases hd
  rfl

theorem of_boundaryTerminal {r : Option BTermId} (e : n.boundaryTerminal name = .ok (r, n')) :
    (r = none ∧ ∃ text, n' = n.warn text) ∨ ∃ d d' id, n.design? = some d ∧ r = some id ∧
      n' = n.withDesign d' ∧
      (d.btermNamed? name = some id ∧ d' = d ∨ d.createBTerm name none = .ok (id, d')) := by
  obtain ⟨d, hd, e⟩ := bind_eq_ok.1 e
  have hd := design_eq_ok.1 hd
  cases hfound : d.btermNamed? name with
  | some id =>
    rw [hfound] at e
    cases pure_eq_ok.1 e
    exact .inr ⟨d, d, id, hd, rfl, (withDesign_self hd).symm, .inl ⟨hfound, rfl⟩⟩
  | none =>
    rw [hfound] at e
    cases hc : d.createBTerm name none with
    | ok made =>
      rw [hc] at e
      cases pure_eq_ok.1 e
      exact .inr ⟨d, made.2, made.1, hd, rfl, rfl, .inr hc⟩
    | error refusal =>
      rw [hc] at e
      cases pure_eq_ok.1 e
      exact .inl ⟨rfl, _, rfl⟩

namespace Minor

theorem connectPin {b : Bool} (e : n.connectPin p x = .ok (b, n')) : n.Minor n' := by
  rcases of_connectPin e with ⟨-, -, text, rfl⟩ | ⟨-, n₁, d, d', e₁, hd, hd', e₂⟩
  · exact warn n text
  · exact ((beforeDetach e₁).trans (single (.attach hd hd') ⟨rfl, rfl⟩)).trans (afterAttach e₂)

theorem connectFound {r : Option Pin} (e : n.connectFound p x = .ok (r, n')) : n.Minor n' := by
  obtain ⟨b, e, -⟩ := of_connectFound e
  exact connectPin e

theorem disconnect (e : n.disconnect p = .ok n') : n.Minor n' := by
  obtain ⟨n₁, e₁, e⟩ := bind_eq_ok.1 e
  obtain ⟨d, hd, e⟩ := bind_eq_ok.1 e
  cases pure_eq_ok.1 e
  exact (beforeDetach e₁).trans (single (.detach p (design_eq_ok.1 hd)) ⟨rfl, rfl⟩)

theorem moduleTerminal {modInst : ModInstId} {r : Option ModITermId}
    (e : n.moduleTerminal modInst name = .ok (r, n')) : n.Minor n' := by
  obtain ⟨d, hd, e⟩ := bind_eq_ok.1 e
  obtain ⟨found?, -, e⟩ := bind_eq_ok.1 e
  cases found? with
  | some id =>
    cases pure_eq_ok.1 e
    exact refl n
  | none =>
    cases hc : d.createModITerm modInst name with
    | ok made =>
      rw [hc] at e
      cases pure_eq_ok.1 e
      exact single (.createModITerm (design_eq_ok.1 hd) hc) ⟨rfl, rfl⟩
    | error refusal =>
      rw [hc] at e
      cases pure_eq_ok.1 e
      exact warn n _

theorem connectMade {net? : Option Net} {r : Option Pin}
    (e : n.connectMade p net? = .ok (r, n')) : n.Minor n' := by
  cases net? with
  | none =>
    cases pure_eq_ok.1 e
    exact refl n
  | some net =>
    obtain ⟨⟨b, n₁⟩, e₁, e⟩ := bind_eq_ok.1 e
    cases pure_eq_ok.1 e
    exact connectPin e₁

theorem makePin {i : Instance} {port : PortId} {net? : Option Net} {r : Option Pin}
    (e : n.makePin i port net? = .ok (r, n')) : n.Minor n' := by
  unfold Network.makePin at e
  cases i with
  | top =>
    cases pure_eq_ok.1 e
    exact single (.journal _) ⟨rfl, rfl⟩
  | flat id =>
    obtain ⟨p?, -, e⟩ := bind_eq_ok.1 e
    cases p? with
    | none =>
      cases pure_eq_ok.1 e
      exact refl n
    | some p => exact connectMade e
  | module id =>
    cases hp : n.catalog.port? port with
    | none =>
      simp only [hp] at e
      cases pure_eq_ok.1 e
      exact refl n
    | some p =>
      simp only [hp] at e
      obtain ⟨⟨r₁, n₁⟩, e₁, e⟩ := bind_eq_ok.1 e
      have h₁ : n.Minor n₁ := moduleTerminal e₁
      cases r₁ with
      | none =>
        cases pure_eq_ok.1 e
        exact h₁
      | some t => exact h₁.trans (connectMade e)

theorem makeInstance (n : Network) (ref : TimingCellRef) (name : String) (parent : Instance) :
    n.Minor (n.makeInstance ref name parent).2 := by
  unfold Network.makeInstance
  split
  · exact warn n _
  · split
    · exact warn n _
    · split
      · next e => exact single (.createInst e) ⟨rfl, rfl⟩
      · exact warn n _

theorem addTerminals {modInst : ModInstId} {names : List String}
    (e : n.addTerminals modInst names = .ok n') : n.Minor n' := by
  refine foldlM (fun n name n' e => ?_) e
  obtain ⟨d, hd, e⟩ := bind_eq_ok.1 e
  cases hc : d.createModITerm modInst name with
  | ok made =>
    simp only [hc] at e
    cases pure_eq_ok.1 e
    exact single (.createModITerm (design_eq_ok.1 hd) hc) ⟨rfl, rfl⟩
  | error refusal =>
    simp only [hc] at e
    cases pure_eq_ok.1 e
    exact warn n _

theorem instantiate {cell : CellId} {c : Cell} {within module : ModuleId} {r : Option Instance}
    (hcell : n.catalog.cell cell = .ok c) (hsource : c.source = .module module)
    (hd : n.design? = some d)
    (e : (match d.createModInst within module name with
      | .error refusal => return (none, n.warn refusal.message)
      | .ok (id, d) =>
        return (some (.module id), ← (n.withDesign d).addTerminals id
          ((d.modBTermsOf module).map fun e => e.2.name)) :
        Except Fault (Option Instance × Network)) = .ok (r, n')) : n.Minor n' := by
  cases hc : d.createModInst within module name with
  | error refusal =>
    simp only [hc] at e
    cases pure_eq_ok.1 e
    exact warn n _
  | ok made =>
    simp only [hc] at e
    obtain ⟨n₁, e₁, e⟩ := bind_eq_ok.1 e
    cases pure_eq_ok.1 e
    exact (single (.createModInst hcell hsource hd hc) ⟨rfl, rfl⟩).trans (addTerminals e₁)

theorem makeModuleInstance {cell : CellId} {parent : Instance} {r : Option Instance}
    (e : n.makeModuleInstance cell name parent = .ok (r, n')) : n.Minor n' := by
  unfold Network.makeModuleInstance at e
  split at e
  · cases pure_eq_ok.1 e
    exact warn n _
  · obtain ⟨c, hcell, e⟩ := bind_eq_ok.1 e
    split at e
    · cases pure_eq_ok.1 e
      exact warn n _
    · cases pure_eq_ok.1 e
      exact warn n _
    · next module hsource =>
      obtain ⟨d, hd, e⟩ := bind_eq_ok.1 e
      have hd := design_eq_ok.1 hd
      cases parent with
      | top => exact instantiate hcell hsource hd e
      | module id =>
        obtain ⟨i, -, e⟩ := bind_eq_ok.1 e
        exact instantiate hcell hsource hd e
      | flat id =>
        cases pure_eq_ok.1 e
        exact refl n

theorem makeNet {parent : Instance} {r : Option Net} (e : n.makeNet name parent = .ok (r, n')) :
    n.Minor n' := by
  obtain ⟨d, hd, e⟩ := bind_eq_ok.1 e
  cases parent with
  | top =>
    cases hc : d.createNet name with
    | ok made =>
      simp only [hc] at e
      cases pure_eq_ok.1 e
      exact single (.createNet (design_eq_ok.1 hd) hc) ⟨rfl, rfl⟩
    | error refusal =>
      simp only [hc] at e
      cases pure_eq_ok.1 e
      exact warn n _
  | module id =>
    obtain ⟨i, -, e⟩ := bind_eq_ok.1 e
    cases hc : d.createModNet i.master name with
    | ok made =>
      simp only [hc] at e
      cases pure_eq_ok.1 e
      exact single (.createModNet (design_eq_ok.1 hd) hc) ⟨rfl, rfl⟩
    | error refusal =>
      simp only [hc] at e
      cases pure_eq_ok.1 e
      exact warn n _
  | flat id =>
    cases pure_eq_ok.1 e
    exact refl n

theorem beforeDetachAll {pins : List Pin} (e : pins.foldlM Network.beforeDetach n = .ok n') :
    ∃ m, n' = { n with drivers := m } := by
  refine foldlM_ok_induct (motive := fun n' : Network => ∃ m, n' = { n with drivers := m })
    (fun m p m' hm hstep => ?_) ⟨n.drivers, rfl⟩ e
  obtain ⟨_, rfl⟩ := hm
  obtain ⟨m, rfl⟩ := exists_of_beforeDetach hstep
  exact ⟨m, rfl⟩

theorem deleteInstance {i : Instance} (e : n.deleteInstance i = .ok n') : n.Minor n' := by
  cases i with
  | top =>
    cases pure_eq_ok.1 e
    exact warn n _
  | flat id =>
    obtain ⟨d, hd, e⟩ := bind_eq_ok.1 e
    obtain ⟨i, -, e⟩ := bind_eq_ok.1 e
    obtain ⟨n₁, e₁, e⟩ := bind_eq_ok.1 e
    cases pure_eq_ok.1 e
    obtain ⟨m, rfl⟩ := beforeDetachAll e₁
    exact (single (.drivers m) ⟨rfl, rfl⟩).trans
      (settle fun d' hd' => .destroyInst (design_eq_ok.1 hd) hd')
  | module id =>
    obtain ⟨d, hd, e⟩ := bind_eq_ok.1 e
    obtain ⟨i, -, e⟩ := bind_eq_ok.1 e
    obtain ⟨n₁, e₁, e⟩ := bind_eq_ok.1 e
    cases pure_eq_ok.1 e
    obtain ⟨m, rfl⟩ := beforeDetachAll e₁
    exact (single (.drivers m) ⟨rfl, rfl⟩).trans
      (settle fun d' hd' => .destroyModInst (design_eq_ok.1 hd) hd')

theorem deletePin (e : n.deletePin p = .ok n') : n.Minor n' := by
  cases p with
  | flat t => cases e
  | boundary id =>
    obtain ⟨n₁, e₁, e⟩ := bind_eq_ok.1 e
    obtain ⟨d, hd, e⟩ := bind_eq_ok.1 e
    cases pure_eq_ok.1 e
    exact (beforeDetach e₁).trans (settle fun d' hd' => .destroyBTerm (design_eq_ok.1 hd) hd')
  | module id =>
    obtain ⟨n₁, e₁, e⟩ := bind_eq_ok.1 e
    obtain ⟨d, hd, e⟩ := bind_eq_ok.1 e
    cases pure_eq_ok.1 e
    exact (beforeDetach e₁).trans (settle fun d' hd' => .destroyModITerm (design_eq_ok.1 hd) hd')
  | moduleBoundary id =>
    obtain ⟨n₁, e₁, e⟩ := bind_eq_ok.1 e
    obtain ⟨d, hd, e⟩ := bind_eq_ok.1 e
    cases pure_eq_ok.1 e
    have hd : n₁.design? = some d := design_eq_ok.1 hd
    -- The pin was live when it was detached, so it is destroyed.
    obtain ⟨d', hd'⟩ : ∃ d', d.destroyModBTerm id = .ok d' := by
      have hlive := live_of_beforeDetach ((design?_beforeDetach e₁).symm.trans hd) e₁
      exact ⟨_, bind_eq_ok.2 ⟨(), Table.requireLive_eq_ok.2 hlive, rfl⟩⟩
    rw [hd']
    exact (beforeDetach e₁).trans (single (.destroyModBTerm hd hd') ⟨rfl, rfl⟩)

theorem deleteNet (e : n.deleteNet x = .ok n') : n.Minor n' := by
  obtain ⟨n₁, e₁, e⟩ := bind_eq_ok.1 e
  obtain ⟨d, hd, e⟩ := bind_eq_ok.1 e
  have hd := design_eq_ok.1 hd
  refine (beforeDelete e₁).trans ?_
  cases x with
  | module id =>
    cases pure_eq_ok.1 e
    exact settle fun d' hd' => .destroyModNet hd hd'
  | flat id =>
    cases pure_eq_ok.1 e
    cases hc : d.destroyNet id with
    | ok d' => exact single (.destroyNet hd hc) ⟨rfl, rfl⟩
    | error refusal =>
      have hdead : id ∉ d.nets.ids := by
        intro hlive
        rw [Design.destroyNet, (Table.requireLive_eq_ok (u := ())).2 hlive] at hc
        cases hc
      exact (single (.forgetConstant hd hdead) ⟨rfl, rfl⟩).trans (warn _ _)

theorem replaceCell {i : Instance} {cell : CellId} {r : Except Refusal Unit}
    (e : n.replaceCell i cell = .ok (r, n')) : n.Minor n' := by
  have attachAll {n n' : Network} {pins : List Pin}
      (e : pins.foldlM Network.afterAttach n = .ok n') : n.Minor n' :=
    foldlM (fun _ _ _ => afterAttach) e
  cases i with
  | top | module => cases e
  | flat id =>
    obtain ⟨c, -, e⟩ := bind_eq_ok.1 e
    split at e
    · cases e
    · cases e
    · next master _ =>
      obtain ⟨d, -, e⟩ := bind_eq_ok.1 e
      obtain ⟨i, -, e⟩ := bind_eq_ok.1 e
      obtain ⟨n₁, e₁, e⟩ := bind_eq_ok.1 e
      refine Minor.trans (foldlM (fun _ _ _ => beforeDetach) e₁) ?_
      cases hc : n₁.db.swapMaster id master with
      | error refusal =>
        simp only [hc] at e
        obtain ⟨n₂, e₂, e⟩ := bind_eq_ok.1 e
        cases pure_eq_ok.1 e
        exact attachAll e₂
      | ok db =>
        simp only [hc] at e
        obtain ⟨n₂, e₂, e⟩ := bind_eq_ok.1 e
        cases pure_eq_ok.1 e
        exact (single (.swapMaster hc) ⟨rfl, rfl⟩).trans (attachAll e₂)

end Minor

theorem setTopPort_withDesign (n : Network) (d : Design) (name : String)
    (direction : PortDirection) :
    ((n.withDesign d).setTopPort name direction).catalog = (n.setTopPort name direction).catalog := by
  have hcatalog : (n.withDesign d).catalog = n.catalog := rfl
  unfold setTopPort
  rw [hcatalog]
  cases n.catalog.topCell? with
  | none => rfl
  | some top =>
    dsimp only
    cases n.catalog.portNamed? top name <;> rfl

theorem of_topTerminal {direction : PortDirection} {r : Option BTermId}
    (e : n.topTerminal name direction = .ok (r, n')) : r = none ∧ n.Minor n' ∨
      r.isSome ∧ n.Changes n' ∧ n'.catalog = (n.setTopPort name direction).catalog := by
  obtain ⟨⟨r₁, n₁⟩, e₁, e⟩ := bind_eq_ok.1 e
  rcases of_boundaryTerminal e₁ with ⟨rfl, text, rfl⟩ | ⟨d, d₁, id, hd, rfl, rfl, hmade⟩
  · cases pure_eq_ok.1 e
    exact .inl ⟨rfl, .warn n text⟩
  · cases htypes : direction.types? with
    | none =>
      simp only [htypes] at e
      cases e
    | some types =>
      simp only [htypes] at e
      obtain ⟨d₂, hd₂, e⟩ := bind_eq_ok.1 e
      cases hd₂
      cases pure_eq_ok.1 e
      exact .inr ⟨rfl, .single (.topTerminal hd hmade htypes),
        (setTopPort_withDesign ..).trans (setTopPort_withDesign ..)⟩

/-- The boundary terminal of a port of the top is made and connected, if it is not refused. -/
theorem of_connectTop {direction : PortDirection} {r : Option Pin}
    (e : (do
      match ← n.topTerminal name direction with
      | (none, n) => return (none, n)
      | (some id, n) => n.connectFound (.boundary id) x : Except Fault (Option Pin × Network)) =
        .ok (r, n')) : r = none ∧ n.Minor n' ∨ (∃ pin, r = some pin) ∧ n.Changes n' ∧
      SamePorts (n.setTopPort name direction).catalog n'.catalog := by
  obtain ⟨⟨r₁, n₁⟩, e₁, e⟩ := bind_eq_ok.1 e
  rcases of_topTerminal e₁ with ⟨rfl, hminor⟩ | ⟨hr, hchanges, hcatalog⟩
  · cases pure_eq_ok.1 e
    exact .inl ⟨rfl, hminor⟩
  · obtain ⟨id, rfl⟩ := Option.isSome_iff_exists.1 hr
    have hfound : n₁.Minor n' := .connectFound e
    -- A net takes every boundary terminal.
    have haccepted : ∃ pin, r = some pin := by
      obtain ⟨⟨b, n₂⟩, e₂, e⟩ := bind_eq_ok.1 e
      cases pure_eq_ok.1 e
      rcases of_connectPin e₂ with ⟨-, hh, -⟩ | ⟨rfl, -⟩
      · cases hh
      · exact ⟨_, rfl⟩
    exact .inr ⟨haccepted, hchanges.trans hfound.changes, hcatalog ▸ hfound.ports⟩

inductive Directs (n : Network) : String → PortDirection → Network → Prop
  | connect {port p net pin n'} (hp : n.catalog.port? port = some p)
      (h : n.connect .top port net = .ok (some pin, n')) : Directs n p.name p.direction n'
  | connectTiming {ref direction net pin n'} (hdirection : n.timingPort? ref = some direction)
      (h : n.connectTiming .top ref net = .ok (some pin, n')) : Directs n ref.port direction n'

theorem Directs.changes {direction : PortDirection} (h : n.Directs name direction n') :
    n.Changes n' ∧ SamePorts (n.setTopPort name direction).catalog n'.catalog := by
  cases h with
  | connect hp e =>
    unfold Network.connect at e
    rw [hp] at e
    rcases of_connectTop e with ⟨hr, -⟩ | ⟨-, h⟩
    · cases hr
    · exact h
  | connectTiming hdirection e =>
    have htop : Instance.top.isTop = true := rfl
    unfold Network.connectTiming at e
    rw [if_pos htop, hdirection] at e
    rcases of_connectTop e with ⟨hr, -⟩ | ⟨-, h⟩
    · cases hr
    · exact h

inductive Effect (n n' : Network) : Prop
  | minor (h : n.Minor n')
  | directs {name direction} (h : n.Directs name direction n')
  | bundle {cell name members r} (hchange : n.Change n')
      (h : n.catalog.bundle cell name members = .ok (r, n'.catalog))

namespace Effect

theorem connect {i : Instance} {port : PortId} {r : Option Pin}
    (e : n.connect i port x = .ok (r, n')) : n.Effect n' := by
  have hconnect := e
  unfold Network.connect at e
  split at e
  · cases pure_eq_ok.1 e
    exact .minor (.refl n)
  · next p hp =>
    cases i with
    | top =>
      rcases of_connectTop e with ⟨-, hminor⟩ | ⟨⟨pin, rfl⟩, -⟩
      · exact .minor hminor
      · exact .directs (.connect hp hconnect)
    | flat id =>
      obtain ⟨d, -, e⟩ := bind_eq_ok.1 e
      obtain ⟨t?, -, e⟩ := bind_eq_ok.1 e
      cases t? with
      | none =>
        cases pure_eq_ok.1 e
        exact .minor (.refl n)
      | some t => exact .minor (.connectFound e)
    | module id =>
      obtain ⟨⟨r₁, n₁⟩, e₁, e⟩ := bind_eq_ok.1 e
      have h₁ : n.Minor n₁ := .moduleTerminal e₁
      cases r₁ with
      | none =>
        cases pure_eq_ok.1 e
        exact .minor h₁
      | some t => exact .minor (h₁.trans (.connectFound e))

theorem connectTiming {i : Instance} {ref : TimingPortRef} {r : Option Pin}
    (e : n.connectTiming i ref x = .ok (r, n')) : n.Effect n' := by
  have hconnect := e
  unfold Network.connectTiming at e
  split at e
  · next htop =>
    split at e
    · cases pure_eq_ok.1 e
      exact .minor (.refl n)
    · next direction hdirection =>
      rcases of_connectTop e with ⟨-, hminor⟩ | ⟨⟨pin, rfl⟩, -⟩
      · exact .minor hminor
      · cases i with
        | top => exact .directs (.connectTiming hdirection hconnect)
        | flat | module => cases htop
  · obtain ⟨cell?, -, e⟩ := bind_eq_ok.1 e
    split at e
    · cases pure_eq_ok.1 e
      exact .minor (.refl n)
    · exact connect e

end Effect

theorem Edit.effect (s : n.Edit n') : n.Effect n' := by
  cases s with
  | makeInstance ref name parent => exact .minor (.makeInstance n ref name parent)
  | makeModuleInstance e => exact .minor (.makeModuleInstance e)
  | deleteInstance e => exact .minor (.deleteInstance e)
  | replaceCell e => exact .minor (.replaceCell e)
  | makeNet e => exact .minor (.makeNet e)
  | deleteNet e => exact .minor (.deleteNet e)
  | makePin e => exact .minor (.makePin e)
  | deletePin e => exact .minor (.deletePin e)
  | connect e => exact .connect e
  | connectTiming e => exact .connectTiming e
  | connectPin e => exact .minor (.connectPin e)
  | disconnect e => exact .minor (.disconnect e)
  | makeBundle e =>
    obtain ⟨⟨r, c⟩, hc, e⟩ := bind_eq_ok.1 e
    cases pure_eq_ok.1 e
    exact .bundle (.bundle hc) hc

theorem Edit.changes (s : n.Edit n') : n.Changes n' := by
  cases s.effect with
  | minor h => exact h.changes
  | directs h => exact h.changes.1
  | bundle hchange _ => exact .single hchange

end DesignView.Network
