import DesignView.Proofs.Network.Change

/-!
The database of a network has a history of its own. Loading takes over a database as it is, and an
edit of the network is a sequence of accepted edits of its database. That stays so where callers
edit the database behind the network's back.
-/

namespace DesignView.Network

open Relation (ReflTransGen)

variable {n n' : Network} {d d' : Design} {p : Pin} {x : Net}

theorem attach?_step (e : d.attach? p x = some d') : d.Step d' := by
  cases p <;> cases x
  case flat.flat t y => cases e; exact .attachITerm t y
  case flat.module t y => cases e; exact .attachITermToModNet t y
  case boundary.flat t y => cases e; exact .attachBTerm t y
  case boundary.module t y => cases e; exact .attachBTermToModNet t y
  case module.module t y => cases e; exact .attachModITerm t y
  case moduleBoundary.module t y => cases e; exact .attachModBTerm t y
  all_goals cases e

theorem detach_step (d : Design) (p : Pin) : d.Step (d.detach p) := by
  cases p with
  | flat t => exact .detachITerm t
  | boundary t => exact .detachBTerm t
  | module t => exact .detachModITerm t
  | moduleBoundary t => exact .detachModBTerm t

theorem setTopPort_db (n : Network) (name : String) (direction : PortDirection) :
    (n.setTopPort name direction).db = n.db := by
  obtain ⟨c, hc, -⟩ := n.setTopPort_catalog name direction
  rw [hc]

theorem Change.db (s : n.Change n') : ReflTransGen Database.Step n.db n'.db := by
  have one {d d' : Design} (hd : n.design? = some d) (s : d.Step d') :
      ReflTransGen Database.Step n.db (n.withDesign d').db := .single (.design hd s)
  cases s with
  | drivers | journal | forgetConstant | bundle => exact .refl
  | createInst h => exact .single (.createInst h)
  | swapMaster h => exact .single (.swapMaster h)
  | createModInst _ _ hd h => exact one hd (.createModInst h)
  | createModITerm hd h => exact one hd (.createModITerm h)
  | createNet hd h => exact one hd (.createNet h)
  | createModNet hd h => exact one hd (.createModNet h)
  | topTerminal hd h _ =>
    rw [setTopPort_db]
    rcases h with ⟨-, rfl⟩ | h
    · exact one hd (.setBTermTypes ..)
    · exact (one hd (.createBTerm h)).tail (.design rfl (.setBTermTypes ..))
  | attach hd h => exact one hd (attach?_step h)
  | detach p hd => exact one hd (detach_step _ p)
  | destroyInst hd h => exact one hd (.destroyInst h)
  | destroyModInst hd h => exact one hd (.destroyModInst h)
  | destroyNet hd h => exact one hd (.destroyNet h)
  | destroyModNet hd h => exact one hd (.destroyModNet h)
  | destroyBTerm hd h => exact one hd (.destroyBTerm h)
  | destroyModITerm hd h => exact one hd (.destroyModITerm h)
  | destroyModBTerm hd h => exact one hd (.destroyModBTerm h)

theorem Changes.db (h : n.Changes n') : ReflTransGen Database.Step n.db n'.db := by
  induction h with
  | refl => exact .refl
  | tail _ s ih => exact ih.trans s.db

def withoutModules (n : Network) : Network :=
  match n.catalog.moduleLibrary? with
  | some old => { n with catalog := n.catalog.removeLibrary old }
  | none => n

theorem of_loadDesign (e : n.loadDesign = .ok n') : ∃ d m n₁, n.design? = some d ∧
    m = (n.loadTopCell d).withoutModules ∧
    (m.hierarchy = true ∧ m.loadModuleCells d = .ok n₁ ∨ m.hierarchy = false ∧ n₁ = m) ∧
    n'.db = n₁.db ∧ n'.settings = n₁.settings ∧ n'.catalog = (n₁.indexBoundaries d).catalog := by
  obtain ⟨d, hd, e⟩ := bind_eq_ok.1 e
  have hd := design_eq_ok.1 hd
  extract_lets n₀ m finish at e
  have hfinish {n₁ : Network} (e : finish n₁ = .ok n') : n'.db = n₁.db ∧
      n'.settings = n₁.settings ∧ n'.catalog = (n₁.indexBoundaries d).catalog := by
    cases pure_eq_ok.1 e
    exact ⟨rfl, rfl, rfl⟩
  have hm : m = (n.loadTopCell d).withoutModules := rfl
  clear_value m finish
  split at e
  · next hh =>
    obtain ⟨n₁, e₁, e⟩ := bind_eq_ok.1 e
    exact ⟨d, m, n₁, hd, hm, .inl ⟨hh, e₁⟩, hfinish e⟩
  · next hh => exact ⟨d, m, m, hd, hm, .inr ⟨eq_false_of_ne_true hh, rfl⟩, hfinish e⟩

theorem Loads.withoutModules (n : Network) : n.Loads n.withoutModules := by
  unfold Network.withoutModules
  split
  · exact setCatalog (.removeLibrary ..)
  · exact refl

theorem loadDesign_db (e : n.loadDesign = .ok n') : n'.db = n.db := by
  obtain ⟨d, m, n₁, -, rfl, hmodules, hdb, -⟩ := of_loadDesign e
  have htop : n.Loads (n.loadTopCell d).withoutModules :=
    (Loads.loadTopCell n d).trans (.withoutModules _)
  rcases hmodules with ⟨-, e₁⟩ | ⟨-, rfl⟩
  · exact hdb.trans (htop.trans (.loadModuleCells e₁)).db
  · exact hdb.trans htop.db

theorem loadDatabase_db {db : Database} (e : n.loadDatabase db = .ok n') : n'.db = db := by
  obtain ⟨n₁, e₁, e⟩ := bind_eq_ok.1 e
  have hlibs : n₁.db = db := by
    refine foldlM_ok_induct (motive := fun m : Network => m.db = db)
      (fun m id m' hm hstep => ?_) rfl e₁
    obtain ⟨⟨r, m₁⟩, hlib, hstep⟩ := bind_eq_ok.1 hstep
    cases pure_eq_ok.1 hstep
    exact (Loads.loadLibrary hlib).1.db.trans hm
  extract_lets n₂ at e
  have hdb : n₂.db = db :=
    (Loads.foldl .recordTimingMasters (n₁.timingLibraries.map (·.1)) n₁).db.trans hlibs
  split at e
  · exact (loadDesign_db e).trans hdb
  · exact pure_eq_ok.1 e ▸ hdb

theorem relinkTiming_db (n : Network) (id : TimingId) : (n.relinkTiming id).db = n.db := by
  unfold Network.relinkTiming
  split
  · rfl
  · dsimp only
    generalize hacc : List.foldl _ (n, false) _ = acc
    obtain ⟨m, linked⟩ := acc
    have hdb : (m.recordTimingMasters id).db = n.db :=
      ((Loads.linkCells hacc).1.trans (.recordTimingMasters m id)).db
    cases linked with
    | true => exact hdb
    | false => exact hdb

theorem Load.reachable_db (s : n.Load n') (h : n.db.Reachable) : n'.db.Reachable := by
  cases s with
  | loadDatabase hdb e => exact loadDatabase_db e ▸ hdb
  | loadLibrary e => exact (Loads.loadLibrary e).1.db ▸ h
  | loadTiming library =>
    have hdb : (n.loadTiming library).2.db = n.db := relinkTiming_db ..
    exact hdb ▸ h
  | relinkTiming id => exact relinkTiming_db n id ▸ h
  | loadDesign e => exact loadDesign_db e ▸ h
  | reload e =>
    unfold Network.reload at e
    split at e
    · exact loadDesign_db e ▸ h
    · cases pure_eq_ok.1 e
      exact h
  | teardown => exact .refl

theorem Query.db (s : n.Query n') : n'.db = n.db := by
  obtain ⟨_, _, _, rfl⟩ := s.exists_eq
  rfl

theorem Step.reachable_db (s : n.Step n') (h : n.db.Reachable) : n'.db.Reachable := by
  cases s with
  | load s => exact s.reachable_db h
  | edit s => exact h.trans s.changes.db
  | query s => exact s.db ▸ h

theorem Reachable.db (h : n.Reachable) : n.db.Reachable := by
  induction h using Reachable.induct with
  | new => exact .refl
  | step _ s ih => exact s.reachable_db ih

/-- What a caller does: a request to the network, or edits of the database that the network hands
out, which the network does not see. -/
inductive Access (n : Network) : Network → Prop
  | step {n' : Network} (s : n.Step n') : Access n n'
  | database {db : Database} (h : db.Reachable) : Access n { n with db }

/-- What a caller does leads to the network from a new one. -/
def Accessible (n : Network) : Prop :=
  ∃ settings, ReflTransGen Access (Network.new settings) n

theorem Reachable.accessible (h : n.Reachable) : n.Accessible := by
  obtain ⟨settings, hrun⟩ := h
  exact ⟨settings, ReflTransGen.mono (fun _ _ => .step) _ _ hrun⟩

theorem Accessible.db (h : n.Accessible) : n.db.Reachable := by
  obtain ⟨settings, hrun⟩ := h
  induction hrun with
  | refl => exact .refl
  | tail _ s ih =>
    cases s with
    | step s => exact s.reachable_db ih
    | database hdb => exact hdb

theorem Accessible.design (h : n.Accessible) (hd : n.design? = some d) : d.WellFormed :=
  h.db.wellFormed.design hd

end DesignView.Network
