import DesignView.Proofs.Network.Load
import DesignView.Proofs.Network.Populate

/-!
Histories of a network: what a sequence of loads, edits and questions makes of a new network. The
database changes only through the network. Every network that has such a history is current.
-/

namespace DesignView.Network

/-- One completed load. The database that is loaded may have any history of its own. -/
inductive Load (n : Network) : Network → Prop
  | loadDatabase {db n'} (hdb : db.Reachable) (h : n.loadDatabase db = .ok n') : Load n n'
  | loadLibrary {id r n'} (h : n.loadLibrary id = .ok (r, n')) : Load n n'
  | loadTiming (library) : Load n (n.loadTiming library).2
  | relinkTiming (id) : Load n (n.relinkTiming id)
  | loadDesign {n'} (h : n.loadDesign = .ok n') : Load n n'
  | reload {n'} (h : n.reload = .ok n') : Load n n'
  | teardown : Load n n.teardown

inductive Edit (n : Network) : Network → Prop
  | makeInstance (ref name parent) : Edit n (n.makeInstance ref name parent).2
  | makeModuleInstance {cell name parent r n'}
      (h : n.makeModuleInstance cell name parent = .ok (r, n')) : Edit n n'
  | deleteInstance {i n'} (h : n.deleteInstance i = .ok n') : Edit n n'
  | replaceCell {i cell r n'} (h : n.replaceCell i cell = .ok (r, n')) : Edit n n'
  | makeNet {name parent r n'} (h : n.makeNet name parent = .ok (r, n')) : Edit n n'
  | deleteNet {net n'} (h : n.deleteNet net = .ok n') : Edit n n'
  | makePin {i port net? r n'} (h : n.makePin i port net? = .ok (r, n')) : Edit n n'
  | deletePin {p n'} (h : n.deletePin p = .ok n') : Edit n n'
  | connect {i port net r n'} (h : n.connect i port net = .ok (r, n')) : Edit n n'
  | connectTiming {i ref net r n'} (h : n.connectTiming i ref net = .ok (r, n')) : Edit n n'
  | connectPin {p net b n'} (h : n.connectPin p net = .ok (b, n')) : Edit n n'
  | disconnect {p n'} (h : n.disconnect p = .ok n') : Edit n n'
  | makeBundle {cell name members r n'}
      (h : n.makeBundle cell name members = .ok (r, n')) : Edit n n'

/-- One question that leaves something behind: a kept answer, or a changed journal or set of
observers. -/
inductive Query (n : Network) : Network → Prop
  | driversOf {net pins n'} (h : n.driversOf net = .ok (pins, n')) : Query n n'
  | logFault (f) : Query n (n.logFault f)
  | takeJournal : Query n n.takeJournal.2
  | addObserver : Query n n.addObserver.2
  | removeObserver (observer) : Query n (n.removeObserver observer).2
  | takeEvents : Query n n.takeEvents.2

inductive Step (n n' : Network) : Prop
  | load (h : n.Load n')
  | edit (h : n.Edit n')
  | query (h : n.Query n')

/-- The network has a history: completed requests lead to it from a new network. -/
def Reachable (n : Network) : Prop :=
  ∃ settings, Relation.ReflTransGen Step (Network.new settings) n

variable {n n' : Network}

theorem reachable_new (settings : Settings) : (Network.new settings).Reachable := ⟨settings, .refl⟩

theorem Reachable.step (h : n.Reachable) (s : n.Step n') : n'.Reachable :=
  h.imp fun _ hrun => hrun.tail s

@[elab_as_elim]
theorem Reachable.induct {motive : (n : Network) → n.Reachable → Prop}
    (new : ∀ settings, motive _ (reachable_new settings))
    (step : ∀ {n n'} (h : n.Reachable) (s : n.Step n'), motive n h → motive n' (h.step s))
    (h : n.Reachable) : motive n h := by
  obtain ⟨settings, hrun⟩ := h
  induction hrun with
  | refl => exact new settings
  | tail hrun s ih => exact step ⟨settings, hrun⟩ s ih

theorem Load.current (s : n.Load n') (h : n.Current) : n'.Current := by
  cases s with
  | loadDatabase hdb e => exact current_of_loadDatabase hdb.wellFormed e
  | loadLibrary e => exact h.loadLibrary e
  | loadTiming library => exact h.loadTiming library
  | relinkTiming id => exact h.relinkTiming id
  | loadDesign e => exact current_of_loadDesign h.sound.db h.sound.ports e
  | reload e => exact h.reload e
  | teardown => exact current_teardown n

theorem Edit.current (s : n.Edit n') (h : n.Current) : n'.Current := by
  cases s with
  | makeInstance ref name parent => exact h.makeInstance ref name parent
  | makeModuleInstance e => exact h.makeModuleInstance e
  | deleteInstance e => exact h.deleteInstance e
  | replaceCell e => exact (h.replaceCell e).1
  | makeNet e => exact h.makeNet e
  | deleteNet e => exact h.deleteNet e
  | makePin e => exact (h.makePin e).1
  | deletePin e => exact h.deletePin e
  | connect e => exact (h.connect e).1
  | connectTiming e => exact (h.connectTiming e).1
  | connectPin e => exact (h.connectPin e).1
  | disconnect e => exact h.disconnect e
  | makeBundle e => exact h.makeBundle e

theorem Query.current (s : n.Query n') (h : n.Current) : n'.Current := by
  cases s with
  | driversOf e => exact h.driversOf e
  | logFault f => exact h.congr rfl rfl rfl rfl
  | takeJournal => exact h.congr rfl rfl rfl rfl
  | addObserver => exact h.congr rfl rfl rfl rfl
  | removeObserver observer => exact h.congr rfl rfl rfl rfl
  | takeEvents => exact h.congr rfl rfl rfl rfl

theorem exists_of_driversOf {x : Net} {pins : List Pin} (e : n.driversOf x = .ok (pins, n')) :
    ∃ drivers, n' = { n with drivers } := by
  unfold Network.driversOf at e
  split at e
  · cases pure_eq_ok.1 e
    exact ⟨n.drivers, rfl⟩
  · obtain ⟨_, -, e⟩ := bind_eq_ok.1 e
    cases pure_eq_ok.1 e
    exact ⟨_, rfl⟩

theorem Query.exists_eq (s : n.Query n') :
    ∃ drivers journal observers, n' = { n with drivers, journal, observers } := by
  cases s with
  | driversOf e =>
    obtain ⟨drivers, rfl⟩ := exists_of_driversOf e
    exact ⟨drivers, n.journal, n.observers, rfl⟩
  | logFault | takeJournal | addObserver | removeObserver | takeEvents =>
    exact ⟨n.drivers, _, _, rfl⟩

theorem Step.current (s : n.Step n') (h : n.Current) : n'.Current := by
  cases s with
  | load s => exact s.current h
  | edit s => exact s.current h
  | query s => exact s.current h

theorem Reachable.current (h : n.Reachable) : n.Current := by
  induction h using Reachable.induct with
  | new settings => exact current_new settings
  | step _ s ih => exact s.current ih

end DesignView.Network
