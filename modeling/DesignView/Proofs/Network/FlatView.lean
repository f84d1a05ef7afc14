import DesignView.Proofs.Network.History
import DesignView.Proofs.Network.Rebased

/-!
The view without the hierarchy. Every question about the top, a leaf instance, a pin of one of these
or a flat net is answered from the flat netlist: what the modules of the database are makes no
difference, and no answer has a handle of the module hierarchy in it.
-/

namespace DesignView

open Relation (ReflTransGen)

def Handle.inModules : Handle → Bool
  | .instance i => i.module?.isSome
  | .pin p => p.isHierarchical
  | .net x => x.module?.isSome
  | .term t => t.moduleBoundary?.isSome

inductive Question where
  | children (i : Instance)
  | parent (i : Instance)
  | childNamed (i : Instance) (name : String)
  | instanceAt (path : String)
  | netNamed (i : Instance) (name : String)
  | netsMatching (i : Instance) (pattern : String)
  | pinNamed (i : Instance) (port : String)
  | pinsOf (i : Instance)
  | netsOf (i : Instance)
  | portOf (p : Pin)
  | direction (p : Pin)
  | termOf (p : Pin)
  | netOf (p : Pin)
  | pinsOn (x : Net)
  | termsOn (x : Net)
  | connectedPins (x : Net)
  | connectedNets (x : Net)
  | driversOf (x : Net)
  | constantOf (x : Net)
  | number (h : Handle)

inductive Reply where
  | handles (xs : List Handle)
  | port (p? : Option PortId)
  | direction (direction : PortDirection)
  | value (v? : Option LogicValue)
  | number (k : Nat)

namespace Question

def subject? : Question → Option Handle
  | children i | parent i | childNamed i _ | netNamed i _ | netsMatching i _ | pinNamed i _
  | pinsOf i | netsOf i => some (.instance i)
  | instanceAt _ => none
  | portOf p | direction p | termOf p | netOf p => some (.pin p)
  | pinsOn x | termsOn x | connectedPins x | connectedNets x | driversOf x | constantOf x =>
    some (.net x)
  | number h => some h

/-- The question is not about a handle of the module hierarchy. -/
def Flat (q : Question) : Prop := ∀ h ∈ q.subject?, h.inModules = false

end Question

def Reply.mentioned : Reply → List Handle
  | .handles xs => xs
  | .port _ | .direction _ | .value _ | .number _ => []

def Reply.Flat (r : Reply) : Prop := ∀ h ∈ r.mentioned, h.inModules = false

namespace Network

def ask (n : Network) : Question → Except Fault Reply
  | .children i => do return .handles ((← n.children i).map .instance)
  | .parent i => do return .handles ((← n.parent i).toList.map .instance)
  | .childNamed i name => do return .handles ((← n.childNamed? i name).toList.map .instance)
  | .instanceAt path => return .handles ((n.instanceAt? path).toList.map .instance)
  | .netNamed i name => do return .handles ((← n.netNamed? i name).toList.map .net)
  | .netsMatching i pattern => return .handles ((n.netsMatching i pattern).map .net)
  | .pinNamed i port => do return .handles ((← n.pinNamed? i port).toList.map .pin)
  | .pinsOf i => do return .handles ((← n.pinsOf i).map .pin)
  | .netsOf i => do return .handles ((← n.netsOf i).map .net)
  | .portOf p => do return .port (← n.portOf p)
  | .direction p => do return .direction (← n.direction p)
  | .termOf p => do return .handles ((← n.termOf p).toList.map .term)
  | .netOf p => do return .handles ((← n.netOf p).toList.map .net)
  | .pinsOn x => do return .handles ((← n.pinsOn x).map .pin)
  | .termsOn x => return .handles ((n.termsOn x).map .term)
  | .connectedPins x => do return .handles ((← n.connectedPins x).map .pin)
  | .connectedNets x => do return .handles ((← n.connectedNets x).map .net)
  | .driversOf x => do return .handles ((← n.driversOf x).1.map .pin)
  | .constantOf x => do return .value (← n.constantOf x)
  | .number h => do return .number (← n.number h)

variable {n m n' : Network} {db db' : Database} {q : Question} {r : Reply}
variable {b : OrderedMap (ModuleId × String) ModBTermId}

theorem module?_eq_none {i : Instance} (hi : (Handle.instance i).inModules = false) :
    i.module? = none := by
  cases i <;> first | rfl | cases hi

theorem exists_flat_of_outside {x : Net} (hx : (Handle.net x).inModules = false) :
    ∃ id, x = .flat id := by
  cases x with
  | flat id => exact ⟨id, rfl⟩
  | module id => cases hx

theorem ask_rebased (h : n.db.SameFlat db) (hn : n.hierarchy = false) (hdb : n.db.WellFormed)
    (hdb' : db.WellFormed) (hq : q.Flat) : (n.rebased db b).ask q = n.ask q := by
  have hinst {i : Instance} (hi : q.subject? = some (.instance i)) : i.module? = none :=
    module?_eq_none (hq _ hi)
  have hpin {p : Pin} (hp : q.subject? = some (.pin p)) : p.isHierarchical = false := hq _ hp
  have hnet {x : Net} (hx : q.subject? = some (.net x)) : ∃ id, x = .flat id :=
    exists_flat_of_outside (hq _ hx)
  cases q with
  | children i => simp only [ask, children_rebased h hn (hinst rfl)]
  | parent i => simp only [ask, parent_rebased hn (hinst rfl)]
  | childNamed i name => simp only [ask, childNamed?_rebased h hn (hinst rfl)]
  | instanceAt path => simp only [ask, instanceAt?_rebased h hn]
  | netNamed i name => simp only [ask, netNamed?_rebased h hn (hinst rfl)]
  | netsMatching i pattern => simp only [ask, netsMatching_rebased h hn]
  | pinNamed i port => simp only [ask, pinNamed?_rebased h (hinst rfl)]
  | pinsOf i => simp only [ask, pinsOf_rebased h (hinst rfl)]
  | netsOf i => simp only [ask, netsOf_rebased h hn (hinst rfl)]
  | portOf p => simp only [ask, portOf_rebased h (hpin rfl)]
  | direction p => simp only [ask, direction_rebased h (hpin rfl)]
  | termOf p => simp only [ask, termOf_rebased (hpin rfl)]
  | netOf p => simp only [ask, netOf_rebased h hn hdb hdb' (hpin rfl)]
  | pinsOn x =>
    obtain ⟨id, rfl⟩ := hnet rfl
    simp only [ask, pinsOn_rebased h]
  | termsOn x =>
    obtain ⟨id, rfl⟩ := hnet rfl
    simp only [ask, termsOn_rebased h]
  | connectedPins x =>
    obtain ⟨id, rfl⟩ := hnet rfl
    simp only [ask, connectedPins_rebased h]
  | connectedNets x =>
    obtain ⟨id, rfl⟩ := hnet rfl
    simp only [ask, connectedNets_rebased h]
  | driversOf x =>
    obtain ⟨id, rfl⟩ := hnet rfl
    simp only [ask, driversOf_rebased h]
    cases n.driversOf (.flat id) <;> rfl
  | constantOf x =>
    -- What a flat net carries was found when the design was loaded.
    obtain ⟨id, rfl⟩ := hnet rfl
    rfl
  | number k => rfl

section Mentions

variable {α : Type} {f : α → Handle}

theorem flat_handles {xs : List α} (h : ∀ a ∈ xs, (f a).inModules = false) :
    (Reply.handles (xs.map f)).Flat := by
  intro y hy
  obtain ⟨a, ha, rfl⟩ := List.mem_map.1 hy
  exact h a ha

theorem flat_of_list {c : Except Fault (List α)}
    (h : ∀ xs, c = .ok xs → ∀ a ∈ xs, (f a).inModules = false)
    (e : (do return .handles ((← c).map f)) = Except.ok r) : r.Flat := by
  obtain ⟨xs, hc, e⟩ := bind_eq_ok.1 e
  cases pure_eq_ok.1 e
  exact flat_handles (h xs hc)

theorem flat_of_option {c : Except Fault (Option α)}
    (h : ∀ a, c = .ok (some a) → (f a).inModules = false)
    (e : (do return .handles ((← c).toList.map f)) = Except.ok r) : r.Flat := by
  obtain ⟨x?, hc, e⟩ := bind_eq_ok.1 e
  cases pure_eq_ok.1 e
  apply flat_handles
  intro a ha
  rw [Option.mem_toList.1 ha] at hc
  exact h a hc

theorem flat_of_value {c : Except Fault α} {g : α → Reply} (hg : ∀ a, (g a).mentioned = [])
    (e : (do return g (← c)) = Except.ok r) : r.Flat := by
  obtain ⟨a, -, e⟩ := bind_eq_ok.1 e
  cases pure_eq_ok.1 e
  intro y hy
  rw [hg] at hy
  cases hy

end Mentions

section Outside

variable {i j : Instance} {p : Pin} {x : Net} {id : NetId}

section Hidden

variable (hn : n.hierarchy = false)

include hn

theorem children_outside (hi : (Handle.instance i).inModules = false) {is : List Instance}
    (e : n.children i = .ok is) (hj : j ∈ is) : (Handle.instance j).inModules = false := by
  unfold children at e
  split at e
  · cases pure_eq_ok.1 e
    cases hj
  · next d hd =>
    cases i with
    | top =>
      rw [hn] at e
      cases pure_eq_ok.1 e
      obtain ⟨id, -, rfl⟩ := List.mem_map.1 hj
      rfl
    | flat id =>
      cases pure_eq_ok.1 e
      cases hj
    | module id => cases hi

theorem parent_outside (hi : (Handle.instance i).inModules = false)
    (e : n.parent i = .ok (some j)) : (Handle.instance j).inModules = false := by
  cases i with
  | top => cases pure_eq_ok.1 e
  | flat id =>
    simp only [parent, hn] at e
    cases pure_eq_ok.1 e
    rfl
  | module id => cases hi

theorem childNamed?_outside (hi : (Handle.instance i).inModules = false) {name : String}
    (e : n.childNamed? i name = .ok (some j)) : (Handle.instance j).inModules = false := by
  unfold childNamed? at e
  split at e
  · cases pure_eq_ok.1 e
  · next d hd =>
    cases i with
    | top =>
      rw [hn] at e
      obtain ⟨id, -, rfl⟩ := Option.map_eq_some_iff.1 (pure_eq_ok.1 e)
      rfl
    | flat id => cases pure_eq_ok.1 e
    | module id => cases hi

theorem instanceAt?_outside {path : String} (e : n.instanceAt? path = some j) :
    (Handle.instance j).inModules = false := by
  unfold instanceAt? at e
  split at e
  · cases e
  · split at e
    · cases e
      rfl
    · rw [hn] at e
      cases e

theorem netNamed?_outside (hi : (Handle.instance i).inModules = false) {name : String}
    (e : n.netNamed? i name = .ok (some x)) : (Handle.net x).inModules = false := by
  unfold netNamed? at e
  split at e
  · cases pure_eq_ok.1 e
  · next d hd =>
    cases i with
    | top =>
      rw [hn] at e
      obtain ⟨id, -, rfl⟩ := Option.map_eq_some_iff.1 (pure_eq_ok.1 e)
      rfl
    | flat id => cases pure_eq_ok.1 e
    | module id => cases hi

theorem netsMatching_outside {pattern : String} (hx : x ∈ n.netsMatching i pattern) :
    (Handle.net x).inModules = false := by
  unfold netsMatching at hx
  rw [hn] at hx
  split at hx
  · cases hx
  · split at hx
    · obtain ⟨a, -, rfl⟩ := List.mem_map.1 hx
      rfl
    · cases hx

theorem netsOf_outside (hi : (Handle.instance i).inModules = false) {xs : List Net}
    (e : n.netsOf i = .ok xs) (hx : x ∈ xs) : (Handle.net x).inModules = false := by
  unfold netsOf at e
  rw [hn] at e
  split at e
  · cases pure_eq_ok.1 e
    cases hx
  · next d hd =>
    cases i with
    | top =>
      cases pure_eq_ok.1 e
      obtain ⟨id, -, rfl⟩ := List.mem_map.1 hx
      rfl
    | flat id =>
      cases pure_eq_ok.1 e
      cases hx
    | module id => cases hi

theorem netOf_outside (hp : (Handle.pin p).inModules = false) (e : n.netOf p = .ok (some x)) :
    (Handle.net x).inModules = false := by
  unfold netOf at e
  rw [hn] at e
  split at e
  · cases pure_eq_ok.1 e
  · next d hd =>
    cases p with
    | flat t | boundary t =>
      obtain ⟨_, -, e⟩ := bind_eq_ok.1 e
      obtain ⟨id, -, rfl⟩ := Option.map_eq_some_iff.1 (pure_eq_ok.1 e)
      rfl
    | module t | moduleBoundary t => cases hp

end Hidden

theorem pinNamed?_outside (hi : (Handle.instance i).inModules = false) {port : String}
    (e : n.pinNamed? i port = .ok (some p)) : (Handle.pin p).inModules = false := by
  unfold pinNamed? at e
  split at e
  · cases pure_eq_ok.1 e
  · next d hd =>
    cases i with
    | top =>
      obtain ⟨t, -, rfl⟩ := Option.map_eq_some_iff.1 (pure_eq_ok.1 e)
      rfl
    | flat id =>
      obtain ⟨t?, -, e⟩ := bind_eq_ok.1 e
      obtain ⟨t, -, rfl⟩ := Option.map_eq_some_iff.1 (pure_eq_ok.1 e)
      rfl
    | module id => cases hi

theorem mem_of_keepM {test : Pin → Except Fault Bool} {ps ps' : List Pin}
    (e : keepM test ps = .ok ps') (hp : p ∈ ps') : p ∈ ps := by
  induction ps generalizing ps' with
  | nil =>
    cases pure_eq_ok.1 e
    exact hp
  | cons q ps ih =>
    obtain ⟨kept, -, e⟩ := bind_eq_ok.1 e
    obtain ⟨rest, hrest, e⟩ := bind_eq_ok.1 e
    cases pure_eq_ok.1 e
    cases kept with
    | false => exact List.mem_cons_of_mem q (ih hrest hp)
    | true =>
      rcases List.mem_cons.1 hp with rfl | hp
      · exact List.mem_cons_self
      · exact List.mem_cons_of_mem q (ih hrest hp)

theorem pinsOf_outside (hi : (Handle.instance i).inModules = false) {ps : List Pin}
    (e : n.pinsOf i = .ok ps) (hp : p ∈ ps) : (Handle.pin p).inModules = false := by
  unfold pinsOf at e
  split at e
  · cases pure_eq_ok.1 e
    cases hp
  · next d hd =>
    cases i with
    | top =>
      obtain ⟨t, -, rfl⟩ := List.mem_map.1 (mem_of_keepM e hp)
      rfl
    | flat id =>
      obtain ⟨_, -, e⟩ := bind_eq_ok.1 e
      obtain ⟨t, -, rfl⟩ := List.mem_map.1 (mem_of_keepM e hp)
      rfl
    | module id => cases hi

theorem termOf_outside (hp : (Handle.pin p).inModules = false) {t : Term}
    (e : n.termOf p = .ok (some t)) : (Handle.term t).inModules = false := by
  cases p with
  | flat id => cases pure_eq_ok.1 e
  | boundary id =>
    cases pure_eq_ok.1 e
    rfl
  | module id | moduleBoundary id => cases hp

theorem termsOn_outside {t : Term} (ht : t ∈ n.termsOn (.flat id)) :
    (Handle.term t).inModules = false := by
  obtain ⟨p, hp, ht⟩ := List.mem_filterMap.1 ht
  have hleaf := flat_of_listed hp
  cases p with
  | flat t => cases ht
  | boundary t =>
    cases ht
    rfl
  | module t | moduleBoundary t => cases hleaf

theorem sweepFrom_flat_listed {test : Pin → Except Fault Bool} {xs : List Net} {ps : List Pin}
    (e : n.sweepFrom test (.flat id) [] = .ok (xs, ps)) :
    (∀ x ∈ xs, x = .flat id) ∧ ∀ p ∈ ps, p ∈ n.listedOn (.flat id) := by
  rw [sweepFrom_flat] at e
  split at e
  · cases e
    exact ⟨by simp, by simp⟩
  · split at e
    · obtain ⟨s, hs, e⟩ := bind_eq_ok.1 e
      cases pure_eq_ok.1 e
      exact ⟨by simp, (meetAll_eq_ok hs).2⟩
    · cases e
      exact ⟨by simp, by simp⟩

theorem connectedPins_outside {ps : List Pin} (e : n.connectedPins (.flat id) = .ok ps)
    (hp : p ∈ ps) : (Handle.pin p).inModules = false := by
  obtain ⟨⟨xs, ps⟩, e₁, e⟩ := bind_eq_ok.1 e
  cases pure_eq_ok.1 e
  exact flat_of_listed ((sweepFrom_flat_listed e₁).2 p hp)

theorem connectedNets_outside {xs : List Net} (e : n.connectedNets (.flat id) = .ok xs)
    (hx : x ∈ xs) : (Handle.net x).inModules = false := by
  obtain ⟨⟨xs, ps⟩, e₁, e⟩ := bind_eq_ok.1 e
  cases pure_eq_ok.1 e
  rw [(sweepFrom_flat_listed e₁).1 x hx]
  rfl

theorem driversOf_outside (hk : n.Kept []) {ps : List Pin}
    (e : n.driversOf (.flat id) = .ok (ps, n')) (hp : p ∈ ps) :
    (Handle.pin p).inModules = false := by
  unfold driversOf at e
  split at e
  · next pins hfound =>
    cases pure_eq_ok.1 e
    have hdrives : n.Drives p := ((hk hfound).drives p hp).resolve_left List.not_mem_nil
    exact hdrives.leaf
  · obtain ⟨⟨xs, pins⟩, e₁, e⟩ := bind_eq_ok.1 e
    cases pure_eq_ok.1 e
    exact flat_of_listed ((sweepFrom_flat_listed e₁).2 p hp)

theorem ask_flat (hn : n.hierarchy = false) (hk : n.Kept []) (hq : q.Flat) (e : n.ask q = .ok r) :
    r.Flat := by
  cases q with
  | children i => exact flat_of_list (fun is e _ => children_outside hn (hq _ rfl) e) e
  | parent i => exact flat_of_option (fun j => parent_outside hn (hq _ rfl)) e
  | childNamed i name => exact flat_of_option (fun j => childNamed?_outside hn (hq _ rfl)) e
  | instanceAt path =>
    exact flat_of_option (fun j e => instanceAt?_outside hn (pure_eq_ok.1 e)) e
  | netNamed i name => exact flat_of_option (fun x => netNamed?_outside hn (hq _ rfl)) e
  | netsMatching i pattern =>
    cases pure_eq_ok.1 e
    exact flat_handles fun x => netsMatching_outside hn
  | pinNamed i port => exact flat_of_option (fun p => pinNamed?_outside (hq _ rfl)) e
  | pinsOf i => exact flat_of_list (fun ps e _ => pinsOf_outside (hq _ rfl) e) e
  | netsOf i => exact flat_of_list (fun xs e _ => netsOf_outside hn (hq _ rfl) e) e
  | termOf p => exact flat_of_option (fun t => termOf_outside (hq _ rfl)) e
  | netOf p => exact flat_of_option (fun x => netOf_outside hn (hq _ rfl)) e
  | pinsOn x =>
    obtain ⟨id, rfl⟩ := exists_flat_of_outside (hq _ rfl)
    exact flat_of_list (f := .pin) (fun ps e p hp => flat_of_listed (mem_of_keepM e hp)) e
  | termsOn x =>
    obtain ⟨id, rfl⟩ := exists_flat_of_outside (hq _ rfl)
    cases pure_eq_ok.1 e
    exact flat_handles fun t => termsOn_outside
  | connectedPins x =>
    obtain ⟨id, rfl⟩ := exists_flat_of_outside (hq _ rfl)
    exact flat_of_list (fun ps e _ => connectedPins_outside e) e
  | connectedNets x =>
    obtain ⟨id, rfl⟩ := exists_flat_of_outside (hq _ rfl)
    exact flat_of_list (fun xs e _ => connectedNets_outside e) e
  | driversOf x =>
    obtain ⟨id, rfl⟩ := exists_flat_of_outside (hq _ rfl)
    obtain ⟨⟨ps, n'⟩, hdrivers, e⟩ := bind_eq_ok.1 e
    cases pure_eq_ok.1 e
    exact flat_handles fun p => driversOf_outside hk hdrivers
  | portOf p | direction p | constantOf x | number k => exact flat_of_value (fun _ => rfl) e

end Outside

/-- Two networks without the hierarchy that are loaded alike: with the same timing libraries, and
with databases that differ in the modules only. In between, drivers of flat nets may be asked for,
and the answers kept. -/
inductive LoadedAlike : Network → Network → Prop
  | new {settings : Settings} (h : settings.hierarchy = false) :
    LoadedAlike (.new settings) (.new settings)
  | loadDatabase {n m n' m' : Network} {db db' : Database} (h : LoadedAlike n m)
      (hdb : db.Reachable) (hdb' : db'.Reachable) (hsame : db.SameFlat db')
      (e : n.loadDatabase db = .ok n') (e' : m.loadDatabase db' = .ok m') : LoadedAlike n' m'
  | reload {n m n' m' : Network} (h : LoadedAlike n m) (e : n.reload = .ok n')
      (e' : m.reload = .ok m') : LoadedAlike n' m'
  | loadTiming {n m : Network} (h : LoadedAlike n m) (library : TimingLibrary) :
    LoadedAlike (n.loadTiming library).2 (m.loadTiming library).2
  | relinkTiming {n m : Network} (h : LoadedAlike n m) (id : TimingId) :
    LoadedAlike (n.relinkTiming id) (m.relinkTiming id)
  | driversOf {n m n' m' : Network} (h : LoadedAlike n m) (x : NetId) {ps ps' : List Pin}
      (e : n.driversOf (.flat x) = .ok (ps, n')) (e' : m.driversOf (.flat x) = .ok (ps', m')) :
    LoadedAlike n' m'

namespace LoadedAlike

theorem reachable (h : LoadedAlike n m) : n.Reachable ∧ m.Reachable := by
  induction h with
  | @new settings h => exact ⟨reachable_new settings, reachable_new settings⟩
  | loadDatabase _ hdb hdb' _ e e' ih =>
    exact ⟨ih.1.step (.load (.loadDatabase hdb e)), ih.2.step (.load (.loadDatabase hdb' e'))⟩
  | reload _ e e' ih => exact ⟨ih.1.step (.load (.reload e)), ih.2.step (.load (.reload e'))⟩
  | loadTiming _ library ih =>
    exact ⟨ih.1.step (.load (.loadTiming library)), ih.2.step (.load (.loadTiming library))⟩
  | relinkTiming _ id ih =>
    exact ⟨ih.1.step (.load (.relinkTiming id)), ih.2.step (.load (.relinkTiming id))⟩
  | driversOf _ x e e' ih =>
    exact ⟨ih.1.step (.query (.driversOf e)), ih.2.step (.query (.driversOf e'))⟩

theorem twin (h : LoadedAlike n m) : n.Twin m ∧ n.hierarchy = false := by
  have hkeeps {n n' : Network} (hs : n'.settings = n.settings) (hn : n.hierarchy = false) :
      n'.hierarchy = false := (congrArg Settings.hierarchy hs).trans hn
  induction h with
  | new h => exact ⟨⟨{}, {}, ⟨rfl, rfl, rfl, .none⟩, rfl⟩, h⟩
  | loadDatabase _ _ _ hsame e e' ih =>
    obtain ⟨m₁, e₁, htwin, hsettings⟩ := ih.1.loadDatabase ih.2 hsame e
    cases e'.symm.trans e₁
    exact ⟨htwin, hkeeps hsettings ih.2⟩
  | reload _ e e' ih =>
    obtain ⟨m₁, e₁, htwin, hsettings⟩ := ih.1.reload ih.2 e
    cases e'.symm.trans e₁
    exact ⟨htwin, hkeeps hsettings ih.2⟩
  | loadTiming _ library ih =>
    exact ⟨ih.1.loadTiming library, hkeeps (Arranges.relinkTiming _ _).only.settings ih.2⟩
  | relinkTiming _ id ih =>
    exact ⟨ih.1.relinkTiming id, hkeeps (Arranges.relinkTiming _ _).only.settings ih.2⟩
  | driversOf _ x e e' ih =>
    obtain ⟨m₁, e₁, htwin, hsettings⟩ := ih.1.driversOf x e
    cases e'.symm.trans e₁
    exact ⟨htwin, hkeeps hsettings ih.2⟩

/-- Without the hierarchy, networks over databases that differ in the modules only answer every
question about handles outside the module hierarchy alike, and no answer has a handle of the module
hierarchy in it. Such databases can always be loaded. -/
theorem flat_view (h : LoadedAlike n m) :
    (∀ q : Question, q.Flat → m.ask q = n.ask q ∧ ∀ r, n.ask q = .ok r → r.Flat) ∧
      ∀ db db' : Database, db.Reachable → db'.Reachable → db.SameFlat db' →
        ∃ n' m', n.loadDatabase db = .ok n' ∧ m.loadDatabase db' = .ok m' ∧ LoadedAlike n' m' := by
  obtain ⟨hreach, hreach'⟩ := h.reachable
  obtain ⟨⟨db₁, b, hsame₁, rfl⟩, hn⟩ := h.twin
  refine ⟨fun q hq => ⟨?_, fun r => ?_⟩, fun db db' hdb hdb' hsame => ?_⟩
  · exact ask_rebased hsame₁ hn hreach.db.wellFormed hreach'.db.wellFormed hq
  · exact ask_flat hn hreach.current.kept hq
  · obtain ⟨n', e⟩ := n.loadDatabase_ok hdb.wellFormed
    obtain ⟨m', e'⟩ := (n.rebased db₁ b).loadDatabase_ok hdb'.wellFormed
    exact ⟨n', m', e, e', .loadDatabase h hdb hdb' hsame e e'⟩

theorem flat_view_module_net : ∃ n m, LoadedAlike n m ∧
    n.design?.map (fun d => d.itermModNets.entries) = some [] ∧
    m.design?.map (fun d => d.itermModNets.entries) = some [(⟨1⟩, ⟨1⟩)] ∧
    Question.Flat (.netOf (.flat ⟨1⟩)) ∧
    n.ask (.netOf (.flat ⟨1⟩)) = .ok (.handles [.net (.flat ⟨1⟩)]) ∧
    m.ask (.netOf (.flat ⟨1⟩)) = .ok (.handles [.net (.flat ⟨1⟩)]) ∧
    Reply.Flat (.handles [.net (.flat ⟨1⟩)]) := by
  have hdbs : ∃ db db', Database.Reachable db ∧ Database.Reachable db' ∧ db.SameFlat db' ∧
      db.design?.map (fun d => d.itermModNets.entries) = some [] ∧
      db'.design?.map (fun d => d.itermModNets.entries) = some [(⟨1⟩, ⟨1⟩)] ∧
      (do return (← (Network.new .flat).loadDatabase db).ask (.netOf (.flat ⟨1⟩))) =
        (.ok (.ok (.handles [.net (.flat ⟨1⟩)])) : Except Fault _) := by
    refine ⟨_, _, ReflTransGen.refl
      |>.tail (@Database.Step.createLib _ "cells" _ _ rfl)
      |>.tail (@Database.Step.createMaster _ ⟨1⟩ "BUF" _ _ rfl)
      |>.tail (@Database.Step.createMTerm _ ⟨1⟩ "A" .signal .input _ _ rfl)
      |>.tail (@Database.Step.createDesign _ "top" _ _ rfl)
      |>.tail (@Database.Step.createInst _ ⟨1⟩ "a/u" none _ _ rfl)
      |>.tail (.design rfl (@Design.Step.createNet _ "x" _ _ rfl))
      |>.tail (.design rfl (.attachITerm ⟨1⟩ ⟨1⟩)), ReflTransGen.refl
      |>.tail (@Database.Step.createLib _ "cells" _ _ rfl)
      |>.tail (@Database.Step.createMaster _ ⟨1⟩ "BUF" _ _ rfl)
      |>.tail (@Database.Step.createMTerm _ ⟨1⟩ "A" .signal .input _ _ rfl)
      |>.tail (@Database.Step.createDesign _ "top" _ _ rfl)
      |>.tail (.design rfl (@Design.Step.createModule _ "A" _ _ rfl))
      |>.tail (.design rfl (@Design.Step.createModInst _ ⟨1⟩ ⟨2⟩ "a" _ _ rfl))
      |>.tail (@Database.Step.createInst _ ⟨1⟩ "a/u" (some ⟨2⟩) _ _ rfl)
      |>.tail (.design rfl (@Design.Step.createNet _ "x" _ _ rfl))
      |>.tail (.design rfl (@Design.Step.createModNet _ ⟨2⟩ "n" _ _ rfl))
      |>.tail (.design rfl (.attachITerm ⟨1⟩ ⟨1⟩))
      |>.tail (.design rfl (.attachITermToModNet ⟨1⟩ ⟨1⟩)), ?_, ?_, ?_, ?_⟩
    · exact ⟨rfl, rfl, rfl, .some ⟨rfl, rfl, rfl, rfl, rfl, fun _ => rfl, fun _ => rfl,
        fun _ => rfl⟩⟩
    · rfl
    · rfl
    · cbv
  obtain ⟨db, db', hdb, hdb', hsame, hnets, hnets', hrun⟩ := hdbs
  have hnew : LoadedAlike (.new .flat) (.new .flat) := .new rfl
  obtain ⟨n, m, e, e', h⟩ := hnew.flat_view.2 db db' hdb hdb' hsame
  have hq : Question.Flat (.netOf (.flat ⟨1⟩)) := fun _ hh => by
    cases hh
    rfl
  obtain ⟨hask, hflat⟩ := h.flat_view.1 _ hq
  have hn : n.ask (.netOf (.flat ⟨1⟩)) = .ok (.handles [.net (.flat ⟨1⟩)]) := by
    rw [e] at hrun
    exact pure_eq_ok.1 hrun
  rw [← loadDatabase_db e] at hnets
  rw [← loadDatabase_db e'] at hnets'
  exact ⟨n, m, h, hnets, hnets', hq, hn, hask.trans hn, hflat _ hn⟩

end LoadedAlike

end Network
end DesignView
