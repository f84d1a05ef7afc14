import DesignView.Proofs.Network.Drivers
import DesignView.Proofs.Network.Terms

/-!
Questions about what is there have answers. Every record of the design, every kept answer and the
index of boundary terminals refer to live objects only, and so no question that starts from a live
handle runs into one that is gone.
-/

namespace DesignView

namespace Design

def LiveInstance (d : Design) : Instance → Prop
  | .top => True
  | .flat id => id ∈ d.insts.ids
  | .module id => id ∈ d.modInsts.ids

/-- Everything that a record refers to exists. -/
structure RefersToLive (d : Design) : Prop where
  topModule : d.topModule ∈ d.modules.ids
  instModule : d.insts.Owned (·.module) d.modules
  itermInst : d.iterms.Owned (·.inst) d.insts
  modInstParent : d.modInsts.Owned (·.parent) d.modules
  modInstMaster : d.modInsts.Owned (·.master) d.modules
  modITermModInst : d.modITerms.Owned (·.modInst) d.modInsts
  modBTermModule : d.modBTerms.Owned (·.module) d.modules
  modNetModule : d.modNets.Owned (·.module) d.modules
  net : ∀ p x, d.On p x → d.Live p ∧ d.LiveNet x

theorem WellFormed.refersToLive {d : Design} (h : d.WellFormed) : d.RefersToLive where
  topModule := h.topModule
  instModule := h.instModule
  itermInst := h.itermInst
  modInstParent := h.modInstParent
  modInstMaster := h.modInstMaster
  modITermModInst := h.modITermModInst
  modBTermModule := h.modBTermModule
  modNetModule := h.modNetModule
  net _ _ := h.live_of_on

end Design

def Answered {α : Type} (answer : Except Fault α) : Prop := ∃ a, answer = .ok a

namespace Network

variable {n : Network} {d : Design} {i : Instance} {p : Pin} {x : Net} {t : Term}

structure InstanceAnswered (n : Network) (i : Instance) : Prop where
  children : Answered (n.children i)
  parent : Answered (n.parent i)
  cell : Answered (n.cellOf i)
  pins : Answered (n.pinsOf i)
  nets : Answered (n.netsOf i)

structure PinAnswered (n : Network) (p : Pin) : Prop where
  owner : Answered (n.ownerOf p)
  port : Answered (n.portOf p)
  direction : Answered (n.direction p)
  supply : Answered (n.isSupply p)
  term : Answered (n.termOf p)
  net : Answered (n.netOf p)

structure TermAnswered (n : Network) (t : Term) : Prop where
  pin : Answered (n.pinOfTerm t)
  net : Answered (n.netOfTerm t)

structure NetAnswered (n : Network) (x : Net) : Prop where
  pins : Answered (n.pinsOn x)
  scope : Answered (n.scopeOf x)
  connectedPins : Answered (n.connectedPins x)
  connectedNets : Answered (n.connectedNets x)
  drivers : Answered (n.driversOf x)
  power : Answered (n.isPower x)
  ground : Answered (n.isGround x)
  constant : Answered (n.constantOf x)

theorem answered_of_mem {k : Kind} {α β : Type} {table : Design → Table k α} {id : Id k}
    {f : Design → α → β} (hd : n.design? = some d) (hid : id ∈ (table d).ids) :
    Answered (do
      let d ← n.design
      return f d (← (table d).fetch id)) := by
  obtain ⟨a, -, hfetch⟩ := fetch_of_mem hid
  exact ⟨f d a, bind_eq_ok.2 ⟨d, design_eq_ok.2 hd, bind_eq_ok.2 ⟨a, hfetch, rfl⟩⟩⟩

theorem Sound.signals_answered (h : n.Sound) (hd : n.design? = some d) {pins : List Pin}
    (hpins : ∀ p ∈ pins, d.Live p) : Answered (keepM n.isSignal pins) := by
  obtain ⟨ys, hys, -⟩ := keepM_ok fun p hp => h.isSignal_ok hd (hpins p hp)
  exact ⟨ys, hys⟩

theorem Sound.pinsOf_answered (h : n.Sound) (hd : n.design? = some d) (hi : d.LiveInstance i) :
    Answered (n.pinsOf i) := by
  have hwf := h.db.design hd
  cases i with
  | top =>
    simp only [pinsOf, hd]
    refine h.signals_answered hd fun p hp => ?_
    obtain ⟨b, hb, rfl⟩ := List.mem_map.1 hp
    exact hb
  | flat id =>
    obtain ⟨a, -, hfetch⟩ := fetch_of_mem hi
    simp only [pinsOf, hd, Design.inst, hfetch]
    refine h.signals_answered hd fun p hp => ?_
    obtain ⟨e, he, rfl⟩ := List.mem_map.1 hp
    exact Table.mem_ids_of_find? (hwf.iterms.mem_select.1 he).1
  | module id =>
    obtain ⟨a, -, hfetch⟩ := fetch_of_mem hi
    simp only [pinsOf, hd, Design.modInst, hfetch]
    refine h.signals_answered hd fun p hp => ?_
    obtain ⟨e, he, rfl⟩ := List.mem_map.1 hp
    exact Table.mem_ids_of_find? (hwf.modITerms.mem_select.1 he).1

theorem Sound.instanceAnswered (h : n.Sound) (hn : n.hierarchy = true) (hd : n.design? = some d)
    (hi : d.LiveInstance i) : n.InstanceAnswered i := by
  have hpins := h.pinsOf_answered hd hi
  cases i with
  | top =>
    refine ⟨?_, ⟨_, rfl⟩, ⟨_, rfl⟩, hpins, ?_⟩
    · simp only [children, hd]
      exact ⟨_, rfl⟩
    · simp only [netsOf, hd]
      exact ⟨_, rfl⟩
  | flat id =>
    refine ⟨?_, ?_, ?_, hpins, ?_⟩
    · simp only [children, hd]
      exact ⟨_, rfl⟩
    · simp only [parent, hn]
      exact answered_of_mem hd hi
    · exact answered_of_mem hd hi
    · simp only [netsOf, hd]
      exact ⟨_, rfl⟩
  | module id =>
    obtain ⟨a, -, hfetch⟩ := fetch_of_mem hi
    refine ⟨?_, ?_, ?_, hpins, ?_⟩
    · simp only [children, hd, requireHierarchy, hn, Design.modInst, hfetch]
      exact ⟨_, rfl⟩
    · exact answered_of_mem hd hi
    · exact answered_of_mem hd hi
    · simp only [netsOf, hd, Design.modInst, hfetch]
      exact ⟨_, rfl⟩

theorem Sound.portOf_answered (h : n.Sound) (hd : n.design? = some d) (hp : d.Live p) :
    Answered (n.portOf p) := by
  cases p with
  | flat t =>
    obtain ⟨a, -, hfetch⟩ := fetch_of_mem hp
    simp only [portOf, hd, Design.iterm, hfetch]
    exact ⟨_, rfl⟩
  | boundary t =>
    obtain ⟨a, -, hfetch⟩ := fetch_of_mem hp
    simp only [portOf, hd, Design.bterm, hfetch]
    cases n.catalog.topCell? <;> exact ⟨_, rfl⟩
  | module t =>
    obtain ⟨r, hr, -⟩ := h.innerOf_ok hd hp
    simp only [portOf, hd, hr]
    exact ⟨_, rfl⟩
  | moduleBoundary t =>
    simp only [portOf, hd]
    exact ⟨_, rfl⟩

theorem Sound.direction_answered (h : n.Sound) (hd : n.design? = some d) (hp : d.Live p) :
    Answered (n.direction p) := by
  have htimed : ∃ r, n.timedDirection? p = .ok r := by
    cases p with
    | flat t => exact bind_ok_exists (h.portOf_answered hd hp) fun _ => ⟨_, rfl⟩
    | boundary | module | moduleBoundary => exact ⟨none, rfl⟩
  refine bind_ok_exists htimed fun r => ?_
  cases r with
  | some direction => exact ⟨direction, rfl⟩
  | none =>
    refine bind_ok_exists (h.typesOf_ok hd hp) fun types? => ?_
    cases types? <;> exact ⟨_, rfl⟩

theorem Sound.pinAnswered (h : n.Sound) (hd : n.design? = some d) (hp : d.Live p) :
    n.PinAnswered p := by
  refine ⟨?_, h.portOf_answered hd hp, h.direction_answered hd hp, h.isSupply_ok hd hp, ?_, ?_⟩
  · cases p with
    | boundary => exact ⟨.top, bind_eq_ok.2 ⟨d, design_eq_ok.2 hd, rfl⟩⟩
    | flat | module | moduleBoundary => exact answered_of_mem hd hp
  · cases p with
    | module t =>
      obtain ⟨r, hr, -⟩ := h.innerOf_ok hd hp
      exact ⟨_, bind_eq_ok.2 ⟨r, hr, rfl⟩⟩
    | flat | boundary | moduleBoundary => exact ⟨_, rfl⟩
  · cases p
    all_goals
      obtain ⟨a, -, hfetch⟩ := fetch_of_mem hp
      simp only [netOf, hd, Design.iterm, Design.bterm, Design.modITerm, Design.modBTerm, hfetch]
      exact ⟨_, rfl⟩

theorem live_pin (ht : d.LiveTerm t) : d.Live t.pin := by
  cases t <;> exact ht

theorem Sound.termAnswered (h : n.Sound) (hd : n.design? = some d) (ht : d.LiveTerm t) :
    n.TermAnswered t := by
  refine ⟨?_, (h.pinAnswered hd (live_pin ht)).net⟩
  cases t with
  | boundary b => exact ⟨_, rfl⟩
  | moduleBoundary b =>
    obtain ⟨p, hp, -⟩ := h.pinOfTerm_moduleBoundary hd ht
    exact ⟨p, hp⟩

theorem Sound.live_of_listed (h : n.Sound) (hd : n.design? = some d) (hp : p ∈ n.listedOn x) :
    d.Live p :=
  ((h.db.design hd).live_of_on ((h.mem_listedOn hd).1 hp)).1

theorem Sound.carries_answered (h : n.Sound) (hd : n.design? = some d) (sig : SigType) :
    Answered (n.carries x sig) := by
  cases x with
  | flat id => exact ⟨_, rfl⟩
  | module id =>
    refine anyM_ok_exists fun p hp => ?_
    have hlive := h.live_of_listed hd (List.mem_of_mem_filter hp)
    exact bind_ok_exists (h.typesOf_ok hd hlive) fun _ => ⟨_, rfl⟩

theorem Current.netAnswered (h : n.Current) (hd : n.design? = some d) (hx : d.LiveNet x) :
    n.NetAnswered x := by
  have hs := h.sound
  have hpower : Answered (n.isPower x) := hs.carries_answered hd _
  have hground : Answered (n.isGround x) := hs.carries_answered hd _
  refine ⟨?_, ?_, ?_, ?_, ?_, hpower, hground, ?_⟩
  · exact hs.signals_answered hd fun p => hs.live_of_listed hd
  · cases x with
    | flat => exact ⟨_, rfl⟩
    | module => exact answered_of_mem hd hx
  · obtain ⟨pins, hpins, -⟩ := hs.connectedPins_ok hd x
    exact ⟨pins, hpins⟩
  · obtain ⟨xs, hxs, -⟩ := hs.connectedNets_ok hd x
    exact ⟨xs, hxs⟩
  · cases ha : n.drivers.find? x with
    | some pins => exact ⟨_, driversOf_kept ha⟩
    | none =>
      obtain ⟨pins, hpins, -⟩ := hs.driversOf_new ha
      exact ⟨_, hpins⟩
  · cases x with
    | flat => exact ⟨_, rfl⟩
    | module id =>
      refine bind_ok_exists hpower fun power => ?_
      cases power with
      | true => exact ⟨_, rfl⟩
      | false =>
        refine bind_ok_exists hground fun ground => ?_
        cases ground <;> exact ⟨_, rfl⟩

/-- Whatever was asked of the network before, every question about a live handle has an answer.
Nothing that the network holds refers to an object that is gone: neither the records of the design,
nor the index of boundary terminals, nor the kept drivers, nor what is listed on a net. -/
theorem Reachable.live_answered (h : n.Reachable) (hn : n.hierarchy = true)
    (hd : n.design? = some d) :
    (∀ i, d.LiveInstance i → n.InstanceAnswered i) ∧
    (∀ p, d.Live p → n.PinAnswered p) ∧
    (∀ x, d.LiveNet x → n.NetAnswered x) ∧
    (∀ t, d.LiveTerm t → n.TermAnswered t) ∧
    d.RefersToLive ∧
    (∀ e ∈ n.catalog.boundaries.entries, d.Live (.moduleBoundary e.2)) ∧
    (∀ x pins, n.drivers.find? x = some pins → ∀ p ∈ pins, d.Live p) ∧
    ∀ x, (∀ p ∈ n.listedOn x, d.Live p) ∧ ∀ t ∈ n.termsOn x, d.LiveTerm t := by
  have hcurrent := h.current
  have hs : n.Sound := hcurrent.sound
  have hwf : d.WellFormed := hs.db.design hd
  refine ⟨fun i => hs.instanceAnswered hn hd, fun p => hs.pinAnswered hd,
    fun x => hcurrent.netAnswered hd, fun t => hs.termAnswered hd, hwf.refersToLive, ?_, ?_,
    fun x => ⟨fun p => hs.live_of_listed hd, fun t ht => ?_⟩⟩
  · rintro ⟨⟨m, name⟩, b⟩ he
    -- The index says what the design says now, so a terminal that it knows is one of the design.
    have hindex : d.modBTermNamed? m name = some b := by
      rw [← hs.boundaries hd]
      exact OrderedMap.find?_of_mem hs.boundaryKeys he
    obtain ⟨inner, hinner, -⟩ := (hwf.modBTermNames.firstIn?_eq_some_iff hwf.modBTerms).1 hindex
    exact Table.mem_ids_of_find? hinner
  · intro x pins hkept p hp
    -- A kept driver is on a net that is joined to `x`, and what is on a net is live.
    obtain ⟨y, -, hon⟩ := (reads_iff hd).1 ((hcurrent.kept hkept).reads p hp)
    exact (hwf.live_of_on hon).1
  · obtain ⟨p, hp, hterm⟩ := List.mem_filterMap.1 ht
    have hlive : d.Live p := hs.live_of_listed hd hp
    cases p <;> cases hterm <;> exact hlive

theorem live_answered_module : ∃ n d, Reachable n ∧ n.hierarchy = true ∧ n.design? = some d ∧
    n.InstanceAnswered (.module ⟨1⟩) ∧ n.PinAnswered (.module ⟨1⟩) ∧
    n.NetAnswered (.module ⟨1⟩) ∧ n.TermAnswered (.moduleBoundary ⟨1⟩) ∧
    n.drivers.find? (.module ⟨1⟩) = some [.boundary ⟨1⟩] ∧ d.Live (.boundary ⟨1⟩) := by
  have hrun : ∃ db, Database.Reachable db ∧ (do
      let n ← (Network.new .hierarchical).loadDatabase db
      let r ← n.driversOf (.module ⟨1⟩)
      return (r.2.hierarchy, r.2.drivers.find? (.module ⟨1⟩), r.2.design?.map fun d =>
        (d.modInsts.ids, d.modITerms.ids, d.modNets.ids, d.modBTerms.ids))) =
        (.ok (true, some [.boundary ⟨1⟩], some ([⟨1⟩], [⟨1⟩], [⟨1⟩], [⟨1⟩])) :
          Except Fault (Bool × Option (List Pin) × Option
            (List ModInstId × List ModITermId × List ModNetId × List ModBTermId))) := by
    refine ⟨_, Relation.ReflTransGen.refl
      |>.tail (@Database.Step.createDesign _ "top" _ _ rfl)
      |>.tail (.design rfl (@Design.Step.createModule _ "cell" _ _ rfl))
      |>.tail (.design rfl (@Design.Step.createModInst _ ⟨1⟩ ⟨2⟩ "u" _ _ rfl))
      |>.tail (.design rfl (@Design.Step.createModITerm _ ⟨1⟩ "a" _ _ rfl))
      |>.tail (.design rfl (@Design.Step.createModBTerm _ ⟨2⟩ "a" _ _ rfl))
      |>.tail (.design rfl (@Design.Step.createModNet _ ⟨1⟩ "x" _ _ rfl))
      |>.tail (.design rfl (@Design.Step.createBTerm _ "in" none _ _ rfl))
      |>.tail (.design rfl (.attachBTermToModNet ⟨1⟩ ⟨1⟩))
      |>.tail (.design rfl (.attachModITerm ⟨1⟩ ⟨1⟩)), ?_⟩
    cbv
  obtain ⟨db, hdb, hrun⟩ := hrun
  obtain ⟨n, e₁, hrun⟩ := bind_eq_ok.1 hrun
  obtain ⟨⟨pins, n'⟩, e₂, hrun⟩ := bind_eq_ok.1 hrun
  obtain ⟨hn, hrun⟩ := Prod.mk.inj (pure_eq_ok.1 hrun)
  obtain ⟨hkept, hids⟩ := Prod.mk.inj hrun
  obtain ⟨d, hd, hids⟩ := Option.map_eq_some_iff.1 hids
  obtain ⟨hinsts, hids⟩ := Prod.mk.inj hids
  obtain ⟨hterms, hids⟩ := Prod.mk.inj hids
  obtain ⟨hnets, hinner⟩ := Prod.mk.inj hids
  have h : Reachable n' := ⟨.hierarchical, .tail (.single (.load (.loadDatabase hdb e₁)))
    (.query (.driversOf e₂))⟩
  have hfirst {k : Kind} {ids : List (Id k)} (hids : ids = [⟨1⟩]) : ⟨1⟩ ∈ ids :=
    hids ▸ List.mem_singleton_self _
  obtain ⟨hinstance, hpin, hnet, hterm, -, -, hdrivers, -⟩ := h.live_answered hn hd
  exact ⟨n', d, h, hn, hd, hinstance (.module ⟨1⟩) (hfirst hinsts),
    hpin (.module ⟨1⟩) (hfirst hterms), hnet (.module ⟨1⟩) (hfirst hnets),
    hterm (.moduleBoundary ⟨1⟩) (hfirst hinner), hkept,
    hdrivers _ _ hkept _ (List.mem_singleton_self _)⟩

end Network
end DesignView
