import DesignView.Proofs.Network.History

/-!
Connectivity. A walk through the module boundaries ends, whatever the hierarchy looks like, and it
finds what the tables of the design say. To be connected is an equivalence of nets, and the nets of
one class see the same pins.
-/

namespace DesignView.Network

variable {n : Network} {d : Design} {a b x : Net} {p : Pin}

theorem Sound.connectedFrom_ok (h : n.Sound) (hd : n.design? = some d) (a : Net)
    (visited : List Net) : ∃ grown pins, n.connectedFrom a visited = .ok (visited ++ grown, pins) ∧
      grown.Nodup ∧ (∀ x, x ∈ grown ↔ d.ReachedOutside visited a x) ∧ pins.Nodup ∧
      ∀ p, p ∈ pins ↔ (∃ x ∈ grown, d.Meets x p) ∧ n.isSignal p = .ok true :=
  h.sweepFrom_ok hd (fun _ hp => h.isSignal_ok hd hp) a visited

theorem Sound.meets_iff (h : n.Sound) (hd : n.design? = some d) :
    d.Meets x p ↔ p ∈ n.listedOn x ∨ ∃ q ∈ n.listedOn x, d.Faces q p := by
  simp only [Design.Meets, h.mem_listedOn hd]

/-- A walk ends. It adds to the visited nets those that are reached outside of them, and it meets
every pin once that is on an added net or faces a pin there; the supply pins are passed over.
Without a design there are no nets to walk. -/
theorem Reachable.connectedFrom_exact (h : n.Reachable) (a : Net) (visited : List Net) :
    ∃ grown pins, n.connectedFrom a visited = .ok (visited ++ grown, pins) ∧
      grown.Nodup ∧ pins.Nodup ∧ (n.design? = none → grown = [] ∧ pins = []) ∧
      ∀ d, n.design? = some d → (∀ x, x ∈ grown ↔ d.ReachedOutside visited a x) ∧
        ∀ p, p ∈ pins ↔ (∃ x ∈ grown, p ∈ n.listedOn x ∨ ∃ q ∈ n.listedOn x, d.Faces q p) ∧
          n.isSupply p = .ok false := by
  have hs := h.current.sound
  cases hd : n.design? with
  | none =>
    have hwalk : n.connectedFrom a visited = .ok (visited ++ [], []) := by
      rw [connectedFrom, sweepFrom, hd, List.append_nil]
    exact ⟨[], [], hwalk, List.nodup_nil, List.nodup_nil, fun _ => ⟨rfl, rfl⟩,
      fun d hd' => by cases hd'⟩
  | some d =>
    obtain ⟨grown, pins, hwalk, hnodup, hgrown, hnodup', hpins⟩ := hs.connectedFrom_ok hd a visited
    refine ⟨grown, pins, hwalk, hnodup, hnodup', (fun hnone => by cases hnone), fun d' hd' => ?_⟩
    cases hd'
    refine ⟨hgrown, fun p => ?_⟩
    rw [hpins, isSignal_eq_ok]
    simp only [hs.meets_iff hd, Bool.not_true]

theorem exists_crossing : ∃ n d, Reachable n ∧ n.design? = some d ∧
    d.Joins (.module ⟨1⟩) (.module ⟨2⟩) := by
  have hdb : ∃ db d, Database.Reachable db ∧ d.Joins (.module ⟨1⟩) (.module ⟨2⟩) ∧
      ∃ n, (Network.new {}).loadDatabase db = .ok n ∧ n.design? = some d := by
    refine ⟨_, _, Relation.ReflTransGen.refl
      |>.tail (@Database.Step.createDesign _ "top" _ _ rfl)
      |>.tail (.design rfl (@Design.Step.createModule _ "cell" _ _ rfl))
      |>.tail (.design rfl (@Design.Step.createModInst _ ⟨1⟩ ⟨2⟩ "u" _ _ rfl))
      |>.tail (.design rfl (@Design.Step.createModITerm _ ⟨1⟩ "a" _ _ rfl))
      |>.tail (.design rfl (@Design.Step.createModBTerm _ ⟨2⟩ "a" _ _ rfl))
      |>.tail (.design rfl (@Design.Step.createModNet _ ⟨1⟩ "x" _ _ rfl))
      |>.tail (.design rfl (@Design.Step.createModNet _ ⟨2⟩ "y" _ _ rfl))
      |>.tail (.design rfl (.attachModITerm ⟨1⟩ ⟨1⟩))
      |>.tail (.design rfl (.attachModBTerm ⟨1⟩ ⟨2⟩)), ?_, ⟨_, rfl, rfl⟩⟩
    exact ⟨.module ⟨1⟩, .moduleBoundary ⟨1⟩, rfl, ⟨_, _, _, rfl, rfl, rfl, rfl, rfl⟩, rfl⟩
  obtain ⟨db, d, hdb, hj, n, e, hd⟩ := hdb
  exact ⟨n, d, ⟨_, .single (.load (.loadDatabase hdb e))⟩, hd, hj⟩

theorem connectedFrom_crossing : ∃ n grown pins, Reachable n ∧
    n.connectedFrom (.module ⟨1⟩) [] = .ok (grown, pins) ∧
    .module ⟨1⟩ ∈ grown ∧ .module ⟨2⟩ ∈ grown := by
  obtain ⟨n, d, h, hd, hj⟩ := exists_crossing
  obtain ⟨grown, pins, hwalk, -, -, -, hexact⟩ := h.connectedFrom_exact (.module ⟨1⟩) []
  obtain ⟨hgrown, -⟩ := hexact d hd
  have hstart : d.ReachedOutside [] (.module ⟨1⟩) (.module ⟨1⟩) := ⟨List.not_mem_nil, .refl⟩
  exact ⟨n, grown, pins, h, hwalk, (hgrown _).2 hstart,
    (hgrown _).2 (hstart.tail hj List.not_mem_nil)⟩

/-- The net `b` is among the nets connected to `a`. -/
def Connects (n : Network) (a b : Net) : Prop := ∃ xs, n.connectedNets a = .ok xs ∧ b ∈ xs

theorem Sound.connects_iff (h : n.Sound) (hd : n.design? = some d) :
    n.Connects a b ↔ d.Joined a b := by
  obtain ⟨xs, hxs, hmem⟩ := h.connectedNets_ok hd a
  constructor
  · rintro ⟨xs', hxs', hb⟩
    obtain rfl : xs = xs' := Except.ok.inj (hxs.symm.trans hxs')
    exact (hmem b).1 hb
  · exact fun hj => ⟨xs, hxs, (hmem b).2 hj⟩

theorem Sound.connectedPins_ok (h : n.Sound) (hd : n.design? = some d) (a : Net) :
    ∃ pins, n.connectedPins a = .ok pins ∧ pins.Nodup ∧
      ∀ p, p ∈ pins ↔ (∃ x, d.Joined a x ∧ d.Meets x p) ∧ n.isSignal p = .ok true := by
  obtain ⟨grown, pins, hwalk, -, hgrown, hnodup, hpins⟩ := h.connectedFrom_ok hd a []
  refine ⟨pins, bind_eq_ok.2 ⟨_, hwalk, rfl⟩, hnodup, fun p => ?_⟩
  simp only [hpins, hgrown, Design.reachedOutside_nil]

/-- Connected nets have the same connected nets and the same connected pins. -/
theorem Reachable.connects_equivalence (h : n.Reachable) (hd : n.design? = some d) :
    Equivalence n.Connects ∧ ∀ a b, n.Connects a b → ∃ xs ys ps qs,
      n.connectedNets a = .ok xs ∧ n.connectedNets b = .ok ys ∧ (∀ x, x ∈ xs ↔ x ∈ ys) ∧
      n.connectedPins a = .ok ps ∧ n.connectedPins b = .ok qs ∧ ps.Perm qs := by
  have hs := h.current.sound
  refine ⟨⟨fun a => ?_, fun hab => ?_, fun hab hbc => ?_⟩, fun a b hab => ?_⟩
  · exact (hs.connects_iff hd).2 .refl
  · exact (hs.connects_iff hd).2 ((hs.connects_iff hd).1 hab).symm
  · exact (hs.connects_iff hd).2 (((hs.connects_iff hd).1 hab).trans ((hs.connects_iff hd).1 hbc))
  · have hj : d.Joined a b := (hs.connects_iff hd).1 hab
    have hjoined (x : Net) : d.Joined a x ↔ d.Joined b x := ⟨hj.symm.trans, hj.trans⟩
    obtain ⟨xs, hxs, hmemxs⟩ := hs.connectedNets_ok hd a
    obtain ⟨ys, hys, hmemys⟩ := hs.connectedNets_ok hd b
    obtain ⟨ps, hps, hnodupps, hmemps⟩ := hs.connectedPins_ok hd a
    obtain ⟨qs, hqs, hnodupqs, hmemqs⟩ := hs.connectedPins_ok hd b
    refine ⟨xs, ys, ps, qs, hxs, hys, fun x => ?_, hps, hqs, ?_⟩
    · rw [hmemxs, hmemys, hjoined]
    · refine (List.perm_ext_iff_of_nodup hnodupps hnodupqs).2 fun p => ?_
      simp only [hmemps, hmemqs, hjoined]

theorem connects_crossing : ∃ n, Reachable n ∧ n.Connects (.module ⟨1⟩) (.module ⟨2⟩) ∧
    n.Connects (.module ⟨2⟩) (.module ⟨1⟩) := by
  obtain ⟨n, d, h, hd, hj⟩ := exists_crossing
  have hconnects : n.Connects (.module ⟨1⟩) (.module ⟨2⟩) :=
    (h.current.sound.connects_iff hd).2 (.single hj)
  exact ⟨n, h, hconnects, (h.connects_equivalence hd).1.symm hconnects⟩

end DesignView.Network
