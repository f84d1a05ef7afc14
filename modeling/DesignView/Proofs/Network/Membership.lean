import DesignView.Proofs.Network.Origin
import Mathlib

/-!
What wiring reports and what it has done. A pin that is reported as connected is on the net, on no
other net of the kind, and on its net of the other kind as before; if nothing is reported, every net
lists what it listed. One entry point reports a pin also where the connection was refused.
-/

namespace DesignView

open Relation (ReflTransGen)

def Pin.Takes (p : Pin) : Net → Prop
  | .flat _ => p.isHierarchical = false
  | .module _ => True

namespace Design

variable {d d' : Design} {p q : Pin} {x y : Net}

theorem On.takes (h : d.On p x) : p.Takes x := by
  cases x with
  | flat y => cases p <;> first | rfl | cases h
  | module y => trivial

theorem attach?_on (hp : d.Live p) (hx : d.LiveNet x) (e : d.attach? p x = some d') :
    d'.On p y ↔ if y.object.kind = x.object.kind then y = x else d.On p y := by
  cases p <;> cases x
  case module.flat | moduleBoundary.flat => cases e
  all_goals
    cases e
    have hends := And.intro (Table.contains_iff.2 hp) (Table.contains_iff.2 hx)
    cases y <;> simp [On, flatNet?, moduleNet?, attachITerm, attachITermToModNet, attachBTerm,
      attachBTermToModNet, attachModITerm, attachModBTerm, Attachments.netOf_move, hends,
      Net.object, Id.object, eq_comm]

end Design

namespace Network

variable {n n' n₁ : Network} {d d' : Design} {p q : Pin} {x y : Net} {name : String}

def Unmoved (n n' : Network) : Prop := ∀ y, n'.listedOn y = n.listedOn y

/-- The pin has come to the net, and nothing else is on other nets than before. -/
structure Connected (n n' : Network) (p : Pin) (x : Net) : Prop where
  listed : p ∈ n'.listedOn x
  off : ∀ y, y.object.kind = x.object.kind → p ∈ n'.listedOn y → y = x
  other : ∀ y, y.object.kind ≠ x.object.kind → (p ∈ n'.listedOn y ↔ p ∈ n.listedOn y)
  rest : ∀ q, q ≠ p → ∀ y, q ∈ n'.listedOn y ↔ q ∈ n.listedOn y

/-- A pin is reported exactly if it has been connected; without a report nothing has moved. -/
structure Reports (n n' : Network) (x : Net) (r : Option Pin) : Prop where
  accepted : ∀ p ∈ r, n.Connected n' p x
  refused : r = none → n.Unmoved n'

theorem listedOn_withDesign (hd : n.design? = some d) (hi : d'.itermNets = d.itermNets)
    (him : d'.itermModNets = d.itermModNets) (hb : d'.btermNets = d.btermNets)
    (hbm : d'.btermModNets = d.btermModNets) (hmi : d'.modITermNets = d.modITermNets)
    (hmb : d'.modBTermNets = d.modBTermNets) (y : Net) :
    (n.withDesign d').listedOn y = n.listedOn y := by
  have hd' : (n.withDesign d').design? = some d' := rfl
  simp only [listedOn, hd, hd', hi, him, hb, hbm, hmi, hmb]

theorem connectPin_module {y : ModNetId} {b : Bool} (e : n.connectPin p (.module y) = .ok (b, n')) :
    b = true := by
  cases p
  all_goals
    obtain ⟨n₁, -, e⟩ := bind_eq_ok.1 e
    obtain ⟨d, -, e⟩ := bind_eq_ok.1 e
    obtain ⟨n₂, -, e⟩ := bind_eq_ok.1 e
    cases pure_eq_ok.1 e
    rfl

theorem connectPin_spec {b : Bool} (e : n.connectPin p x = .ok (b, n')) :
    (¬p.Takes x ∧ b = false ∧ n.Unmoved n') ∨
      (p.Takes x ∧ b = true ∧ ∃ m d d', n.design? = some d ∧ d.attach? p x = some d' ∧
        n' = { n.withDesign d' with drivers := m }) := by
  rcases of_connectPin e with ⟨rfl, hp, text, rfl⟩ | ⟨rfl, n₁, d, d', e₁, hd₁, hattach, e₂⟩
  · refine .inl ⟨fun htakes => ?_, rfl, fun _ => rfl⟩
    cases x with
    | flat y => cases htakes.symm.trans hp
    | module y => cases connectPin_module e
  · obtain ⟨m, rfl⟩ := exists_of_beforeDetach e₁
    obtain ⟨m', rfl⟩ := exists_of_afterAttach e₂
    refine .inr ⟨?_, rfl, m', d, d', hd₁, hattach, rfl⟩
    cases p <;> cases x <;> first | rfl | trivial

theorem connectPin_connected (hd : n.design? = some d) (hwf : d.WellFormed) (hp : d.Live p)
    (hx : d.LiveNet x) {b : Bool} (e : n.connectPin p x = .ok (b, n')) :
    (b = true ↔ p.Takes x) ∧ (b = true → n.Connected n' p x) ∧ (b = false → n.Unmoved n') := by
  rcases connectPin_spec e with ⟨htakes, rfl, hsame⟩ | ⟨htakes, rfl, m, d₁, d', hd₁, hattach, rfl⟩
  · exact ⟨iff_of_false Bool.false_ne_true htakes, fun h => absurd h Bool.false_ne_true,
      fun _ => hsame⟩
  · obtain rfl : d = d₁ := Option.some.inj (hd.symm.trans hd₁)
    refine ⟨iff_of_true rfl htakes, fun _ => ?_, fun h => absurd h.symm Bool.false_ne_true⟩
    have hbefore {q y} : q ∈ n.listedOn y ↔ d.On q y := mem_listedOn_iff hd hwf
    have hafter {q y} : q ∈ listedOn { n.withDesign d' with drivers := m } y ↔ d'.On q y :=
      mem_listedOn_iff rfl (attach?_wellFormed hwf hattach)
    have hon {y} := Design.attach?_on (y := y) hp hx hattach
    refine ⟨?_, fun y hkind hy => ?_, fun y hkind => ?_, fun q hq y => ?_⟩
    · exact hafter.2 (hon.2 (if_pos rfl ▸ rfl))
    · rw [hafter, hon, if_pos hkind] at hy
      exact hy
    · rw [hafter, hon, if_neg hkind, hbefore]
    · rw [hafter, hbefore]
      exact ((Design.attach?_keeps hattach).agree.on (by simpa using hq) y).symm

theorem reports_none (h : n.Unmoved n') : n.Reports n' x none :=
  ⟨fun _ hp => (by cases hp), fun _ => h⟩

theorem connectFound_reports (hd : n.design? = some d) (hwf : d.WellFormed) (hp : d.Live p)
    (hx : d.LiveNet x) {r : Option Pin} (e : n.connectFound p x = .ok (r, n')) :
    n.Reports n' x r := by
  obtain ⟨⟨b, n₁⟩, e₁, e⟩ := bind_eq_ok.1 e
  obtain ⟨-, haccepted, hrefused⟩ := connectPin_connected hd hwf hp hx e₁
  cases pure_eq_ok.1 e
  cases b with
  | true => exact ⟨fun q hq => Option.some.inj hq ▸ haccepted rfl, fun hr => (by cases hr)⟩
  | false => exact reports_none (hrefused rfl)

structure Prepares (n n' : Network) (x : Net) (p? : Option Pin) : Prop where
  unmoved : n.Unmoved n'
  ready : ∃ d, n'.design? = some d ∧ d.WellFormed ∧ d.LiveNet x ∧ ∀ p ∈ p?, d.Live p

theorem prepares_refl (hd : n.design? = some d) (hwf : d.WellFormed) (hx : d.LiveNet x)
    {p? : Option Pin} (hp : ∀ p ∈ p?, d.Live p) : n.Prepares n x p? :=
  ⟨fun _ => rfl, d, hd, hwf, hx, hp⟩

theorem Connected.of_unmoved (h : n.Unmoved n₁) (hc : n₁.Connected n' p x) :
    n.Connected n' p x where
  listed := hc.listed
  off := hc.off
  other y hy := h y ▸ hc.other y hy
  rest q hq y := h y ▸ hc.rest q hq y

theorem Prepares.connectFound (h : n.Prepares n₁ x (some p)) {r : Option Pin}
    (e : n₁.connectFound p x = .ok (r, n')) : n.Reports n' x r := by
  obtain ⟨d, hd, hwf, hx, hp⟩ := h.ready
  have hreports := connectFound_reports hd hwf (hp p rfl) hx e
  refine ⟨fun q hq => (hreports.accepted q hq).of_unmoved h.unmoved, fun hr y => ?_⟩
  exact (hreports.refused hr y).trans (h.unmoved y)

theorem moduleTerminal_prepares (hd : n.design? = some d) (hwf : d.WellFormed) (hx : d.LiveNet x)
    {modInst : ModInstId} {r : Option ModITermId}
    (e : n.moduleTerminal modInst name = .ok (r, n')) : n.Prepares n' x (r.map .module) := by
  obtain ⟨d₁, hd₁, e⟩ := bind_eq_ok.1 e
  obtain rfl : d = d₁ := Option.some.inj (hd.symm.trans (design_eq_ok.1 hd₁))
  obtain ⟨found?, hfound, e⟩ := bind_eq_ok.1 e
  cases found? with
  | some id =>
    cases pure_eq_ok.1 e
    obtain ⟨_, -, hnamed⟩ := bind_eq_ok.1 hfound
    obtain ⟨a, ha, -⟩ := (hwf.modITermNames.firstIn?_eq_some_iff hwf.modITerms).1
      (pure_eq_ok.1 hnamed)
    exact prepares_refl hd hwf hx fun p hp => Option.some.inj hp ▸ Table.mem_ids_of_find? ha
  | none =>
    cases hc : d.createModITerm modInst name with
    | ok made =>
      obtain ⟨id, d'⟩ := made
      rw [hc] at e
      cases pure_eq_ok.1 e
      have hwf' : d'.WellFormed := hwf.createModITerm hc
      obtain ⟨-, -, rfl, rfl⟩ := Design.createModITerm_ok hc
      have hlive : (d.modITerms.insert ⟨name, modInst⟩).1 ∈
          (d.modITerms.insert ⟨name, modInst⟩).2.ids :=
        Table.mem_ids_of_find? (Table.find?_insert_self ..)
      refine ⟨listedOn_withDesign hd rfl rfl rfl rfl rfl rfl, _, rfl, hwf', ?_, fun p hp => ?_⟩
      · cases x <;> exact hx
      · exact Option.some.inj hp ▸ hlive
    | error refusal =>
      rw [hc] at e
      cases pure_eq_ok.1 e
      exact ⟨fun _ => rfl, d, hd, hwf, hx, fun p hp => (by cases hp)⟩

theorem exists_bterms (hwf : d.WellFormed) {id : BTermId}
    (h : d.btermNamed? name = some id ∧ d' = d ∨ d.createBTerm name none = .ok (id, d')) :
    ∃ bterms, d' = { d with bterms } ∧ d'.WellFormed ∧ id ∈ bterms.ids := by
  rcases h with ⟨hnamed, rfl⟩ | hc
  · obtain ⟨a, ha, -⟩ := (hwf.btermNames.firstWhere?_eq_some_iff hwf.bterms).1 hnamed
    exact ⟨d'.bterms, rfl, hwf, Table.mem_ids_of_find? ha⟩
  · have hwf' : d'.WellFormed := hwf.createBTerm hc
    obtain ⟨-, rfl, hd'⟩ := Design.createBTerm_ok hc
    exact ⟨_, hd', hwf', Table.mem_ids_of_find? (Table.find?_insert_self ..)⟩

theorem topTerminal_prepares (hd : n.design? = some d) (hwf : d.WellFormed) (hx : d.LiveNet x)
    {direction : PortDirection} {r : Option BTermId}
    (e : n.topTerminal name direction = .ok (r, n')) : n.Prepares n' x (r.map .boundary) := by
  obtain ⟨⟨r₁, n₁⟩, e₁, e⟩ := bind_eq_ok.1 e
  rcases of_boundaryTerminal e₁ with ⟨rfl, text, rfl⟩ | ⟨d₁, d', id, hd₁, rfl, rfl, hmade⟩
  · cases pure_eq_ok.1 e
    exact ⟨fun _ => rfl, d, hd, hwf, hx, fun p hp => (by cases hp)⟩
  · obtain rfl : d = d₁ := Option.some.inj (hd.symm.trans hd₁)
    cases htypes : direction.types? with
    | none =>
      simp only [htypes] at e
      cases e
    | some types =>
      simp only [htypes] at e
      obtain ⟨d₂, hd₂, e⟩ := bind_eq_ok.1 e
      cases hd₂
      cases pure_eq_ok.1 e
      obtain ⟨bterms, rfl, hwf', hid⟩ := exists_bterms hwf hmade
      obtain ⟨c, hc, -⟩ := setTopPort_catalog
        (n.withDesign (Design.setBTermTypes { d with bterms } id types.1 types.2)) name direction
      refine ⟨fun y => ?_, _, ?_, hwf'.setBTermTypes id types.1 types.2, ?_, fun p hp => ?_⟩
      · exact hc ▸ listedOn_withDesign hd rfl rfl rfl rfl rfl rfl y
      · exact hc ▸ rfl
      · cases x <;> exact hx
      · exact Option.some.inj hp ▸ Table.mem_ids_modify.2 hid

theorem connectTop_reports (hd : n.design? = some d) (hwf : d.WellFormed) (hx : d.LiveNet x)
    {direction : PortDirection} {r : Option Pin}
    (e : (do
      match ← n.topTerminal name direction with
      | (none, n) => return (none, n)
      | (some id, n) => n.connectFound (.boundary id) x : Except Fault (Option Pin × Network)) =
        .ok (r, n')) : n.Reports n' x r := by
  obtain ⟨⟨r₁, n₁⟩, e₁, e⟩ := bind_eq_ok.1 e
  have hmade := topTerminal_prepares hd hwf hx e₁
  cases r₁ with
  | none =>
    cases pure_eq_ok.1 e
    exact reports_none hmade.unmoved
  | some id => exact hmade.connectFound e

theorem live_of_leafTerminal (hwf : d.WellFormed) {inst : InstId} {port : Port} {t : ITermId}
    (e : leafTerminal d inst port = .ok (some t)) : t ∈ d.iterms.ids := by
  have hnamed {test : ITerm → Bool} (h : d.iterms.firstWhere? test = some t) :
      t ∈ d.iterms.ids := by
    obtain ⟨a, ha, -⟩ := OrderedMap.exists_of_firstKey? hwf.iterms.nodup h
    exact Table.mem_ids_of_find? ha
  unfold leafTerminal at e
  split at e
  all_goals
    obtain ⟨_, -, e⟩ := bind_eq_ok.1 e
    exact hnamed (pure_eq_ok.1 e)

theorem connect_reports (hd : n.design? = some d) (hwf : d.WellFormed) (hx : d.LiveNet x)
    {i : Instance} {port : PortId} {r : Option Pin} (e : n.connect i port x = .ok (r, n')) :
    n.Reports n' x r := by
  unfold Network.connect at e
  split at e
  · cases pure_eq_ok.1 e
    exact reports_none fun _ => rfl
  · next p _ =>
    cases i with
    | top => exact connectTop_reports hd hwf hx e
    | flat id =>
      obtain ⟨d₁, hd₁, e⟩ := bind_eq_ok.1 e
      obtain rfl : d = d₁ := Option.some.inj (hd.symm.trans (design_eq_ok.1 hd₁))
      obtain ⟨t?, ht, e⟩ := bind_eq_ok.1 e
      cases t? with
      | none =>
        cases pure_eq_ok.1 e
        exact reports_none fun _ => rfl
      | some t =>
        have hlive : d.Live (.flat t) := live_of_leafTerminal hwf ht
        exact connectFound_reports hd hwf hlive hx e
    | module id =>
      obtain ⟨⟨r₁, n₁⟩, e₁, e⟩ := bind_eq_ok.1 e
      have hmade := moduleTerminal_prepares hd hwf hx e₁
      cases r₁ with
      | none =>
        cases pure_eq_ok.1 e
        exact reports_none hmade.unmoved
      | some t => exact hmade.connectFound e

theorem connectTiming_reports (hd : n.design? = some d) (hwf : d.WellFormed) (hx : d.LiveNet x)
    {i : Instance} {ref : TimingPortRef} {r : Option Pin}
    (e : n.connectTiming i ref x = .ok (r, n')) : n.Reports n' x r := by
  unfold Network.connectTiming at e
  split at e
  · split at e
    · cases pure_eq_ok.1 e
      exact reports_none fun _ => rfl
    · exact connectTop_reports hd hwf hx e
  · obtain ⟨cell?, -, e⟩ := bind_eq_ok.1 e
    split at e
    · cases pure_eq_ok.1 e
      exact reports_none fun _ => rfl
    · exact connect_reports hd hwf hx e

/-- What making a pin reports: the pin, whether or not it could be connected. -/
structure Makes (n n' : Network) (x : Net) (r : Option Pin) : Prop where
  connected : ∀ p ∈ r, p.Takes x → n.Connected n' p x
  ignored : ∀ p ∈ r, ¬p.Takes x → n.Unmoved n' ∧ p ∉ n'.listedOn x
  refused : r = none → n.Unmoved n'

theorem Prepares.connectMade (h : n.Prepares n₁ x (some p)) {r : Option Pin}
    (e : n₁.connectMade p (some x) = .ok (r, n')) : n.Makes n' x r := by
  obtain ⟨d, hd, hwf, hx, hp⟩ := h.ready
  obtain ⟨⟨b, n₂⟩, e₁, e⟩ := bind_eq_ok.1 e
  cases pure_eq_ok.1 e
  obtain ⟨htakes, haccepted, hrefused⟩ := connectPin_connected hd hwf (hp p rfl) hx e₁
  refine ⟨fun q hq ht => ?_, fun q hq ht => ?_, fun hr => by cases hr⟩
  · cases Option.some.inj hq
    exact (haccepted (htakes.2 ht)).of_unmoved h.unmoved
  · cases Option.some.inj hq
    have hsame : n₁.Unmoved n₂ := hrefused (Bool.eq_false_iff.2 (mt htakes.1 ht))
    refine ⟨fun y => (hsame y).trans (h.unmoved y), fun hlisted => ht ?_⟩
    rw [hsame x] at hlisted
    exact ((mem_listedOn_iff hd hwf).1 hlisted).takes

theorem live_of_pinForPort? (hd : n.design? = some d) (hwf : d.WellFormed) {inst : InstId}
    {port : PortId} (e : n.pinForPort? (.flat inst) port = .ok (some p)) : d.Live p := by
  unfold pinForPort? at e
  split at e
  · cases pure_eq_ok.1 e
  · simp only [pinNamed?, hd] at e
    obtain ⟨t?, ht, e⟩ := bind_eq_ok.1 e
    obtain ⟨t, rfl, rfl⟩ := Option.map_eq_some_iff.1 (pure_eq_ok.1 e)
    obtain ⟨_, -, ht⟩ := bind_eq_ok.1 ht
    obtain ⟨a, ha, -⟩ := (hwf.itermNames.firstIn?_eq_some_iff hwf.iterms).1 (pure_eq_ok.1 ht)
    exact Table.mem_ids_of_find? ha

theorem makePin_makes (hd : n.design? = some d) (hwf : d.WellFormed) (hx : d.LiveNet x)
    {i : Instance} {port : PortId} {r : Option Pin}
    (e : n.makePin i port (some x) = .ok (r, n')) : n.Makes n' x r := by
  have hnone {m : Network} (h : n.Unmoved m) : n.Makes m x none :=
    ⟨fun _ hp => (by cases hp), fun _ hp => (by cases hp), fun _ => h⟩
  unfold Network.makePin at e
  cases i with
  | top =>
    cases pure_eq_ok.1 e
    exact hnone fun _ => rfl
  | flat id =>
    obtain ⟨p?, hp, e⟩ := bind_eq_ok.1 e
    cases p? with
    | none =>
      cases pure_eq_ok.1 e
      exact hnone fun _ => rfl
    | some p =>
      have hlive : d.Live p := live_of_pinForPort? hd hwf hp
      exact (prepares_refl hd hwf hx fun q hq => Option.some.inj hq ▸ hlive).connectMade e
  | module id =>
    cases hp : n.catalog.port? port with
    | none =>
      simp only [hp] at e
      cases pure_eq_ok.1 e
      exact hnone fun _ => rfl
    | some p =>
      simp only [hp] at e
      obtain ⟨⟨r₁, n₁⟩, e₁, e⟩ := bind_eq_ok.1 e
      have hmade := moduleTerminal_prepares hd hwf hx e₁
      cases r₁ with
      | none =>
        cases pure_eq_ok.1 e
        exact hnone hmade.unmoved
      | some t => exact hmade.connectMade e

/-- Whatever was done before, also behind the network's back: connecting a pin or a port to a net
reports exactly what has been done. Making a pin with a net does so if the pin can be on the net; if
it cannot, the pin is reported although it is not on the net and nothing has moved. -/
theorem Accessible.connection_reported (h : n.Accessible) (hd : n.design? = some d)
    (hx : d.LiveNet x) :
    (∀ p b n', d.Live p → n.connectPin p x = .ok (b, n') →
      (b = true ↔ p.Takes x) ∧ (b = true → n.Connected n' p x) ∧ (b = false → n.Unmoved n')) ∧
    (∀ i port r n', n.connect i port x = .ok (r, n') → n.Reports n' x r) ∧
    (∀ i ref r n', n.connectTiming i ref x = .ok (r, n') → n.Reports n' x r) ∧
    ∀ i port r n', n.makePin i port (some x) = .ok (r, n') → n.Makes n' x r := by
  have hwf : d.WellFormed := h.design hd
  refine ⟨fun p b n' hp e => ?_, fun i port r n' e => ?_, fun i ref r n' e => ?_,
    fun i port r n' e => ?_⟩
  · exact connectPin_connected hd hwf hp hx e
  · exact connect_reports hd hwf hx e
  · exact connectTiming_reports hd hwf hx e
  · exact makePin_makes hd hwf hx e

theorem connection_reported_refused : ∃ n n' d, Accessible n ∧ n.design? = some d ∧
    d.LiveNet (.flat ⟨1⟩) ∧
    n.makePin (.module ⟨1⟩) ⟨5⟩ (some (.flat ⟨1⟩)) = .ok (some (.module ⟨1⟩), n') ∧
    .module ⟨1⟩ ∉ n'.listedOn (.flat ⟨1⟩) := by
  have hrun : ∃ db, Database.Reachable db ∧ (do
      let n ← (Network.new .hierarchical).loadDatabase db
      let r ← n.makePin (.module ⟨1⟩) ⟨5⟩ (some (.flat ⟨1⟩))
      return (n.design?.map fun d => d.nets.ids, r.1)) =
        (.ok (some [⟨1⟩], some (.module ⟨1⟩)) : Except Fault (Option (List NetId) × Option Pin)) := by
    refine ⟨_, ReflTransGen.refl
      |>.tail (@Database.Step.createDesign _ "top" _ _ rfl)
      |>.tail (.design rfl (@Design.Step.createModule _ "A" _ _ rfl))
      |>.tail (.design rfl (@Design.Step.createModInst _ ⟨1⟩ ⟨2⟩ "a" _ _ rfl))
      |>.tail (.design rfl (@Design.Step.createModBTerm _ ⟨2⟩ "p" _ _ rfl))
      |>.tail (.design rfl (@Design.Step.createNet _ "x" _ _ rfl)), ?_⟩
    cbv
  obtain ⟨db, hdb, hrun⟩ := hrun
  obtain ⟨n, e₁, hrun⟩ := bind_eq_ok.1 hrun
  obtain ⟨⟨r, n'⟩, e₂, hrun⟩ := bind_eq_ok.1 hrun
  obtain ⟨hids, hr⟩ := Prod.mk.inj (pure_eq_ok.1 hrun)
  obtain ⟨d, hd, hids⟩ := Option.map_eq_some_iff.1 hids
  cases hr
  have h : Accessible n := ⟨.hierarchical, .single (.step (.load (.loadDatabase hdb e₁)))⟩
  have hx : d.LiveNet (.flat ⟨1⟩) := by
    show (⟨1⟩ : NetId) ∈ d.nets.ids
    rw [hids]
    exact List.mem_singleton_self _
  have hmakes := (h.connection_reported hd hx).2.2.2 _ _ _ _ e₂
  have hnot : ¬Pin.Takes (.module ⟨1⟩) (.flat ⟨1⟩) := Bool.noConfusion
  exact ⟨n, n', d, h, hd, hx, e₂, (hmakes.ignored _ rfl hnot).2⟩

end Network
end DesignView
