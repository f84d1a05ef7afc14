import DesignView.Proofs.Catalog.Lasting
import DesignView.Proofs.Network.BusDirection

/-!
The top cell mirrors the boundary of the design. The port of a boundary terminal has its name and
the direction that goes with its types. The top cell is built so; a load that leaves it there leaves
its ports as they are, and an edit that gives a terminal other types gives its port the direction,
be that a port of its own, a bit, a bus, or what a terminal that is gone has left behind.
-/

namespace DesignView

theorem PortDirection.ofTypes_of_types? {direction : PortDirection} {sig : SigType} {io : IoType}
    (h : direction.types? = some (sig, io)) : PortDirection.ofTypes sig io = direction := by
  cases direction <;> cases h <;> rfl

open Catalog (Rebuilds Lasts)

namespace Catalog

variable {c c' : Catalog} {db : Database} {d d' : Design}

/-- A port of the cell of the design that has the name of a boundary terminal has the direction that
goes with its types. -/
def Directed (c : Catalog) (d : Design) : Prop :=
  ∀ ⦃b t⦄, d.bterms.find? b = some t → ∀ ⦃p q⦄, c.ports.find? p = some q → c.AtTop p →
    q.name = t.name → q.direction = .ofTypes t.sig t.io

theorem AtTop.unique (hm : c.Mirrors db) (hi : c.Intact) {p p' : PortId} {q q' : Port}
    (h : c.AtTop p) (h' : c.AtTop p') (hq : c.ports.find? p = some q)
    (hq' : c.ports.find? p' = some q') (hname : q.name = q'.name) : p = p' := by
  obtain ⟨_, hr, l, hl, hsource⟩ := h
  cases hq.symm.trans hr
  obtain ⟨_, hr', l', hl', hsource'⟩ := h'
  cases hq'.symm.trans hr'
  have hcell : q.cell = q'.cell := hm.cells hl hl' (hsource.trans hsource'.symm)
  exact hi.names (portLabel?_of_find? hq) (portLabel?_of_find? hq') hcell hname

theorem ShowsTop.exists_atTop (h : c.ShowsTop d) {b : BTermId} {t : BTerm}
    (ht : d.bterms.find? b = some t) :
    ∃ p q, c.ports.find? p = some q ∧ c.AtTop p ∧ q.name = t.name := by
  obtain ⟨x, library, hx, hterms⟩ := h
  obtain ⟨p, l, hp, rfl, hname⟩ := hterms b t ht
  obtain ⟨q, hq, rfl⟩ := Option.map_eq_some_iff.1 hp
  exact ⟨p, q, hq, ⟨q, hq, _, hx, rfl⟩, hname⟩

theorem AtTop.rebuilds {s : LibrarySource} (hs : s ≠ .design) (r : Rebuilds db s c c') {p : PortId}
    (h : c.AtTop p) : c'.AtTop p := by
  obtain ⟨q, hq, ⟨library, _⟩, hl, rfl⟩ := h
  have hhome : db.home? .design ≠ some s := fun e => hs (Option.some.inj e).symm
  obtain ⟨q', hq', hlabel⟩ := Option.map_eq_some_iff.1 (r.ports (portLabel?_of_find? hq) hl hhome)
  have hcell : q'.cell = q.cell := congrArg PortLabel.cell hlabel
  exact ⟨q', hq', _, (r.cells hhome).2 (hcell ▸ hl), rfl⟩

namespace Directed

theorem lasts (h : c.Directed d) (hshows : c.ShowsTop d) (hlasts : c.Lasts c') (ht : c.Tidy)
    {s : LibrarySource} (hs : s ≠ .design) (r : Rebuilds db s c c') (hi' : c'.Intact) :
    c'.Directed d := by
  intro b t hb p q hq htop hname
  obtain ⟨p₀, q₀, hq₀, htop₀, hname₀⟩ := hshows.exists_atTop hb
  obtain ⟨x, hx, l, hl, hsource⟩ := id htop₀
  cases hq₀.symm.trans hx
  have hhome : db.home? l.source ≠ some s := by
    rw [hsource]
    exact fun e => hs (Option.some.inj e).symm
  obtain ⟨q₁, hq₁, hlabel⟩ :=
    Option.map_eq_some_iff.1 (r.ports (portLabel?_of_find? hq₀) hl hhome)
  -- The port of the terminal is still there, and no other one in the cell has its name.
  obtain rfl : p = p₀ := by
    refine htop.unique r.mirrors hi' (htop₀.rebuilds hs r) hq hq₁ (hname.trans (hname₀.symm.trans ?_))
    exact (congrArg PortLabel.name hlabel).symm
  obtain ⟨q₂, hq₂, -, hdirection⟩ :=
    hlasts.port hq (ht.ports.le p (OrderedMap.mem_keys_iff.2 ⟨q₀, hq₀⟩))
  cases hq₀.symm.trans hq₂
  rw [hdirection]
  exact h hb hq₀ htop₀ hname₀

theorem mono (h : c.Directed d) (hd' : d'.bterms.Sub d.bterms) : c.Directed d' :=
  fun _ _ hb => h (hd' hb)

theorem congr (h : c.Directed d) (hsame : Network.SamePorts c c') : c'.Directed d := by
  intro b t hb p q hq htop
  obtain ⟨r, hr, l, hl, hsource⟩ := htop
  rw [hsame.2] at hq hr
  rw [cellLabel?, hsame.1] at hl
  exact h hb hq ⟨r, hr, l, hl, hsource⟩

end Directed
end Catalog

namespace Network

variable {n n' : Network} {d d' : Design} {name : String} {direction : PortDirection}

theorem topCell?_of_atTop (hm : n.catalog.Mirrors n.db) {p : PortId} {q : Port}
    (h : n.catalog.AtTop p) (hq : n.catalog.ports.find? p = some q) :
    n.catalog.topCell? = some q.cell := by
  obtain ⟨_, hr, ⟨library, _⟩, hl, rfl⟩ := h
  cases hq.symm.trans hr
  exact hm.firstCell?_eq_some_iff.2 ⟨library, hl⟩

theorem topPort?_eq_some_iff (hm : n.catalog.Mirrors n.db) (hi : n.catalog.Intact) {p : PortId} :
    n.topPort? name = some p ↔
      ∃ q, n.catalog.ports.find? p = some q ∧ n.catalog.AtTop p ∧ q.name = name := by
  constructor
  · intro h
    obtain ⟨top, -, hnamed⟩ := Option.bind_eq_some_iff.1 h
    obtain ⟨q, hq, hqnamed⟩ := OrderedMap.exists_of_firstKey? hi.tidy.ports.nodup hnamed
    obtain ⟨-, hname⟩ : q.cell = top ∧ q.name = name := by simpa using hqnamed
    exact ⟨q, hq, atTop_topPort hi.tidy h, hname⟩
  · rintro ⟨q, hq, htop, rfl⟩
    obtain ⟨p', hp'⟩ : ∃ p', n.catalog.portNamed? q.cell q.name = some p' :=
      OrderedMap.firstKey?_isSome hq (by simp)
    have hfound : n.topPort? q.name = some p' := by
      rw [topPort?, topCell?_of_atTop hm htop hq]
      exact hp'
    obtain ⟨q', hq', hqnamed⟩ := OrderedMap.exists_of_firstKey? hi.tidy.ports.nodup hp'
    obtain ⟨-, hname⟩ : q'.cell = q.cell ∧ q'.name = q.name := by simpa using hqnamed
    rw [hfound, (atTop_topPort hi.tidy hfound).unique hm hi htop hq' hq hname]

theorem port_setTopPort (hm : n.catalog.Mirrors n.db) (hi : n.catalog.Intact) {p : PortId}
    {q : Port} (hq : (n.setTopPort name direction).catalog.ports.find? p = some q)
    (htop : (n.setTopPort name direction).catalog.AtTop p) :
    q.name = name ∧ q.direction = direction ∨
      q.name ≠ name ∧ n.catalog.ports.find? p = some q ∧ n.catalog.AtTop p := by
  rcases setTopPort_cases n name direction with ⟨t, ht, hset⟩ | ⟨hnone, hset⟩
  · rw [hset] at hq htop
    obtain ⟨r, hr, -, hname⟩ := (topPort?_eq_some_iff hm hi).1 ht
    obtain ⟨_, hq', l, hl, hsource⟩ := htop
    cases hq.symm.trans hq'
    rw [Catalog.find?_setDirection] at hq
    split at hq
    · next hp =>
      rw [hp, hr] at hq
      cases hq
      exact .inl ⟨hname, rfl⟩
    · next hp =>
      have hold : n.catalog.AtTop p := ⟨q, hq, l, hl, hsource⟩
      refine .inr ⟨fun hqname => hp ?_, hq, hold⟩
      exact Option.some.inj
        (((topPort?_eq_some_iff hm hi).2 ⟨q, hq, hold, hqname⟩).symm.trans ht)
  · -- No port of the top cell has had the name.
    have hkept (hq : n.catalog.ports.find? p = some q) (hold : n.catalog.AtTop p) :
        q.name ≠ name := by
      intro hqname
      cases hnone.symm.trans ((topPort?_eq_some_iff hm hi).2 ⟨q, hq, hold, hqname⟩)
    rcases hset with hset | ⟨top, -, -, hset⟩
    · rw [hset] at hq htop
      exact .inr ⟨hkept hq htop, hq, htop⟩
    · rw [hset] at hq htop
      obtain ⟨_, hq', l, hl, hsource⟩ := htop
      cases hq.symm.trans hq'
      rw [Catalog.cellLabel?_addPort] at hl
      rw [Catalog.find?_addPort] at hq
      split at hq
      · cases hq
        exact .inl ⟨rfl, rfl⟩
      · have hold : n.catalog.AtTop p := ⟨q, hq, l, hl, hsource⟩
        exact .inr ⟨hkept hq hold, hq, hold⟩

theorem bterm_setBTermTypes (hwf : d.WellFormed) {id : BTermId} (sig : SigType) (io : IoType)
    (hmade : d.btermNamed? name = some id ∧ d' = d ∨ d.createBTerm name none = .ok (id, d')) :
    (∃ t, (d'.setBTermTypes id sig io).bterms.find? id = some t ∧ t.name = name ∧ t.sig = sig ∧
      t.io = io) ∧
    ∀ b t, (d'.setBTermTypes id sig io).bterms.find? b = some t → b ≠ id →
      t.name ≠ name ∧ d.bterms.find? b = some t := by
  obtain ⟨hwf', ⟨t₀, ht₀, rfl⟩, hrest⟩ : d'.WellFormed ∧
      (∃ t, d'.bterms.find? id = some t ∧ t.name = name) ∧
        ∀ b, b ≠ id → d'.bterms.find? b = d.bterms.find? b := by
    rcases hmade with ⟨hfound, rfl⟩ | e
    · exact ⟨hwf, (hwf.btermNames.firstWhere?_eq_some_iff hwf.bterms).1 hfound, fun _ _ => rfl⟩
    · refine ⟨hwf.createBTerm e, ?_⟩
      obtain ⟨-, rfl, hmade⟩ := Design.createBTerm_ok e
      obtain rfl : d' = { d with bterms := (d.bterms.insert { name }).2 } := hmade
      refine ⟨⟨{ name }, by rw [Table.find?_insert, if_pos rfl], rfl⟩, fun b hb => ?_⟩
      rw [Table.find?_insert, if_neg hb]
  have hfind (b : BTermId) : (d'.setBTermTypes id sig io).bterms.find? b =
      if b = id then (d'.bterms.find? b).map fun t => { t with sig, io }
      else d'.bterms.find? b := Table.find?_modify ..
  refine ⟨⟨{ t₀ with sig, io }, ?_, rfl, rfl, rfl⟩, fun b t hb hne => ?_⟩
  · rw [hfind, if_pos rfl, ht₀, Option.map_some]
  · rw [hfind, if_neg hne] at hb
    exact ⟨fun hname => hne (hwf'.btermNames hb ht₀ hname), (hrest b hne).symm.trans hb⟩

def TopDirected (n : Network) : Prop := ∀ ⦃d⦄, n.design? = some d → n.catalog.Directed d

namespace TopDirected

theorem of_none (hnone : n.design? = none) : n.TopDirected := by
  intro d hd
  cases hnone.symm.trans hd

theorem congr (h : n.TopDirected) (hdesign : n'.design? = n.design?)
    (hsame : SamePorts n.catalog n'.catalog) : n'.TopDirected :=
  fun _ hd => (h (hdesign.symm.trans hd)).congr hsame

theorem withDesign (h : n.TopDirected) (hd : n.design? = some d)
    (hd' : d'.bterms.Sub d.bterms) : (n.withDesign d').TopDirected := by
  rintro _ ⟨⟩
  exact (h hd).mono hd'

theorem topTerminal (h : n.TopDirected) (hwf : d.WellFormed) (hm : n.catalog.Mirrors n.db)
    (hi : n.catalog.Intact) (hd : n.design? = some d) {id : BTermId} {sig : SigType} {io : IoType}
    (hmade : d.btermNamed? name = some id ∧ d' = d ∨ d.createBTerm name none = .ok (id, d'))
    (htypes : direction.types? = some (sig, io)) :
    ((n.withDesign (d'.setBTermTypes id sig io)).setTopPort name direction).TopDirected := by
  obtain ⟨⟨t₀, ht₀, hname, rfl, rfl⟩, hrest⟩ := bterm_setBTermTypes hwf sig io hmade
  intro d₁ hd₁ b t hb p q hq htop hqname
  obtain rfl : d'.setBTermTypes id t₀.sig t₀.io = d₁ := by
    obtain ⟨c, hc, -⟩ :=
      (n.withDesign (d'.setBTermTypes id t₀.sig t₀.io)).setTopPort_catalog name direction
    rw [hc] at hd₁
    exact Option.some.inj hd₁
  rw [setTopPort_withDesign] at hq htop
  by_cases hid : b = id
  · cases ht₀.symm.trans (hid ▸ hb)
    rcases port_setTopPort hm hi hq htop with ⟨-, hdirection⟩ | ⟨hother, -⟩
    · rw [hdirection, PortDirection.ofTypes_of_types? htypes]
    · exact absurd (hqname.trans hname) hother
  · obtain ⟨hother, hold⟩ := hrest b t hb hid
    rcases port_setTopPort hm hi hq htop with ⟨hsame, -⟩ | ⟨-, hq, htop⟩
    · exact absurd (hqname.symm.trans hsame) hother
    · exact h hd hold hq htop hqname

theorem lasts (h : n.TopDirected) (hn : n.Shown) (hi : n.catalog.Intact)
    (hdb : n'.db = n.db) (hlasts : n.catalog.Lasts n'.catalog) {s : LibrarySource}
    (hs : s ≠ .design) (r : Rebuilds n.db s n.catalog n'.catalog) (hi' : n'.catalog.Intact) :
    n'.TopDirected := by
  intro d hd
  have hd : n.design? = some d := (congrArg Database.design? hdb).symm.trans hd
  exact (h hd).lasts (hn.top hd) hlasts hi.tidy hs r hi'

end TopDirected

theorem Change.topDirected (s : n.Change n') (hdb : n.db.WellFormed) (hn : n.Shown)
    (hi : n.catalog.Intact) (h : n.TopDirected) : n'.TopDirected := by
  cases s.outline with
  | aside | forgetConstant => exact h.congr rfl ⟨rfl, rfl⟩
  | trim hd ht => exact h.withDesign hd ht.bterms
  | createModInst _ _ hd e =>
    obtain ⟨-, -, -, -, -, -, rfl⟩ := Design.createModInst_ok e
    exact h.withDesign hd (.of_eq rfl)
  | createNet hd e =>
    obtain ⟨-, -, rfl⟩ := Design.createNet_ok e
    exact h.withDesign hd (.of_eq rfl)
  | topTerminal hd hmade htypes =>
    exact h.topTerminal (hdb.design hd) hn.mirrors hi hd hmade htypes
  | @destroyNet _ d d' hd e =>
    have hd' : d'.bterms.Sub d.bterms := by
      obtain ⟨-, rfl⟩ := Design.destroyNet_ok e
      exact .of_eq rfl
    exact (h.withDesign hd hd').congr rfl ⟨rfl, rfl⟩
  | @destroyModBTerm _ d d' hd e =>
    have hd' : d'.bterms.Sub d.bterms := by
      obtain ⟨-, rfl⟩ := Design.destroyModBTerm_ok e
      exact .of_eq rfl
    exact (h.withDesign hd hd').congr rfl ⟨rfl, rfl⟩
  | bundle e =>
    exact h.lasts hn hi rfl (.bundle e)
      (LibrarySource.noConfusion : LibrarySource.modules ≠ .design)
      (.regroup hn.mirrors (hn.mirrors.tidy.bundle e)) (hi.bundle e)

theorem Changes.topDirected (hrun : n.Changes n') (hdb : n.db.Reachable) (hn : n.Shown)
    (hs : n.Stored) (h : n.TopDirected) : n'.TopDirected := by
  induction hrun with
  | refl => exact h
  | tail hrun s ih =>
    have hbefore : Database.Reachable _ := hdb.trans (Changes.db hrun)
    exact s.topDirected hbefore.wellFormed (Changes.shown hrun hn)
      (Changes.stored hrun hs).stocked.intact ih

theorem directed_groupBuses {c : Catalog} {x : CellId} (h : c.Fresh x (topPorts d)) (ht : c.Tidy)
    {library : LibraryId} (hx : c.cellLabel? x = some ⟨library, .design⟩)
    {msbFirst : String → Bool} {db : Database} (hm : (c.groupBuses x msbFirst).1.Mirrors db)
    (hi : (c.groupBuses x msbFirst).1.Intact) : (c.groupBuses x msbFirst).1.Directed d := by
  intro b t hb p q hq htop hname
  have hgains : c.Gains (fun _ => False) (·.source = .group) (c.groupBuses x msbFirst).1 :=
    ht.groupBuses x msbFirst
  obtain ⟨p₀, -, hp₀⟩ := h.exists_mem (s := ⟨t.name, .design, .ofTypes t.sig t.io⟩)
    (List.mem_map.2 ⟨(b, t), OrderedMap.mem_of_find? hb, rfl⟩)
  obtain ⟨q₀, hq₀, hlabel⟩ :=
    Option.map_eq_some_iff.1 (hgains.keptPorts (Catalog.portLabel?_of_find? hp₀))
  have hcell : q₀.cell = x := congrArg PortLabel.cell hlabel
  have htop₀ : Catalog.AtTop _ p₀ := ⟨q₀, hq₀, _, by rw [hcell, hgains.keptCells hx], rfl⟩
  -- No bus has the name of the port that was made for the terminal.
  obtain rfl : p = p₀ := htop.unique hm hi htop₀ hq hq₀
    (hname.trans (congrArg PortLabel.name hlabel).symm)
  obtain ⟨q₁, hq₁, -, hdirection⟩ := (Lasts.groupBuses c x msbFirst).port hq
    (ht.ports.le p (OrderedMap.mem_keys_iff.2 ⟨_, hp₀⟩))
  cases hp₀.symm.trans hq₁
  exact hdirection

theorem directed_loadTopCell (hm : n.catalog.Mirrors n.db) (hi : n.catalog.Intact)
    (hdb : n.db.WellFormed) (hd : n.design? = some d) : (n.loadTopCell d).catalog.Directed d := by
  obtain ⟨-, -, hrebuilds, -⟩ := rebuilds_loadTopCell hm d
  have hi' : (n.loadTopCell d).catalog.Intact :=
    ((without_builds ..).trans (loadTopCell_builds hdb hd)).steps.intact hi
  have hi₀ : (withTopLibrary n.catalog d).Intact := (hi.without .design).addLibrary ..
  rw [loadTopCell_eq, groupCell_catalog] at hrebuilds hi' ⊢
  exact directed_groupBuses (hi₀.fresh_buildCell ..) (hi₀.tidy.buildCell ..)
    ((Catalog.cellLabel?_buildCell ..).trans (if_pos rfl)) hrebuilds.mirrors hi'

theorem topDirected_of_loadDesign (hm : n.catalog.Mirrors n.db) (hi : n.catalog.Intact)
    (hdb : n.db.WellFormed) (e : n.loadDesign = .ok n') : n'.TopDirected := by
  obtain ⟨d, -, hd, -⟩ := loadDesign_eq_ok e
  obtain ⟨-, -, -, hshows⟩ := rebuilds_loadTopCell hm d
  obtain ⟨hdb', hrebuilds, -⟩ := rebuilds_afterTopCell hm hdb hd e
  have hdirected := directed_loadTopCell hm hi hdb hd
  have hbuilds := afterTopCell_builds hdb hd e
  have hi₁ : (n.loadTopCell d).catalog.Intact :=
    ((without_builds ..).trans (loadTopCell_builds hdb hd)).steps.intact hi
  intro d' hd'
  obtain rfl : d = d' :=
    Option.some.inj (hd.symm.trans ((congrArg Database.design? hdb').symm.trans hd'))
  exact hdirected.lasts hshows (hbuilds.lasts hi₁) hi₁.tidy LibrarySource.noConfusion hrebuilds
    (hbuilds.steps.intact hi₁)

theorem TopDirected.loadLibrary (h : n.TopDirected) (hn : n.Shown) (hi : n.catalog.Intact)
    (hdb : n.db.WellFormed) {id : LibId} {r : LibraryId}
    (e : n.loadLibrary id = .ok (r, n')) : n'.TopDirected := by
  obtain ⟨-, hdb', hrebuilds, -⟩ := rebuilds_loadLibrary hn.mirrors hdb e
  have hbuilds := (without_builds n.catalog (.physical id)).trans (loadLibrary_builds hdb e)
  exact h.lasts hn hi hdb' (hbuilds.lasts hi) LibrarySource.noConfusion hrebuilds
    (hbuilds.steps.intact hi)

theorem TopDirected.relinkTiming (h : n.TopDirected) (hn : n.Shown) (hi : n.catalog.Intact)
    (id : TimingId) : (n.relinkTiming id).TopDirected := by
  have hregroups := Regroups.relinkTiming n id
  have hbuilds := relinkTiming_builds hi id
  exact h.lasts hn hi hregroups.db (hbuilds.lasts hi)
    (LibrarySource.noConfusion : LibrarySource.modules ≠ .design) (hregroups.rebuilds hn.mirrors)
    (hbuilds.steps.intact hi)

theorem Load.topDirected (s : n.Load n') (hdb : n.db.WellFormed) (hn : n.Shown) (hs : n.Stored)
    (h : n.TopDirected) : n'.TopDirected := by
  have hi := hs.stocked.intact
  cases s with
  | loadDatabase hdb' e =>
    obtain ⟨m, hm, -, hdesign⟩ := loadDatabase_induct (motive := fun _ => True) hdb'.wellFormed
      trivial (fun _ _ _ _ _ _ _ => trivial) (fun _ _ _ _ => trivial) e
    obtain rfl : m.db = _ := hm.only.db
    rcases hdesign with ⟨-, e⟩ | ⟨hnone, rfl⟩
    · exact topDirected_of_loadDesign hm.mirrors hm.stocked.intact hdb'.wellFormed e
    · exact .of_none hnone
  | loadLibrary e => exact h.loadLibrary hn hi hdb e
  | loadTiming library =>
    have hloaded : Shown { n with timing := n.timing ++ [library] } :=
      ⟨hn.mirrors, hn.mterms, hn.top, hn.boundaries, hn.modules⟩
    exact TopDirected.relinkTiming (n := { n with timing := n.timing ++ [library] }) h hloaded hi _
  | relinkTiming id => exact h.relinkTiming hn hi id
  | loadDesign e => exact topDirected_of_loadDesign hn.mirrors hi hdb e
  | reload e =>
    rcases reload_eq_ok e with e | rfl
    · exact topDirected_of_loadDesign hn.mirrors hi hdb e
    · exact h.congr rfl ⟨rfl, rfl⟩
  | teardown => exact .of_none rfl

theorem Step.topDirected (s : n.Step n') (hdb : n.db.Reachable) (hn : n.Shown) (hs : n.Stored)
    (h : n.TopDirected) : n'.TopDirected := by
  cases s with
  | load s => exact s.topDirected hdb.wellFormed hn hs h
  | edit s => exact s.changes.topDirected hdb hn hs h
  | query s =>
    have hcatalog := s.same.1
    exact h.congr (congrArg Database.design? s.db) ⟨by rw [hcatalog], by rw [hcatalog]⟩

theorem Reachable.topDirected (h : n.Reachable) : n.TopDirected := by
  induction h using Reachable.induct with
  | new => exact .of_none rfl
  | step hbefore s ih =>
    exact s.topDirected hbefore.db hbefore.shown hbefore.stored ih

end Network
end DesignView
