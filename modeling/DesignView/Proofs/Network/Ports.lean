import DesignView.Proofs.Network.Outline
import DesignView.Proofs.Network.Shown
import DesignView.Proofs.Physical.Binding
import Mathlib

/-!
Ports of pins. Edits leave a network that shows all of its design: they make no masters and no
boundary terminals of modules, instantiate only modules that have cells, and give the top cell a
port together with each boundary terminal. So a pin has a port in the cell of its instance, and the
port leads back to the pin.
-/

namespace DesignView

open Catalog (Rebuilds)

structure Design.Dwindles (d d' : Design) : Prop where
  bterms : d'.bterms.Sub d.bterms
  modBTerms : d'.modBTerms.Sub d.modBTerms
  modInsts : d'.modInsts.Sub d.modInsts

namespace Design.Dwindles

variable {d d' : Design}

theorem of_eq (hb : d'.bterms = d.bterms) (hm : d'.modBTerms = d.modBTerms)
    (hi : d'.modInsts = d.modInsts) : d.Dwindles d' := ⟨.of_eq hb, .of_eq hm, .of_eq hi⟩

end Design.Dwindles

namespace Network

variable {n n' : Network} {d d' : Design}

theorem Shown.dwindle (h : n.Shown) (hd : n.design? = some d) (hd' : d.Dwindles d') :
    (n.withDesign d').Shown := by
  refine .of_design rfl (h.mirrors.congr rfl rfl) h.mterms ?_ ?_ fun hh i a hi => ?_
  · obtain ⟨x, lib, hx, hterms⟩ := h.top hd
    exact ⟨x, lib, hx, fun b t hb => hterms b t (hd'.bterms hb)⟩
  · intro b t x lib ht hx
    exact h.boundaries hd (hd'.modBTerms ht) hx
  · exact h.modules hh hd (hd'.modInsts hi)

theorem Shown.congr (h : n.Shown) (hsettings : n'.settings = n.settings) (hdb : n'.db = n.db)
    (hcatalog : n'.catalog = n.catalog) : n'.Shown :=
  h.rebuild hsettings hdb fun s => by
    rw [hcatalog]
    exact .refl h.mirrors

theorem Shown.createModInst (h : n.Shown) {cell : CellId} {x : Cell} {module within : ModuleId}
    {name : String} {id : ModInstId} (hcell : n.catalog.cell cell = .ok x)
    (hsource : x.source = .module module) (hd : n.design? = some d)
    (e : d.createModInst within module name = .ok (id, d')) : (n.withDesign d').Shown := by
  obtain ⟨-, -, -, -, -, -, rfl⟩ := Design.createModInst_ok e
  have hfind : n.catalog.cells.find? cell = some x := by
    unfold Catalog.cell at hcell
    split at hcell
    · next y hy => exact hy.trans (congrArg some (Except.ok.inj hcell))
    · cases hcell
  have hmodule : n.catalog.ShowsModule module := by
    refine ⟨cell, x.library, (congrArg (Option.map Cell.label) hfind).trans ?_⟩
    rw [Option.map_some, Cell.label, hsource]
  have htop : n.catalog.ShowsTop d := h.top hd
  have hboundaries : n.catalog.ShowsBoundaries d := h.boundaries hd
  refine .of_design rfl (h.mirrors.congr rfl rfl) h.mterms htop hboundaries fun hh i a hi => ?_
  rw [Table.find?_insert] at hi
  split at hi
  · cases hi
    exact hmodule
  · exact h.modules hh hd hi

theorem Shown.destroyModBTerm (h : n.Shown) {id : ModBTermId} (hd : n.design? = some d)
    (e : d.destroyModBTerm id = .ok d') :
    Shown ({ n with catalog := n.catalog.forgetBoundary id }.withDesign d') := by
  obtain ⟨-, rfl⟩ := Design.destroyModBTerm_ok e
  have hm := h.mirrors
  have htop : n.catalog.ShowsTop d := h.top hd
  refine .of_design rfl ⟨hm.tidy.forgetBoundary id, hm.libraries, hm.cells, hm.home, hm.ports⟩
    h.mterms htop ?_ fun hh i a hi => h.modules hh hd hi
  intro b t x lib ht hx
  have ht : (d.modBTerms.erase id).find? b = some t := ht
  rw [Table.find?_erase] at ht
  split at ht
  · cases ht
  · next hne =>
    obtain ⟨p, l, hb, hp, hlx, hname⟩ := h.boundaries hd ht hx
    exact ⟨p, l, (OrderedMap.find?_erase ..).trans ((if_neg hne).trans hb), hp, hlx, hname⟩

theorem setTopPort_rebuilds (hm : n.catalog.Mirrors n.db) {x : CellId} {lib : LibraryId}
    (hx : n.catalog.cellLabel? x = some ⟨lib, .design⟩) (name : String)
    (direction : PortDirection) : ∃ c, n.setTopPort name direction = { n with catalog := c } ∧
      (∀ s, Rebuilds n.db s n.catalog c) ∧
      ∃ p l, c.portLabel? p = some l ∧ l.cell = x ∧ l.name = name := by
  have htop : n.catalog.topCell? = some x := hm.firstCell?_eq_some_iff.2 ⟨lib, hx⟩
  unfold Network.setTopPort
  simp only [htop]
  split
  · next port hport =>
    obtain ⟨q, hq, hnamed⟩ := OrderedMap.exists_of_firstKey? hm.tidy.ports.nodup hport
    obtain ⟨hcell, hname⟩ : q.cell = x ∧ q.name = name := by simpa using hnamed
    have hlabel : n.catalog.portLabel? port = some q.label := congrArg (Option.map Port.label) hq
    have g : n.catalog.Gains (fun _ => False) (·.source = .group)
        (n.catalog.setDirection port direction) := hm.tidy.setDirection port direction
    exact ⟨_, rfl, fun s => .regroup hm g, port, q.label, g.keptPorts hlabel, hcell, hname⟩
  · have g : n.catalog.Gains (fun _ => False) (· = ⟨name, x, .design⟩)
        (n.catalog.addPort x name .design direction).2 := hm.tidy.addPort x name .design direction
    have hplaces : ∀ l, l = ⟨name, x, .design⟩ → n.catalog.Places n.db l := by
      rintro l rfl t ht
      cases ht
    have hp : (n.catalog.addPort x name .design direction).2.portLabel? ⟨n.catalog.count + 1⟩ =
        some ⟨name, x, .design⟩ := (Catalog.portLabel?_addPort ..).trans (if_pos rfl)
    refine ⟨_, rfl, fun s => .of_gains (hm.gains g hplaces) g (fun _ => False.elim) ?_, _, _, hp,
      rfl, rfl⟩
    rintro - l b rfl hb
    cases hb

theorem topTerminal_bterms {name : String} {id : BTermId} (sig : SigType) (io : IoType)
    (hmade : d.btermNamed? name = some id ∧ d' = d ∨ d.createBTerm name none = .ok (id, d')) :
    (∀ b t, (d'.setBTermTypes id sig io).bterms.find? b = some t →
      (∃ t', d.bterms.find? b = some t' ∧ t'.name = t.name) ∨ t.name = name) ∧
        d'.modBTerms = d.modBTerms ∧ d'.modInsts = d.modInsts := by
  have hd' : (∀ b t, d'.bterms.find? b = some t → d.bterms.find? b = some t ∨ t.name = name) ∧
      d'.modBTerms = d.modBTerms ∧ d'.modInsts = d.modInsts := by
    rcases hmade with ⟨-, rfl⟩ | e
    · exact ⟨fun b t hb => .inl hb, rfl, rfl⟩
    · obtain ⟨-, -, hmade⟩ := Design.createBTerm_ok e
      obtain rfl : d' = { d with bterms := (d.bterms.insert { name }).2 } := hmade
      refine ⟨fun b t hb => ?_, rfl, rfl⟩
      rw [Table.find?_insert] at hb
      split at hb
      · cases hb
        exact .inr rfl
      · exact .inl hb
  obtain ⟨hbterms, hmodBTerms, hmodInsts⟩ := hd'
  refine ⟨fun b t hb => ?_, hmodBTerms, hmodInsts⟩
  have hb : (d'.bterms.modify id fun t => { t with sig, io }).find? b = some t := hb
  rw [Table.find?_modify] at hb
  split at hb
  · obtain ⟨t', ht', rfl⟩ := Option.map_eq_some_iff.1 hb
    exact (hbterms b t' ht').imp_left fun ht => ⟨t', ht, rfl⟩
  · exact (hbterms b t hb).imp_left fun ht => ⟨t, ht, rfl⟩

theorem Shown.topTerminal (h : n.Shown) {name : String} {direction : PortDirection} {sig : SigType}
    {io : IoType} {id : BTermId} (hd : n.design? = some d)
    (hmade : d.btermNamed? name = some id ∧ d' = d ∨ d.createBTerm name none = .ok (id, d')) :
    ((n.withDesign (d'.setBTermTypes id sig io)).setTopPort name direction).Shown := by
  obtain ⟨hnames, hmodBTerms, hmodInsts⟩ := topTerminal_bterms sig io hmade
  obtain ⟨x, lib, hx, hterms⟩ := h.top hd
  have hm : n.catalog.Mirrors (n.withDesign (d'.setBTermTypes id sig io)).db :=
    h.mirrors.congr rfl rfl
  obtain ⟨c, hc, r, p, l, hp, hlx, hname⟩ :=
    setTopPort_rebuilds (n := n.withDesign (d'.setBTermTypes id sig io)) hm hx name direction
  have hboundaries : n.catalog.ShowsBoundaries (d'.setBTermTypes id sig io) := by
    intro b t x lib ht hx
    exact h.boundaries hd (hmodBTerms ▸ ht) hx
  rw [hc]
  refine .of_design rfl (r .design).mirrors (fun t ht => ?_) ?_
    ((r .design).showsBoundaries LibrarySource.noConfusion hboundaries) fun hh i a hi => ?_
  · exact (r .design).showsMTerm_of_ne hm (fun _ => LibrarySource.noConfusion) (h.mterms t ht)
  · have hhome : (n.withDesign (d'.setBTermTypes id sig io)).db.home? .design ≠ some .modules :=
      fun e => LibrarySource.noConfusion (Option.some.inj e)
    refine ⟨x, lib, ((r .modules).cells hhome).2 hx, fun b t hb => ?_⟩
    rcases hnames b t hb with ⟨t', ht', hsame⟩ | rfl
    · obtain ⟨q, k, hq, rfl, hk⟩ := hterms b t' ht'
      exact ⟨q, k, (r .modules).ports hq hx hhome, rfl, hk.trans hsame⟩
    · exact ⟨p, l, hp, hlx, hname⟩
  · exact (r .design).showsModule LibrarySource.noConfusion (h.modules hh hd (hmodInsts ▸ hi))

theorem Change.shown (s : n.Change n') (h : n.Shown) : n'.Shown := by
  cases s.outline with
  | aside | forgetConstant => exact h.congr rfl rfl rfl
  | trim hd ht => exact h.dwindle hd ⟨ht.bterms, ht.modBTerms, ht.modInsts⟩
  | createModInst hcell hsource hd e => exact h.createModInst hcell hsource hd e
  | createNet hd e =>
    obtain ⟨-, -, rfl⟩ := Design.createNet_ok e
    exact h.dwindle hd (.of_eq rfl rfl rfl)
  | topTerminal hd hmade _ => exact h.topTerminal hd hmade
  | @destroyNet _ d d' hd e =>
    have hd' : d.Dwindles d' := by
      obtain ⟨-, rfl⟩ := Design.destroyNet_ok e
      exact .of_eq rfl rfl rfl
    exact (h.dwindle hd hd').congr rfl rfl rfl
  | destroyModBTerm hd e => exact h.destroyModBTerm hd e
  | bundle e =>
    exact h.rebuild rfl rfl fun _ => .regroup h.mirrors (h.mirrors.tidy.bundle e)

theorem Changes.shown (hrun : n.Changes n') (h : n.Shown) : n'.Shown := by
  induction hrun with
  | refl => exact h
  | tail _ s ih => exact s.shown ih

theorem Query.shown (s : n.Query n') (h : n.Shown) : n'.Shown := by
  obtain ⟨_, _, _, rfl⟩ := s.exists_eq
  exact h.congr rfl rfl rfl

theorem Step.shown (s : n.Step n') (hdb : n.db.WellFormed) (h : n.Shown) : n'.Shown := by
  cases s with
  | load s => exact s.shown hdb h
  | edit s => exact s.changes.shown h
  | query s => exact s.shown h

theorem Reachable.shown (h : n.Reachable) : n.Shown := by
  induction h using Reachable.induct with
  | new => exact shown_of_empty rfl rfl
  | step hbefore s ih =>
    exact s.shown hbefore.current.sound.db ih

/-- The port has the name of the pin, is in the cell of its instance, and leads back to the pin. -/
def LeadsBack (n : Network) (q : Pin) (p : PortId) : Prop :=
  ∃ port i, n.catalog.port? p = some port ∧ n.pinName q = .ok port.name ∧ n.ownerOf q = .ok i ∧
    n.cellOf i = .ok (some port.cell) ∧ n.pinForPort? i p = .ok (some q)

theorem exists_port_of_label {c : Catalog} {p : PortId} {l : PortLabel}
    (h : c.portLabel? p = some l) : ∃ port, c.port? p = some port ∧ port.label = l :=
  Option.map_eq_some_iff.1 h

section LeadsBack

variable {p : PortId} {port : Port} (hd : n.design? = some d)
  (hport : n.catalog.port? p = some port)
include hd hport

theorem leadsBack_flat {t : ITermId} {x : ITerm} {i : Inst} (hx : d.iterms.find? t = some x)
    (hi : d.insts.find? x.inst = some i) (hname : port.name = x.name)
    (hcell : n.catalog.cellOfMaster? i.master = some port.cell)
    (hfound : d.itermNamed? x.inst port.name = some t) : n.LeadsBack (.flat t) p := by
  have hdesign : n.design = .ok d := design_eq_ok.2 hd
  have hiterm : d.iterm t = .ok x := Table.fetch_eq_ok.2 hx
  have hinst : d.inst x.inst = .ok i := Table.fetch_eq_ok.2 hi
  refine ⟨port, .flat x.inst, hport, ?_, ?_, ?_, ?_⟩
  · simp only [pinName, hdesign, hiterm, bind, Except.bind, hname]
    rfl
  · simp only [ownerOf, hdesign, hiterm, bind, Except.bind]
    rfl
  · simp only [cellOf, hdesign, hinst, bind, Except.bind, hcell]
    rfl
  · simp only [pinForPort?, hport, pinNamed?, hd, Design.itermOf, hinst, bind, Except.bind, pure,
      Except.pure, hfound, Option.map_some]

theorem leadsBack_boundary {b : BTermId} {x : BTerm} (hx : d.bterms.find? b = some x)
    (hname : port.name = x.name) (hcell : n.catalog.topCell? = some port.cell)
    (hfound : d.btermNamed? port.name = some b) : n.LeadsBack (.boundary b) p := by
  have hdesign : n.design = .ok d := design_eq_ok.2 hd
  have hbterm : d.bterm b = .ok x := Table.fetch_eq_ok.2 hx
  refine ⟨port, .top, hport, ?_, ?_, ?_, ?_⟩
  · simp only [pinName, hdesign, hbterm, bind, Except.bind, hname]
    rfl
  · simp only [ownerOf, hdesign, bind, Except.bind]
    rfl
  · rw [← hcell]
    rfl
  · simp only [pinForPort?, hport, pinNamed?, hd, hfound, Option.map_some]
    rfl

theorem leadsBack_module {t : ModITermId} {x : ModITerm} {i : ModInst}
    (hx : d.modITerms.find? t = some x) (hi : d.modInsts.find? x.modInst = some i)
    (hname : port.name = x.name) (hcell : n.catalog.cellOfModule? i.master = some port.cell)
    (hfound : d.modITermNamed? x.modInst port.name = some t) : n.LeadsBack (.module t) p := by
  have hdesign : n.design = .ok d := design_eq_ok.2 hd
  have hterm : d.modITerm t = .ok x := Table.fetch_eq_ok.2 hx
  have hinst : d.modInst x.modInst = .ok i := Table.fetch_eq_ok.2 hi
  refine ⟨port, .module x.modInst, hport, ?_, ?_, ?_, ?_⟩
  · simp only [pinName, hdesign, hterm, bind, Except.bind, hname]
    rfl
  · simp only [ownerOf, hdesign, hterm, bind, Except.bind]
    rfl
  · simp only [cellOf, hdesign, hinst, bind, Except.bind, hcell]
    rfl
  · simp only [pinForPort?, hport, pinNamed?, hd, Design.modITermOf, hinst, bind, Except.bind,
      pure, Except.pure, hfound, Option.map_some]

end LeadsBack

theorem Shown.portOf_flat (h : n.Shown) (hdb : n.db.WellFormed) (hbinds : n.db.Binds d)
    (hd : n.design? = some d) {t : ITermId} (ht : t ∈ d.iterms.ids) :
    ∃ p, n.portOf (.flat t) = .ok (some p) ∧ n.LeadsBack (.flat t) p := by
  have hwf := hdb.design hd
  obtain ⟨x, hx, hfetch⟩ := fetch_of_mem ht
  obtain ⟨i, m, hi, hm, hmaster, hname⟩ := hbinds.mterm hx
  obtain ⟨q, l, hq, hsource⟩ := h.mterms x.mterm (Table.mem_ids_of_find? hm)
  obtain ⟨port, hport, rfl⟩ := exists_port_of_label hq
  obtain ⟨p, hp⟩ : ∃ p, n.catalog.portOfMTerm? x.mterm = some p :=
    OrderedMap.firstKey?_isSome hport (decide_eq_true hsource)
  obtain ⟨port, hport, hsource⟩ := OrderedMap.exists_of_firstKey? h.mirrors.tidy.ports.nodup hp
  have hlabel : n.catalog.portLabel? p = some port.label := congrArg (Option.map Port.label) hport
  obtain ⟨m', lib, hm', hpname, hcell⟩ :=
    h.mirrors.ports hlabel x.mterm (of_decide_eq_true hsource)
  obtain rfl : m = m' := Option.some.inj (hm.symm.trans hm')
  have hpname : port.name = x.name := hpname.trans hname
  have hcell : n.catalog.cellOfMaster? i.master = some port.cell :=
    h.mirrors.firstCell?_eq_some_iff.2 ⟨lib, hmaster ▸ hcell⟩
  have hfound : d.itermNamed? x.inst port.name = some t :=
    (hwf.itermNames.firstIn?_eq_some_iff hwf.iterms).2 ⟨x, hx, rfl, hpname.symm⟩
  have hiterm : d.iterm t = .ok x := hfetch
  refine ⟨p, ?_, leadsBack_flat hd hport hx hi hpname hcell hfound⟩
  simp only [portOf, hd, hiterm, bind, Except.bind, hp]
  rfl

theorem Shown.portOf_boundary (h : n.Shown) (hwf : d.WellFormed) (hd : n.design? = some d)
    {b : BTermId} (hb : b ∈ d.bterms.ids) :
    ∃ p, n.portOf (.boundary b) = .ok (some p) ∧ n.LeadsBack (.boundary b) p := by
  obtain ⟨x, hx, hfetch⟩ := fetch_of_mem hb
  obtain ⟨top, lib, hcell, hterms⟩ := h.top hd
  have htop : n.catalog.topCell? = some top := h.mirrors.firstCell?_eq_some_iff.2 ⟨lib, hcell⟩
  obtain ⟨q, l, hq, hlcell, hlname⟩ := hterms b x hx
  obtain ⟨port, hport, rfl⟩ := exists_port_of_label hq
  obtain ⟨p, hp⟩ : ∃ p, n.catalog.portNamed? top x.name = some p :=
    OrderedMap.firstKey?_isSome hport (Bool.and_eq_true_iff.2
      ⟨decide_eq_true hlcell, decide_eq_true hlname⟩)
  obtain ⟨port, hport, hnamed⟩ := OrderedMap.exists_of_firstKey? h.mirrors.tidy.ports.nodup hp
  obtain ⟨hpcell, hpname⟩ : port.cell = top ∧ port.name = x.name := by simpa using hnamed
  have hfound : d.btermNamed? port.name = some b :=
    (hwf.btermNames.firstWhere?_eq_some_iff hwf.bterms).2 ⟨x, hx, hpname.symm⟩
  have hbterm : d.bterm b = .ok x := hfetch
  have htopCell : n.catalog.topCell? = some port.cell := htop.trans (congrArg some hpcell.symm)
  refine ⟨p, ?_, leadsBack_boundary hd hport hx hpname htopCell hfound⟩
  simp only [portOf, hd, htop, hbterm, bind, Except.bind, hp]
  rfl

theorem Shown.portOf_module (h : n.Shown) (hs : n.Sound) (hh : n.hierarchy = true)
    (hd : n.design? = some d) {t : ModITermId} (ht : t ∈ d.modITerms.ids) :
    ∃ port?, n.portOf (.module t) = .ok port? ∧ (∀ p ∈ port?, n.LeadsBack (.module t) p) ∧
      (port?.isSome ↔ ∃ b, d.Opposite t b) := by
  have hwf := hs.db.design hd
  obtain ⟨inner?, hinner, hopposite⟩ := hs.innerOf_ok hd ht
  have hportOf : n.portOf (.module t) = .ok (inner?.bind n.catalog.portOfModBTerm?) := by
    simp only [portOf, hd, hinner, bind, Except.bind]
    rfl
  cases inner? with
  | none =>
    refine ⟨none, hportOf, ?_, ?_, ?_⟩
    · intro p hp
      cases hp
    · intro hp
      cases hp
    · rintro ⟨b, hb⟩
      cases (hopposite b).2 hb
  | some b =>
    have hb : d.Opposite t b := (hopposite b).1 rfl
    obtain ⟨outer, inner, i, houter, hinner, hi, hmaster, hname⟩ := id hb
    obtain ⟨x, lib, hcell⟩ := h.modules hh hd hi
    obtain ⟨p, l, hbp, hp, rfl, hlname⟩ := h.boundaries hd hinner (hmaster ▸ hcell)
    obtain ⟨port, hport, rfl⟩ := exists_port_of_label hp
    have hpname : port.name = outer.name := hlname.trans hname.symm
    have hcell : n.catalog.cellOfModule? i.master = some port.cell :=
      h.mirrors.firstCell?_eq_some_iff.2 ⟨lib, hcell⟩
    have hfound : d.modITermNamed? outer.modInst port.name = some t :=
      (hwf.modITermNames.firstIn?_eq_some_iff hwf.modITerms).2 ⟨outer, houter, rfl, hpname.symm⟩
    refine ⟨some p, hportOf.trans (congrArg Except.ok hbp), ?_, fun _ => ⟨b, hb⟩, fun _ => rfl⟩
    rintro _ ⟨⟩
    exact leadsBack_module hd hport houter hi hpname hcell hfound

/-- A live pin of a leaf instance, of the top or of a module instance is led back to by its port,
if it has one; only a pin of a module instance that faces no terminal inside the module has none. -/
theorem Reachable.portOf_inverse (h : n.Reachable) (hh : n.hierarchy = true)
    (hd : n.design? = some d) {q : Pin} (hq : d.Live q) (houter : ∀ b, q ≠ .moduleBoundary b) :
    ∃ port?, n.portOf q = .ok port? ∧ (∀ p ∈ port?, n.LeadsBack q p) ∧
      (port?.isSome ↔ ∀ t, q = .module t → ∃ b, d.Opposite t b) := by
  have hs : n.Sound := h.current.sound
  have hshown {p : PortId} (hp : n.portOf q = .ok (some p)) (hback : n.LeadsBack q p)
      (hleaf : ∀ t, q ≠ .module t) : ∃ port?, n.portOf q = .ok port? ∧
        (∀ p ∈ port?, n.LeadsBack q p) ∧
        (port?.isSome ↔ ∀ t, q = .module t → ∃ b, d.Opposite t b) := by
    refine ⟨some p, hp, ?_, fun _ t ht => absurd ht (hleaf t), fun _ => rfl⟩
    rintro _ ⟨⟩
    exact hback
  cases q with
  | flat t =>
    obtain ⟨p, hp, hback⟩ := h.shown.portOf_flat hs.db (h.db.binds hd) hd hq
    exact hshown hp hback fun _ => Pin.noConfusion
  | boundary b =>
    obtain ⟨p, hp, hback⟩ := h.shown.portOf_boundary (hs.db.design hd) hd hq
    exact hshown hp hback fun _ => Pin.noConfusion
  | module t =>
    obtain ⟨port?, hport, hback, hsome⟩ := h.shown.portOf_module hs hh hd hq
    refine ⟨port?, hport, hback, hsome.trans ⟨?_, fun hall => hall t rfl⟩⟩
    rintro hb _ ⟨⟩
    exact hb
  | moduleBoundary b => exact absurd rfl (houter b)

theorem portOf_inverse_loaded : ∃ n, Reachable n ∧ n.hierarchy = true ∧
    (∃ p, n.portOf (.flat ⟨1⟩) = .ok (some p) ∧ n.LeadsBack (.flat ⟨1⟩) p) ∧
    (∃ p, n.portOf (.boundary ⟨1⟩) = .ok (some p) ∧ n.LeadsBack (.boundary ⟨1⟩) p) ∧
    ∃ p, n.portOf (.module ⟨1⟩) = .ok (some p) ∧ n.LeadsBack (.module ⟨1⟩) p := by
  have hrun : ∃ db d, Database.Reachable db ∧ db.design? = some d ∧
      (d.Live (.flat ⟨1⟩) ∧ d.Live (.boundary ⟨1⟩) ∧ d.Live (.module ⟨1⟩)) ∧
      d.Opposite ⟨1⟩ ⟨1⟩ ∧ (do return (← (Network.new .hierarchical).loadDatabase db).hierarchy) =
        (.ok true : Except Fault Bool) := by
    refine ⟨_, _, Relation.ReflTransGen.refl
      |>.tail (@Database.Step.createLib _ "cells" _ _ rfl)
      |>.tail (@Database.Step.createMaster _ ⟨1⟩ "BUF" _ _ rfl)
      |>.tail (@Database.Step.createMTerm _ ⟨1⟩ "A" .signal .input _ _ rfl)
      |>.tail (@Database.Step.createDesign _ "top" _ _ rfl)
      |>.tail (@Database.Step.createInst _ ⟨1⟩ "u1" none _ _ rfl)
      |>.tail (.design rfl (@Design.Step.createBTerm _ "in" none _ _ rfl))
      |>.tail (.design rfl (@Design.Step.createModule _ "cell" _ _ rfl))
      |>.tail (.design rfl (@Design.Step.createModInst _ ⟨1⟩ ⟨2⟩ "u2" _ _ rfl))
      |>.tail (.design rfl (@Design.Step.createModITerm _ ⟨1⟩ "a" _ _ rfl))
      |>.tail (.design rfl (@Design.Step.createModBTerm _ ⟨2⟩ "a" _ _ rfl)), rfl, ⟨?_, ?_, ?_⟩,
      ⟨_, _, _, rfl, rfl, rfl, rfl, rfl⟩, ?_⟩
    · exact Table.mem_ids_of_find? rfl
    · exact Table.mem_ids_of_find? rfl
    · exact Table.mem_ids_of_find? rfl
    · cbv
  obtain ⟨db, d, hdb, hd, ⟨hflat, hboundary, hmodule⟩, hopposite, hrun⟩ := hrun
  obtain ⟨n, e, hrun⟩ := bind_eq_ok.1 hrun
  have hh : n.hierarchy = true := pure_eq_ok.1 hrun
  have h : Reachable n := ⟨_, .single (.load (.loadDatabase hdb e))⟩
  have hd : n.design? = some d := (congrArg Database.design? (loadDatabase_db e)).trans hd
  have hfound {q : Pin} (hq : d.Live q) (houter : ∀ b, q ≠ .moduleBoundary b)
      (hsome : ∀ t, q = .module t → ∃ b, d.Opposite t b) :
      ∃ p, n.portOf q = .ok (some p) ∧ n.LeadsBack q p := by
    obtain ⟨port?, hport, hback, hiff⟩ := h.portOf_inverse hh hd hq houter
    obtain ⟨p, rfl⟩ := Option.isSome_iff_exists.1 (hiff.2 hsome)
    exact ⟨p, hport, hback p rfl⟩
  refine ⟨n, h, hh, hfound hflat (fun _ => Pin.noConfusion) fun _ => Pin.noConfusion,
    hfound hboundary (fun _ => Pin.noConfusion) fun _ => Pin.noConfusion,
    hfound hmodule (fun _ => Pin.noConfusion) ?_⟩
  rintro _ ⟨⟩
  exact ⟨_, hopposite⟩

end Network
end DesignView
