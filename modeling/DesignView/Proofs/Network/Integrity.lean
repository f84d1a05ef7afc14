import DesignView.Proofs.Catalog.Distinct
import DesignView.Proofs.Network.Ports
import DesignView.Proofs.Network.Stored

/-!
Integrity of the store of libraries: look-ups by name and by source are exact, and no reference
dangles, whatever was loaded, loaded again and edited before.
-/

namespace DesignView.Network

variable {n n' : Network} {x x' : CellId} {y y' : Cell} {s : LibrarySource}

theorem Step.stored (s : n.Step n') (hdb : n.db.WellFormed) (hm : n.catalog.Mirrors n.db)
    (h : n.Stored) : n'.Stored := by
  cases s with
  | load s => exact s.stored hdb hm h
  | edit s => exact s.changes.stored h
  | query s => exact s.stored h

theorem Reachable.stored (h : n.Reachable) : n.Stored := by
  induction h using Reachable.induct with
  | new => exact stored_of_empty rfl rfl rfl
  | step hbefore s ih =>
    exact s.stored hbefore.current.sound.db hbefore.shown.mirrors ih

structure Integrity (n : Network) : Prop where
  cells : ∀ ⦃x y⦄, n.catalog.cells.find? x = some y →
    (∃ a, n.catalog.libraries.find? y.library = some a) ∧
      (∀ l, (x, y) ∈ n.catalog.cellsOf l ↔ l = y.library) ∧
      ∀ l name, n.catalog.cellIn? l name = some x ↔ l = y.library ∧ name = y.name
  listed : ∀ ⦃l x y⦄, (x, y) ∈ n.catalog.cellsOf l → n.catalog.cells.find? x = some y
  ports : ∀ ⦃p q⦄, n.catalog.ports.find? p = some q →
    (∃ y, n.catalog.cells.find? q.cell = some y) ∧
      ∀ x name, n.catalog.portNamed? x name = some p ↔ x = q.cell ∧ name = q.name
  top : ∀ ⦃x y p⦄, n.catalog.cells.find? x = some y → p ∈ y.ports →
    ∃ q, n.catalog.ports.find? p = some q ∧ q.cell = x
  members : ∀ ⦃p q m⦄, n.catalog.ports.find? p = some q → m ∈ q.shape.members →
    ∃ q', n.catalog.ports.find? m = some q' ∧ q'.cell = q.cell
  buses : ∀ ⦃p q bus i⦄, n.catalog.ports.find? p = some q → q.shape = .busBit bus i →
    ∃ q', n.catalog.ports.find? bus = some q' ∧ q'.cell = q.cell
  libraryOf : ∀ lib l, n.catalog.libraryOf? lib = some l ↔
    ∃ a, n.catalog.libraries.find? l = some a ∧ a.source = .physical lib
  cellOfMaster : ∀ m x, n.catalog.cellOfMaster? m = some x ↔
    ∃ y, n.catalog.cells.find? x = some y ∧ y.source = .physical m
  cellOfModule : ∀ m x, n.catalog.cellOfModule? m = some x ↔
    ∃ y, n.catalog.cells.find? x = some y ∧ y.source = .module m
  portOfMTerm : ∀ t p, n.catalog.portOfMTerm? t = some p ↔
    ∃ q, n.catalog.ports.find? p = some q ∧ q.source = .physical t
  portOfModBTerm : ∀ ⦃b p⦄, n.catalog.portOfModBTerm? b = some p →
    ∃ q, n.catalog.ports.find? p = some q ∧ q.source = .moduleBoundary b
  timingMaster : ∀ ⦃t name m⦄, n.catalog.timingMaster? t name = some m →
    ∃ x, n.catalog.cellOfMaster? m = some x
  boundary : ∀ ⦃m name b⦄, n.catalog.boundary? m name = some b → ∃ d t, n.design? = some d ∧
    d.modBTerms.find? b = some t ∧ t.module = m ∧ t.name = name
  libraries : ∀ ⦃l l' a a'⦄, n.catalog.libraries.find? l = some a →
    n.catalog.libraries.find? l' = some a' → a.source = a'.source → l = l'
  loaded : n.designLoaded = n.design?.isSome
  topLibrary : (∃ l, n.catalog.topLibrary? = some l) ↔ n.designLoaded = true
  topCell : ∀ ⦃l⦄, n.catalog.topLibrary? = some l →
    ∃ x y, n.catalog.topCell? = some x ∧ n.catalog.cellsOf l = [(x, y)] ∧ y.source = .design
  moduleLibrary : (∃ l, n.catalog.moduleLibrary? = some l) ↔
    n.designLoaded = true ∧ n.hierarchy = true

theorem source_unique (hdb : n.db.WellFormed) {u v : CellSource} {name : String}
    (hu : n.db.home? u = some s) (hv : n.db.home? v = some s) (hu' : n.db.nameOf? u = some name)
    (hv' : n.db.nameOf? v = some name) : u = v := by
  cases u with
  | physical a =>
    obtain ⟨m, hm, hlib⟩ := Option.map_eq_some_iff.1 hu
    have hname : m.name = name := Option.some.inj ((Database.nameOf?_physical hm).symm.trans hu')
    cases v with
    | physical b =>
      obtain ⟨m', hm', hlib'⟩ := Option.map_eq_some_iff.1 hv
      have hname' : m'.name = name :=
        Option.some.inj ((Database.nameOf?_physical hm').symm.trans hv')
      have hlibs : m.lib = m'.lib := LibrarySource.physical.inj (hlib.trans hlib'.symm)
      rw [hdb.masterNames hm hm' (Prod.ext hlibs (hname.trans hname'.symm))]
    | module | design => cases hlib.trans (Option.some.inj hv).symm
  | module a =>
    obtain ⟨m, hm, hname⟩ := Option.map_eq_some_iff.1 hu'
    obtain ⟨d, hd, hm⟩ := Option.bind_eq_some_iff.1 hm
    cases v with
    | physical b =>
      obtain ⟨_, -, hlib'⟩ := Option.map_eq_some_iff.1 hv
      cases hlib'.trans (Option.some.inj hu).symm
    | module b =>
      obtain ⟨m', hm', hname'⟩ := Option.map_eq_some_iff.1 hv'
      obtain ⟨d', hd', hm'⟩ := Option.bind_eq_some_iff.1 hm'
      obtain rfl : d = d' := Option.some.inj (hd.symm.trans hd')
      rw [(hdb.design hd).moduleNames hm hm' (hname.trans hname'.symm)]
    | design => cases (Option.some.inj hu).trans (Option.some.inj hv).symm
  | design =>
    cases v with
    | physical b =>
      obtain ⟨_, -, hlib'⟩ := Option.map_eq_some_iff.1 hv
      cases hlib'.trans (Option.some.inj hu).symm
    | module b => cases (Option.some.inj hu).trans (Option.some.inj hv).symm
    | design => rfl

theorem exists_library (hm : n.catalog.Mirrors n.db) (hx : n.catalog.cells.find? x = some y) :
    ∃ a, n.catalog.libraries.find? y.library = some a ∧ n.db.home? y.source = some a.source := by
  obtain ⟨s, hhome, hl⟩ := hm.home (Catalog.cellLabel?_of_find? hx)
  obtain ⟨a, ha, rfl⟩ := Option.map_eq_some_iff.1 hl
  exact ⟨a, ha, hhome⟩

theorem source_eq_of_name (hdb : n.db.WellFormed) (hm : n.catalog.Mirrors n.db)
    (hn : n.catalog.Stocked n.db) (hx : n.catalog.cells.find? x = some y)
    (hx' : n.catalog.cells.find? x' = some y') (hlibrary : y.library = y'.library)
    (hname : y.name = y'.name) : y.source = y'.source := by
  obtain ⟨a, ha, hhome⟩ := exists_library hm hx
  obtain ⟨a', ha', hhome'⟩ := exists_library hm hx'
  obtain rfl : a = a' := Option.some.inj (ha.symm.trans (hlibrary ▸ ha'))
  exact source_unique hdb hhome hhome' (hn.named hx) (hname ▸ hn.named hx')

theorem distinct (hdb : n.db.WellFormed) (hm : n.catalog.Mirrors n.db)
    (hn : n.catalog.Stocked n.db) : n.catalog.Distinct := by
  have hcells ⦃x x' y y'⦄ (hx : n.catalog.cells.find? x = some y)
      (hx' : n.catalog.cells.find? x' = some y') (hsame : y.source = y'.source) : x = x' :=
    hm.cells (Catalog.cellLabel?_of_find? hx) (Catalog.cellLabel?_of_find? hx') hsame
  have hnames ⦃p p' q q'⦄ (hp : n.catalog.ports.find? p = some q)
      (hp' : n.catalog.ports.find? p' = some q') (hcell : q.cell = q'.cell)
      (hname : q.name = q'.name) : p = p' :=
    hn.intact.names (Catalog.portLabel?_of_find? hp) (Catalog.portLabel?_of_find? hp') hcell hname
  refine ⟨fun l l' a a' hl hl' hsame => ?_, hcells, fun x x' y y' hx hx' hlibrary hname => ?_,
    hnames, fun p p' q q' t hp hp' ht ht' => ?_⟩
  · have hlabel : n.catalog.librarySource? l = some a.source := congrArg (Option.map _) hl
    have hlabel' : n.catalog.librarySource? l' = some a.source :=
      (congrArg (Option.map _) hl').trans (congrArg some hsame.symm)
    exact hm.libraries hlabel hlabel'
  · exact hcells hx hx' (source_eq_of_name hdb hm hn hx hx' hlibrary hname)
  · -- Ports for one terminal are in the cell of its master, under its name.
    obtain ⟨m, lib, hmt, hname, hcell⟩ := hm.ports (Catalog.portLabel?_of_find? hp) t ht
    obtain ⟨m', lib', hmt', hname', hcell'⟩ := hm.ports (Catalog.portLabel?_of_find? hp') t ht'
    obtain rfl : m = m' := Option.some.inj (hmt.symm.trans hmt')
    exact hnames hp hp' (hm.cells hcell hcell' rfl) (hname.trans hname'.symm)

theorem exists_owned {x : CellId} {p : PortId} (h : n.catalog.Owns x p) :
    ∃ q, n.catalog.ports.find? p = some q ∧ q.cell = x := by
  obtain ⟨l, hl, hx⟩ := h
  obtain ⟨q, hq, rfl⟩ := Option.map_eq_some_iff.1 hl
  exact ⟨q, hq, hx⟩

theorem hasLibrary_iff {c : Catalog} (ht : c.Tidy) (hd : c.Distinct) : c.HasLibrary s ↔
    ∃ l, (c.libraries.firstKey? fun a => a.source = s) = some l := by
  simp only [hd.libraryFor_eq_some_iff ht.libraries.nodup, Catalog.HasLibrary,
    Catalog.librarySource?, Option.map_eq_some_iff]

theorem Stored.topCell (hs : n.Stored) (h : n.Shown) (hdistinct : n.catalog.Distinct)
    {l : LibraryId} (hl : n.catalog.topLibrary? = some l) :
    ∃ x y, n.catalog.topCell? = some x ∧ n.catalog.cellsOf l = [(x, y)] ∧ y.source = .design := by
  have hm := h.mirrors
  obtain ⟨a, ha, hsource⟩ := (hdistinct.libraryFor_eq_some_iff hm.tidy.libraries.nodup).1 hl
  have hloaded : n.designLoaded = true := hs.top.1 ((hasLibrary_iff hm.tidy hdistinct).2 ⟨l, hl⟩)
  rw [hs.loaded] at hloaded
  obtain ⟨d, hd⟩ := Option.isSome_iff_exists.1 hloaded
  obtain ⟨x, lib, hx, -⟩ := h.top hd
  obtain ⟨y, hy, hlabel⟩ := Option.map_eq_some_iff.1 hx
  have hy' : y.source = .design := congrArg CellLabel.source hlabel
  have hin : ∀ e, e ∈ n.catalog.cellsOf l ↔ e = (x, y) := by
    rintro ⟨x', y'⟩
    rw [Catalog.mem_cellsOf hm.tidy]
    constructor
    · rintro ⟨hx', rfl⟩
      obtain ⟨a', ha', hhome⟩ := exists_library hm hx'
      obtain rfl : a = a' := Option.some.inj (ha.symm.trans ha')
      have hdesign : y'.source = .design := by
        cases hy'' : y'.source with
        | physical m =>
          rw [hy''] at hhome
          obtain ⟨_, -, hlib⟩ := Option.map_eq_some_iff.1 hhome
          cases hlib.trans hsource
        | module m =>
          rw [hy''] at hhome
          cases (Option.some.inj hhome).trans hsource
        | design => rfl
      obtain rfl : x' = x := hm.cells (Catalog.cellLabel?_of_find? hx')
        (Catalog.cellLabel?_of_find? hy) (hdesign.trans hy'.symm)
      rw [Option.some.inj (hx'.symm.trans hy)]
    · rintro ⟨⟩
      obtain ⟨a', ha', hhome⟩ := exists_library hm hy
      rw [hy'] at hhome
      have hlabel' : n.catalog.librarySource? y.library = some .design :=
        (congrArg (Option.map _) ha').trans hhome.symm
      have hlabel : n.catalog.librarySource? l = some .design :=
        (congrArg (Option.map _) ha).trans (congrArg some hsource)
      exact ⟨hy, hm.libraries hlabel' hlabel⟩
  have hnodup : (n.catalog.cellsOf l).Nodup :=
    (List.Nodup.of_map _ hm.tidy.cells.nodup).sublist List.filter_sublist
  refine ⟨x, y, (hdistinct.cellFor_eq_some_iff hm.tidy.cells.nodup).2 ⟨y, hy, hy'⟩, ?_, hy'⟩
  exact List.perm_singleton.1 ((List.perm_ext_iff_of_nodup hnodup (List.nodup_singleton _)).2
    fun e => (hin e).trans List.mem_singleton.symm)

theorem Reachable.catalog_integrity (h : n.Reachable) : n.Integrity := by
  have hs := h.stored
  have hm := h.shown.mirrors
  have hdb := h.current.sound.db
  have hi := hs.stocked.intact
  have hd := distinct hdb hm hs.stocked
  have hlibraries := hi.tidy.libraries.nodup
  have hcells := hi.tidy.cells.nodup
  have hports := hi.tidy.ports.nodup
  constructor
  case cells =>
    intro x y hx
    obtain ⟨a, ha, -⟩ := exists_library hm hx
    refine ⟨⟨a, ha⟩, fun l => ?_, fun l name => ?_⟩
    · rw [Catalog.mem_cellsOf hm.tidy]
      exact ⟨fun hl => hl.2.symm, fun hl => ⟨hx, hl.symm⟩⟩
    · rw [hd.cellIn?_eq_some_iff hcells, hx]
      simp [eq_comm]
  case listed => exact fun l x y hx => ((Catalog.mem_cellsOf hm.tidy).1 hx).1
  case ports =>
    intro p q hq
    obtain ⟨k, hk⟩ := hi.owned (Catalog.portLabel?_of_find? hq)
    obtain ⟨y, hy, -⟩ := Option.map_eq_some_iff.1 hk
    refine ⟨⟨y, hy⟩, fun x name => ?_⟩
    rw [hd.portNamed?_eq_some_iff hports, hq]
    simp [eq_comm]
  case top => exact fun x y p hx hp => exists_owned (hi.top hx hp)
  case members =>
    exact fun p q m hq hm => exists_owned (hi.refs hq (PortShape.mem_refs_of_members hm))
  case buses =>
    intro p q bus i hq hbus
    refine exists_owned (hi.refs hq ?_)
    rw [hbus]
    exact List.mem_singleton_self bus
  case libraryOf => exact fun lib l => hd.libraryFor_eq_some_iff hlibraries
  case cellOfMaster => exact fun m x => hd.cellFor_eq_some_iff hcells
  case cellOfModule => exact fun m x => hd.cellFor_eq_some_iff hcells
  case portOfMTerm => exact fun t p => hd.portOfMTerm?_eq_some_iff hports
  case portOfModBTerm =>
    intro b p hb
    obtain ⟨l, hl, hsource⟩ := hi.boundaryPorts hb
    obtain ⟨q, hq, rfl⟩ := Option.map_eq_some_iff.1 hl
    exact ⟨q, hq, hsource⟩
  case timingMaster =>
    intro t name m ht
    obtain ⟨x, l, hx, hsource⟩ := hi.timingMasters ht
    obtain ⟨y, hy, rfl⟩ := Option.map_eq_some_iff.1 hx
    exact ⟨x, (hd.cellFor_eq_some_iff hcells).2 ⟨y, hy, hsource⟩⟩
  case boundary =>
    intro m name b hb
    cases hdesign : n.design? with
    | none =>
      rw [Catalog.boundary?, hs.boundaries hdesign] at hb
      cases hb
    | some d =>
      rw [h.current.sound.boundaries hdesign] at hb
      obtain ⟨t, ht, hnamed⟩ := (hdb.design hdesign).modBTermNames.firstIn?_eq_some_iff
        (hdb.design hdesign).modBTerms |>.1 hb
      exact ⟨d, t, rfl, ht, hnamed.1, hnamed.2⟩
  case libraries => exact hd.libraries
  case loaded => exact hs.loaded
  case topLibrary => exact (hasLibrary_iff hi.tidy hd).symm.trans hs.top
  case topCell => exact fun l hl => hs.topCell h.shown hd hl
  case moduleLibrary => exact (hasLibrary_iff hi.tidy hd).symm.trans hs.modules

end DesignView.Network
