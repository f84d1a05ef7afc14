import DesignView.Proofs.Catalog.Flat
import DesignView.Proofs.Network.FirstLink

/-!
What comes with the link of a cell. Its ports are linked by their names, and what is missing on
either side is reported once, whenever the link is made. So the links of the cells settle the links
of the ports and the reports.
-/

namespace DesignView

section Keys

variable {κ β : Type} {keys keys' : List κ} {f g : κ → List β}

theorem perm_flatMap_of_subset [DecidableEq κ] (hnodup : keys.Nodup) (hnodup' : keys'.Nodup)
    (hsub : ∀ x ∈ keys, x ∈ keys') (hnil : ∀ x ∈ keys', x ∉ keys → f x = []) :
    (keys.flatMap f).Perm (keys'.flatMap f) := by
  have hkeys : (keys ++ keys'.filter (· ∉ keys)).Perm keys' := by
    refine (List.perm_ext_iff_of_nodup ?_ hnodup').2 fun x => ?_
    · refine List.nodup_append.2 ⟨hnodup, hnodup'.filter _, fun a ha b hb hab => ?_⟩
      exact of_decide_eq_true (List.mem_filter.1 hb).2 (hab ▸ ha)
    · by_cases hx : x ∈ keys
      · simp [hx, hsub x hx]
      · simp [hx]
  have hrest : (keys'.filter (· ∉ keys)).flatMap f = [] := by
    refine List.flatMap_eq_nil_iff.2 fun x hx => ?_
    obtain ⟨hin, hout⟩ := List.mem_filter.1 hx
    exact hnil x hin (of_decide_eq_true hout)
  have hall := hkeys.flatMap_right f
  rwa [List.flatMap_append, hrest, List.append_nil] at hall

theorem perm_flatMap_of_eq (hnodup : keys.Nodup) {x : κ} (hx : x ∈ keys) (hnil : f x = [])
    (hother : ∀ z, z ≠ x → g z = f z) : (keys.flatMap f ++ g x).Perm (keys.flatMap g) := by
  obtain ⟨before, after, rfl⟩ := List.append_of_mem hx
  obtain ⟨-, hafter, hdisjoint⟩ := List.nodup_append.1 hnodup
  have hbefore : before.flatMap g = before.flatMap f :=
    List.flatMap_congr fun z hz => hother z (hdisjoint z hz x List.mem_cons_self)
  have hafter : after.flatMap g = after.flatMap f := by
    refine List.flatMap_congr fun z hz => hother z ?_
    rintro rfl
    exact (List.nodup_cons.1 hafter).1 hz
  simp only [List.flatMap_append, List.flatMap_cons, hnil, hbefore, hafter, List.nil_append,
    List.append_assoc]
  exact List.perm_append_comm.append_left _

end Keys

namespace Network

variable {n n' : Network} {x z : CellId} {y : Cell} {others more : List LibraryIssue}

def timingOf? (n : Network) (y : Cell) : Option (TimingLibrary × TimingCell) :=
  y.timing.bind fun ref => (n.timingLibrary? ref.library).bind fun library =>
    (library.cell? y.name).map fun timing => (library, timing)

def portRef? (n : Network) (y : Cell) (name : String) : Option TimingPortRef :=
  y.timing.bind fun ref => (n.timingOf? y).bind fun t =>
    if (t.2.port? name).isSome then some ⟨ref.library, t.2.name, name⟩ else none

def linkReports (n : Network) (x : CellId) : List LibraryIssue :=
  match (n.catalog.cells.find? x).bind n.timingOf? with
  | none => []
  | some t => (n.catalog.mismatches x t.1.name t.2).map fun cause => ⟨cause, .warning⟩

/-- A cell is linked by its name, if it is linked, and its ports are by theirs. -/
structure FittedAt (n : Network) (x : CellId) (y : Cell) : Prop where
  cell : ∀ ref, y.timing = some ref → n.refIn? ref.library y.name = some ref
  ports : ∀ ⦃p q⦄, n.catalog.ports.find? p = some q → q.cell = x →
    q.timing = if p ∈ n.catalog.linkedPorts x then n.portRef? y q.name else none

theorem portRef?_of_unlinked (hy : y.timing = none) (name : String) : n.portRef? y name = none := by
  rw [portRef?, hy, Option.bind_none]

theorem linkReports_of_unlinked (hx : n.catalog.cells.find? x = some y) (hy : y.timing = none) :
    n.linkReports x = [] := by
  rw [linkReports, hx, Option.bind_some, timingOf?, hy, Option.bind_none]

theorem fittedAt_of_unlinked (hy : y.timing = none) (hports : n.catalog.Unlinked x) :
    n.FittedAt x y := by
  refine ⟨fun ref href => ?_, fun p q hq hx => ?_⟩
  · cases hy.symm.trans href
  · rw [hports hq hx, portRef?_of_unlinked hy, ite_self]

theorem linkReports_of_timing (hx : n.catalog.cells.find? x = some y) {library : TimingLibrary}
    {timing : TimingCell} (ht : n.timingOf? y = some (library, timing)) : n.linkReports x =
      (n.catalog.mismatches x library.name timing).map fun cause => ⟨cause, .warning⟩ := by
  rw [linkReports, hx, Option.bind_some, ht]

def KeepsTiming (n n' : Network) : Prop :=
  ∀ t library, n.timingLibrary? t = some library → n'.timingLibrary? t = some library

theorem keepsTiming_of_eq (h : n'.timing = n.timing) : n.KeepsTiming n' := by
  intro t library hl
  rw [timingLibrary?, h]
  exact hl

theorem keepsTiming_addTiming (n : Network) (library : TimingLibrary) :
    n.KeepsTiming { n with timing := n.timing ++ [library] } := by
  intro t l hl
  obtain ⟨hlt, -⟩ := List.getElem?_eq_some_iff.1 hl
  exact (List.getElem?_append_left hlt).trans hl

namespace FittedAt

theorem exists_library (h : n.FittedAt x y) {ref : TimingCellRef} (href : y.timing = some ref) :
    ∃ library, n.timingLibrary? ref.library = some library := by
  obtain ⟨library, hl, -⟩ := Option.bind_eq_some_iff.1 (h.cell ref href)
  exact ⟨library, hl⟩

theorem timingOf? (h : n.FittedAt x y) (ht : n.KeepsTiming n') :
    n'.timingOf? y = n.timingOf? y := by
  unfold Network.timingOf?
  cases href : y.timing with
  | none => rfl
  | some ref =>
    obtain ⟨library, hl⟩ := h.exists_library href
    rw [Option.bind_some, Option.bind_some, hl, ht _ _ hl]

theorem alike (h : n.FittedAt x y) (hx : n.catalog.AlikeAt x n'.catalog) (ht : n.KeepsTiming n') :
    n'.FittedAt x y := by
  refine ⟨fun ref href => ?_, fun p q hq hcell => ?_⟩
  · obtain ⟨library, hl⟩ := h.exists_library href
    have hcell := h.cell ref href
    rw [refIn?, hl] at hcell
    rw [refIn?, ht _ _ hl]
    exact hcell
  · rw [hx.linkedPorts, portRef?, h.timingOf? ht]
    exact h.ports ((hx.ports p q hcell).1 hq) hcell

theorem linkReports (h : n.FittedAt x y) (hx : n.catalog.AlikeAt x n'.catalog)
    (ht : n.KeepsTiming n') (hfind : n.catalog.cells.find? x = some y) :
    n'.linkReports x = n.linkReports x := by
  simp only [Network.linkReports, hx.cell, hfind, Option.bind_some, h.timingOf? ht, hx.mismatches]

end FittedAt

/-- Everything that comes with links is there, once, and the rest of the issues are `others`. -/
structure Fits (n : Network) (others : List LibraryIssue) : Prop where
  intact : n.catalog.Intact
  fitted : ∀ ⦃x y⦄, n.catalog.cells.find? x = some y → n.FittedAt x y
  issues : n.issues.issues.Perm (others ++ n.catalog.cells.keys.flatMap n.linkReports)

theorem fits_of_empty (hc : n.catalog = {}) (hissues : n.issues.issues = []) : n.Fits [] := by
  refine ⟨hc ▸ Catalog.intact_empty, fun x y hx => ?_, ?_⟩
  · rw [hc] at hx
    cases hx
  · rw [hissues, hc]
    exact .refl []

namespace Fits

theorem congr (h : n.Fits others) (hcatalog : n'.catalog = n.catalog)
    (htiming : n'.timing = n.timing) (hissues : n'.issues = n.issues) : n'.Fits others := by
  obtain ⟨settings, db, timing, catalog, issues, _⟩ := n
  obtain ⟨settings', db', timing', catalog', issues', _⟩ := n'
  obtain rfl : catalog' = catalog := hcatalog
  obtain rfl : timing' = timing := htiming
  obtain rfl : issues' = issues := hissues
  exact ⟨h.intact, fun x y hx => ⟨(h.fitted hx).cell, (h.fitted hx).ports⟩, h.issues⟩

theorem extend (h : n.Fits others) (hi : n'.catalog.Intact) (ht : n.KeepsTiming n')
    (hold : ∀ x ∈ n.catalog.cells.keys, n.catalog.AlikeAt x n'.catalog)
    (hnew : ∀ x y, x ∉ n.catalog.cells.keys → n'.catalog.cells.find? x = some y →
      y.timing = none ∧ n'.catalog.Unlinked x)
    (hissues : n'.issues.issues = n.issues.issues ++ more) : n'.Fits (others ++ more) := by
  refine ⟨hi, fun x y hx => ?_, ?_⟩
  · by_cases hin : x ∈ n.catalog.cells.keys
    · have halike := hold x hin
      exact (h.fitted (halike.cell.symm.trans hx)).alike halike ht
    · obtain ⟨hy, hports⟩ := hnew x y hin hx
      exact fittedAt_of_unlinked hy hports
  · have hkept : n.catalog.cells.keys.flatMap n'.linkReports =
        n.catalog.cells.keys.flatMap n.linkReports := by
      refine List.flatMap_congr fun x hin => ?_
      obtain ⟨y, hx⟩ := OrderedMap.mem_keys_iff.1 hin
      exact (h.fitted hx).linkReports (hold x hin) ht hx
    have hall : (n.catalog.cells.keys.flatMap n'.linkReports).Perm
        (n'.catalog.cells.keys.flatMap n'.linkReports) := by
      refine perm_flatMap_of_subset h.intact.tidy.cells.nodup hi.tidy.cells.nodup
        (fun x hin => ?_) fun x hin hout => ?_
      · obtain ⟨y, hx⟩ := OrderedMap.mem_keys_iff.1 hin
        exact OrderedMap.mem_keys_iff.2 ⟨y, (hold x hin).cell.trans hx⟩
      · obtain ⟨y, hx⟩ := OrderedMap.mem_keys_iff.1 hin
        exact linkReports_of_unlinked hx (hnew x y hout hx).1
    rw [hissues]
    refine (h.issues.append_right more).trans ?_
    rw [List.append_assoc, List.append_assoc, ← hkept]
    exact (List.perm_append_comm.trans (hall.append_left more)).append_left others

theorem sameCells (h : n.Fits others) (hi : n'.catalog.Intact) (ht : n.KeepsTiming n')
    (hcells : n'.catalog.cells = n.catalog.cells) (hports : n'.catalog.ports = n.catalog.ports)
    (hbare : Graft.bare.catalog n'.catalog = Graft.bare.catalog n.catalog)
    (hissues : n'.issues = n.issues) : n'.Fits others := by
  have hsame (x : CellId) : n.catalog.SameAt x n'.catalog :=
    ⟨by rw [hcells], fun p q _ => by rw [hports]⟩
  rw [← List.append_nil others]
  refine h.extend hi ht (fun x _ => (hsame x).alikeAt_of_bare hbare) (fun x y hout hx => ?_) ?_
  · exact absurd (OrderedMap.mem_keys_iff.2 ⟨y, hcells ▸ hx⟩) hout
  · rw [hissues, List.append_nil]

theorem grows (h : n.Fits others) (hf : n.catalog.Flat) (hgrows : n.catalog.Grows n'.catalog)
    (ht : n.KeepsTiming n') (hissues : n'.issues.issues = n.issues.issues ++ more) :
    n'.Fits (others ++ more) := by
  have hfresh : (⟨n.catalog.count + 1⟩ : CellId) ∉ n.catalog.cells.keys :=
    h.intact.tidy.cells.fresh rfl
  refine h.extend hgrows.intact ht (fun x hx => ?_) (fun x y hout hx => ?_) hissues
  · have hne : x ≠ ⟨n.catalog.count + 1⟩ := fun heq => hfresh (heq ▸ hx)
    exact (hgrows.beside.sameAt hne).alikeAt h.intact hgrows.intact hf
  · by_cases hnew : x = ⟨n.catalog.count + 1⟩
    · subst hnew
      obtain ⟨y', hy', htiming⟩ := hgrows.cell
      cases hx.symm.trans hy'
      exact ⟨htiming, hgrows.unlinked⟩
    · rw [hgrows.beside.cells x hnew] at hx
      exact absurd (OrderedMap.mem_keys_iff.2 ⟨y, hx⟩) hout

end Fits

theorem linkCell?_issues {id : TimingId} (hx : n.catalog.cells.find? x = some y)
    (e : n.linkCell? x id = some n') : ∃ library timing, n.timingLibrary? id = some library ∧
      library.cell? y.name = some timing ∧
      n'.catalog = (n.catalog.link x id library.name timing).1 ∧
      n'.issues.issues = n.issues.issues ++
        (n.catalog.mismatches x library.name timing).map fun cause => ⟨cause, .warning⟩ := by
  obtain ⟨library, y', timing, hl, hx', hcell, rfl⟩ := linkCell?_eq_some e
  obtain rfl : y = y' := Option.some.inj (hx.symm.trans hx')
  refine ⟨library, timing, hl, hcell, reportAll_catalog .., ?_⟩
  rw [reportAll_eq]
  rfl

theorem FittedAt.link (h : n.FittedAt x y) (hy : y.timing = none) {id : TimingId}
    {library : TimingLibrary} {timing : TimingCell} (hl : n'.timingLibrary? id = some library)
    (hcell : library.cell? y.name = some timing)
    (hcatalog : n'.catalog = (n.catalog.link x id library.name timing).1) :
    n'.timingOf? { y with timing := some ⟨id, timing.name⟩ } = some (library, timing) ∧
      n'.FittedAt x { y with timing := some ⟨id, timing.name⟩ } := by
  have ht : n'.timingOf? { y with timing := some ⟨id, timing.name⟩ } = some (library, timing) := by
    simp only [Network.timingOf?, Option.bind_some, hl, hcell, Option.map_some]
  refine ⟨ht, fun ref href => ?_, fun p q hq hp => ?_⟩
  · cases href
    simp only [refIn?, hl, Option.bind_some, hcell, Option.map_some]
  · rw [hcatalog, Catalog.port?_link] at hq
    obtain ⟨q₀, hq₀, rfl⟩ := Option.map_eq_some_iff.1 hq
    rw [hcatalog, Catalog.linkedPorts_link, portRef?, ht, Option.bind_some, Option.bind_some]
    by_cases hin : p ∈ n.catalog.linkedPorts x ∧ (timing.port? q₀.name).isSome = true
    · rw [if_pos hin, if_pos hin.1, if_pos hin.2]
    · rw [if_neg hin] at hp ⊢
      have hnone : q₀.timing = none := by
        rw [h.ports hq₀ hp, portRef?_of_unlinked hy, ite_self]
      rw [hnone]
      split
      · next hp => rw [if_neg fun hname => hin ⟨hp, hname⟩]
      · rfl

namespace Fits

theorem linkCell? (h : n.Fits others) (hx : n.catalog.cells.find? x = some y)
    (hy : y.timing = none) {id : TimingId} (e : n.linkCell? x id = some n') : n'.Fits others := by
  have hi' := (Arranges.linkCell? e).intact h.intact
  have ht : n.KeepsTiming n' := keepsTiming_of_eq (timing_linkCell? e)
  obtain ⟨library, timing, hl, hcell, hcatalog, hissues⟩ := linkCell?_issues hx e
  have hother (z : CellId) (hz : z ≠ x) : n.catalog.AlikeAt z n'.catalog :=
    hcatalog ▸ .link h.intact hz id library.name timing
  have hkeys : n'.catalog.cells.keys = n.catalog.cells.keys := by
    rw [hcatalog, Catalog.cells_link, OrderedMap.keys_modify]
  have hlinked : n'.catalog.cells.find? x = some { y with timing := some ⟨id, timing.name⟩ } := by
    rw [hcatalog, Catalog.cells_link, OrderedMap.find?_modify, if_pos rfl, hx, Option.map_some]
  obtain ⟨htiming, hfitted⟩ := (h.fitted hx).link hy (ht _ _ hl) hcell hcatalog
  refine ⟨hi', fun z y' hz => ?_, ?_⟩
  · by_cases hzx : z = x
    · subst hzx
      cases hlinked.symm.trans hz
      exact hfitted
    · have halike := hother z hzx
      exact (h.fitted (halike.cell.symm.trans hz)).alike halike ht
  · have hreports := linkReports_of_timing hlinked htiming
    rw [hcatalog, Catalog.mismatches_link] at hreports
    have hsame (z : CellId) (hz : z ≠ x) : n'.linkReports z = n.linkReports z := by
      have halike := hother z hz
      cases hfind : n.catalog.cells.find? z with
      | none => simp only [linkReports, halike.cell, hfind, Option.bind_none]
      | some y' => exact (h.fitted hfind).linkReports halike ht hfind
    have hperm := perm_flatMap_of_eq h.intact.tidy.cells.nodup (OrderedMap.mem_keys_iff.2 ⟨y, hx⟩)
      (linkReports_of_unlinked hx hy) hsame
    rw [hissues, ← hreports, hkeys]
    refine (h.issues.append_right _).trans ?_
    rw [List.append_assoc]
    exact hperm.append_left others

theorem linkFirst (h : n.Fits others) (hx : n.catalog.cells.find? x = some y)
    (hy : y.timing = none) (ids : List TimingId) : (n.linkFirst x ids).Fits others := by
  induction ids with
  | nil => exact h
  | cons id ids ih =>
    rw [Network.linkFirst]
    cases e : n.linkCell? x id with
    | none => exact ih
    | some n' => exact h.linkCell? hx hy e

theorem linkCells (h : n.Fits others) {id : TimingId} {cells : List CellId} (hnodup : cells.Nodup)
    (hcells : ∀ x ∈ cells, ∃ y, n.catalog.cells.find? x = some y ∧ y.timing = none)
    (linked : Bool) : (cells.foldl (fun (acc : Network × Bool) cell =>
      match acc.1.linkCell? cell id with
      | some n => (n, true)
      | none => (acc.1, acc.2)) (n, linked)).1.Fits others := by
  induction cells generalizing n linked with
  | nil => exact h
  | cons x cells ih =>
    obtain ⟨hnew, hnodup⟩ := List.nodup_cons.1 hnodup
    obtain ⟨y, hx, hy⟩ := hcells x List.mem_cons_self
    rw [List.foldl_cons]
    dsimp only
    cases e : n.linkCell? x id with
    | none => exact ih h hnodup (fun z hz => hcells z (List.mem_cons_of_mem x hz)) linked
    | some n' =>
      refine ih (h.linkCell? hx hy e) hnodup (fun z hz => ?_) true
      obtain ⟨library, timing, -, -, hcatalog, -⟩ := linkCell?_issues hx e
      have hne : z ≠ x := fun heq => hnew (heq ▸ hz)
      rw [hcatalog, Catalog.cells_link, OrderedMap.find?_modify, if_neg hne]
      exact hcells z (List.mem_cons_of_mem x hz)

end Fits

namespace Fits

theorem recordTimingMasters (h : n.Fits others) (id : TimingId) :
    (n.recordTimingMasters id).Fits others := by
  have hi := (Arranges.recordTimingMasters n id).intact h.intact
  cases hl : n.timingLibrary? id with
  | none =>
    rw [recordTimingMasters_of_none hl]
    exact h
  | some library =>
    rw [recordTimingMasters_eq hl] at hi ⊢
    exact h.sameCells hi (keepsTiming_of_eq rfl) rfl rfl rfl rfl

theorem relinkTiming (h : n.Fits others) (hm : n.catalog.Mirrors n.db) (id : TimingId) :
    (n.relinkTiming id).Fits others := by
  unfold Network.relinkTiming
  split
  · exact h.congr rfl rfl rfl
  · dsimp only
    generalize hacc : List.foldl _ (n, false) _ = acc
    have hlinked : acc.1.Fits others := by
      rw [← hacc]
      refine h.linkCells ((nodup_allCells hm.tidy).sublist (List.filter_sublist.map _))
        (fun x hx => ?_) false
      obtain ⟨⟨x, y⟩, he, rfl⟩ := List.mem_map.1 hx
      obtain ⟨hall, hy⟩ := List.mem_filter.1 he
      exact ⟨y, (mem_allCells hm.tidy (housed hm)).1 hall, Option.isNone_iff_eq_none.1 hy⟩
    obtain ⟨m, linked⟩ := acc
    have hrecorded := hlinked.recordTimingMasters id
    cases linked <;> exact hrecorded.congr rfl rfl rfl

theorem loadTiming (h : n.Fits others) (hm : n.catalog.Mirrors n.db) (library : TimingLibrary) :
    (n.loadTiming library).2.Fits others := by
  have hadded : Fits { n with timing := n.timing ++ [library] } others :=
    h.sameCells h.intact (keepsTiming_addTiming n library) rfl rfl rfl rfl
  exact hadded.relinkTiming hm _

variable {m : Network} {others' : List LibraryIssue}

theorem timingOf?_congr (h : m.timing = n.timing) (y : Cell) : m.timingOf? y = n.timingOf? y := by
  simp only [timingOf?, timingLibrary?, h]

theorem port_of_bare (hn : n.Fits others) (hm : m.Fits others') (ht : m.timing = n.timing)
    (hbare : Graft.bare.catalog m.catalog = Graft.bare.catalog n.catalog) {p : PortId} {q : Port}
    (hx : n.catalog.cells.find? q.cell = some y) (hx' : m.catalog.cells.find? q.cell = some y)
    (hq : m.catalog.ports.find? p = some q) : n.catalog.ports.find? p = some q := by
  obtain ⟨q₀, hq₀, hsame⟩ := Catalog.exists_port_of_bare hbare hq
  have hcell : q₀.cell = q.cell := by rw [hsame]
  have hname : q₀.name = q.name := by rw [hsame]
  have hports : m.catalog.linkedPorts q.cell = n.catalog.linkedPorts q.cell := by
    rw [← Catalog.linkedPorts_bare, hbare, Catalog.linkedPorts_bare]
  have href : m.portRef? y q.name = n.portRef? y q.name := by
    rw [portRef?, portRef?, timingOf?_congr ht]
  have htiming : q₀.timing = q.timing := by
    rw [(hn.fitted hx).ports hq₀ hcell, (hm.fitted hx').ports hq rfl, hports, href, hname]
  rw [hq₀, hsame, ← htiming]

theorem settled (hn : n.Fits others) (hm : m.Fits others) (ht : m.timing = n.timing)
    (hbare : Graft.bare.catalog m.catalog = Graft.bare.catalog n.catalog)
    (hcells : ∀ x, m.catalog.cells.find? x = n.catalog.cells.find? x) :
    (∀ p, m.catalog.ports.find? p = n.catalog.ports.find? p) ∧
      m.issues.issues.Perm n.issues.issues := by
  refine ⟨fun p => Option.ext fun q => ⟨fun hq => ?_, fun hq => ?_⟩, ?_⟩
  · obtain ⟨k, hk⟩ := hm.intact.owned (Catalog.portLabel?_of_find? hq)
    obtain ⟨y, hy, -⟩ := Option.map_eq_some_iff.1 hk
    exact hn.port_of_bare hm ht hbare ((hcells _).symm.trans hy) hy hq
  · obtain ⟨k, hk⟩ := hn.intact.owned (Catalog.portLabel?_of_find? hq)
    obtain ⟨y, hy, -⟩ := Option.map_eq_some_iff.1 hk
    exact hm.port_of_bare hn ht.symm hbare.symm ((hcells _).trans hy) hy hq
  · have hkeys : m.catalog.cells.keys = n.catalog.cells.keys := by
      rw [← Catalog.cellKeys_bare, hbare, Catalog.cellKeys_bare]
    have hmismatches (x : CellId) (library : String) (timing : TimingCell) :
        m.catalog.mismatches x library timing = n.catalog.mismatches x library timing := by
      rw [← Catalog.mismatches_bare, hbare, Catalog.mismatches_bare]
    have hreports : m.linkReports = n.linkReports := by
      funext x
      simp only [linkReports, hcells, funext (timingOf?_congr ht), hmismatches]
    have hm := hm.issues
    rw [hkeys, hreports] at hm
    exact hm.trans hn.issues.symm

end Fits
end Network
end DesignView
