import DesignView.Proofs.Catalog.Mismatches
import DesignView.Proofs.Network.Catalog
import DesignView.Proofs.Network.Ports
import DesignView.Proofs.Network.Untimed
import Mathlib

/-!
What is reported when a physical library is loaded. Each of its cells is grouped and linked once,
and no two cells of a library have the same name, so every mismatch that is due is reported, once.
-/

namespace DesignView.Network

open Catalog (Builds)
open Relation (ReflTransGen)

variable {n n' n'' : Network} {x : CellId} {y : Cell} {library : LibraryId} {cause : Mismatch}
variable {causes causes' : List Mismatch} {names names' : List String}

/-- What is due for a cell: what is missing on either side of its link, and the bits that are
repeated. -/
def DueAt (n : Network) (x : CellId) (y : Cell) (cause : Mismatch) : Prop :=
  (∃ l t, n.timingOf? y = some (l, t) ∧ n.catalog.Lacks x y.name l.name t cause) ∨
    ∃ port, n.catalog.Repeats x port ∧ cause = .duplicateBusBit y.name port

theorem DueAt.cell (h : n.DueAt x y cause) : cause.cell = y.name := by
  rcases h with ⟨l, t, -, hlacks⟩ | ⟨port, -, rfl⟩
  · exact hlacks.cell
  · rfl

theorem dueAt_congr (h : n.catalog.SameAt x n'.catalog) (ht : n'.timing = n.timing) :
    n'.DueAt x y cause ↔ n.DueAt x y cause := by
  simp only [DueAt, Fits.timingOf?_congr ht, h.lacks_iff, h.repeats_iff]

/-- The mismatches are added to the issues as warnings, and each gets a line in the journal. -/
structure Warns (n n' : Network) (causes : List Mismatch) : Prop where
  issues : n'.issues.issues = n.issues.issues ++ causes.map fun cause => ⟨cause, .warning⟩
  journal : n'.journal = n.journal ++ causes.map fun cause => ⟨.warn, cause.text⟩

namespace Warns

theorem of_eq (hissues : n'.issues = n.issues) (hjournal : n'.journal = n.journal) :
    n.Warns n' [] := ⟨by rw [hissues]; simp, by rw [hjournal]; simp⟩

theorem trans (h : n.Warns n' causes) (h' : n'.Warns n'' causes') :
    n.Warns n'' (causes ++ causes') :=
  ⟨by rw [h'.issues, h.issues, List.map_append, List.append_assoc],
    by rw [h'.journal, h.journal, List.map_append, List.append_assoc]⟩

theorem reportAll (n : Network) (causes : List Mismatch) :
    n.Warns (n.reportAll causes) causes := by
  induction causes generalizing n with
  | nil => exact of_eq rfl rfl
  | cons cause causes ih =>
    have hone : n.Warns (n.report cause) [cause] := ⟨rfl, rfl⟩
    exact hone.trans (ih (n.report cause))

theorem reportAll_setCatalog (n : Network) (c : Catalog) (causes : List Mismatch) :
    n.Warns (Network.reportAll { n with catalog := c } causes) causes := by
  have hset : n.Warns { n with catalog := c } [] := of_eq rfl rfl
  exact hset.trans (reportAll ..)

end Warns

theorem groupCell_warns (n : Network) (x : CellId) (name : String) :
    n.Warns (n.groupCell x name) (n.repeatedBits x name) :=
  .reportAll_setCatalog ..

section Fresh

variable {ps : List PortSpec} {name : String}
variable (hfresh : n.catalog.Fresh x ps) (hi : n.catalog.Intact)
include hfresh hi

theorem mem_repeatedBits_iff : cause ∈ n.repeatedBits x name ↔
    ∃ port, (n.groupCell x name).catalog.Repeats x port ∧ cause = .duplicateBusBit name port := by
  obtain ⟨made, -, l⟩ := hi.tidy.groupBuses_layout hfresh.once fun bus => n.msbFirst bus name
  simp only [repeatedBits, List.mem_filterMap, Option.map_eq_some_iff, groupCell_catalog,
    hfresh.repeats_iff l]
  constructor
  · rintro ⟨p, hp, q, hq, rfl⟩
    exact ⟨q.name, ⟨p, hp, q, hq, rfl⟩, rfl⟩
  · rintro ⟨port, ⟨p, hp, q, hq, rfl⟩, rfl⟩
    exact ⟨p, hp, q, hq, rfl⟩

theorem nodup_repeatedBits : (n.repeatedBits x name).Nodup := by
  obtain ⟨made, -, l⟩ := hi.tidy.groupBuses_layout hfresh.once fun bus => n.msbFirst bus name
  have hi' := hi.groupBuses x fun bus => n.msbFirst bus name
  unfold repeatedBits
  generalize n.catalog.groupBuses x _ = grouped at l hi' ⊢
  have hcell {p : PortId} {q : Port} (hp : p ∈ grouped.2)
      (hq : grouped.1.ports.find? p = some q) : q.cell = x := by
    obtain ⟨bus, i, -, htop, -⟩ := (l.again p).1 hp
    obtain ⟨s, -, hs⟩ := hfresh.of_mem htop
    cases (l.port hs).symm.trans hq
    rfl
  -- Ports of the cell have different names.
  refine List.pairwise_filterMap.2 (l.once.imp_of_mem fun hp hp' hne a ha b hb hab => hne ?_)
  obtain ⟨q, hq, rfl⟩ := Option.map_eq_some_iff.1 ha
  obtain ⟨q', hq', rfl⟩ := Option.map_eq_some_iff.1 hb
  obtain ⟨-, hname⟩ := Mismatch.duplicateBusBit.inj hab
  exact hi'.names (Catalog.portLabel?_of_find? hq) (Catalog.portLabel?_of_find? hq')
    ((hcell hp hq).trans (hcell hp' hq').symm) hname

end Fresh

structure LinkReport (n n' : Network) (x : CellId) (y : Cell) (causes : List Mismatch) : Prop where
  warns : n.Warns n' causes
  found : n'.catalog.cells.find? x = some y
  beside : n.catalog.Beside x n'.catalog
  missing : causes = [] ∧ n'.timingOf? y = none ∨ ∃ l t, l ∈ n.timing ∧ l.cell? y.name = some t ∧
    n'.timingOf? y = some (l, t) ∧ causes = n'.catalog.mismatches x l.name t

theorem linkCell?_report (hi : n.catalog.Intact) (hx : n.catalog.cells.find? x = some y)
    {id : TimingId} (e : n.linkCell? x id = some n') :
    ∃ ref causes, LinkReport n n' x { y with timing := some ref } causes := by
  have hkeeps : n.KeepsTiming n' := keepsTiming_of_eq (timing_linkCell? e)
  obtain ⟨l, y', t, hl, hx', ht, rfl⟩ := linkCell?_eq_some e
  cases hx.symm.trans hx'
  refine ⟨⟨id, t.name⟩, n.catalog.mismatches x l.name t, ⟨?_, ?_, ?_, .inr ?_⟩⟩
  · exact .reportAll_setCatalog ..
  · rw [reportAll_catalog, Catalog.cells_link, OrderedMap.find?_modify, if_pos rfl, hx,
      Option.map_some]
  · rw [reportAll_catalog]
    exact .link hi x id l.name t
  · refine ⟨l, t, List.mem_of_getElem? hl, ht, ?_, ?_⟩
    · simp only [timingOf?, Option.bind_some, hkeeps id l hl, ht, Option.map_some]
    · rw [reportAll_catalog, Catalog.mismatches_link]

theorem linkFirst_report (hi : n.catalog.Intact) (hx : n.catalog.cells.find? x = some y)
    (hfree : y.timing = none) (ids : List TimingId) :
    ∃ timing causes, LinkReport n (n.linkFirst x ids) x { y with timing } causes := by
  induction ids with
  | nil =>
    refine ⟨none, [], .of_eq rfl rfl, ?_, .refl _ x, .inl ⟨rfl, rfl⟩⟩
    rw [linkFirst, hx, ← hfree]
  | cons id ids ih =>
    rw [linkFirst]
    cases e : n.linkCell? x id with
    | none => exact ih
    | some n' =>
      obtain ⟨ref, causes, h⟩ := linkCell?_report hi hx e
      exact ⟨some ref, causes, h⟩

theorem LinkReport.exact (h : LinkReport n n' x y causes) (hmade : ∀ l ∈ n.timing, l.Made)
    (hc : n'.catalog.Reachable) (hbits : (n'.catalog.bitsOf x).Nodup) :
    causes.Nodup ∧ ∀ cause, cause ∈ causes ↔ ∃ l t, n'.timingOf? y = some (l, t) ∧
      n'.catalog.Lacks x y.name l.name t cause := by
  rcases h.missing with ⟨rfl, hnone⟩ | ⟨l, t, hl, ht, htiming, rfl⟩
  · refine ⟨List.nodup_nil, fun cause => ⟨fun hin => absurd hin List.not_mem_nil, ?_⟩⟩
    rintro ⟨l, t, htiming, -⟩
    cases hnone.symm.trans htiming
  · obtain ⟨hname, hcell⟩ := (hmade l hl).cell ht
    refine ⟨Catalog.nodup_mismatches hc.intact hbits hcell.ports_nodup, fun cause => ?_⟩
    rw [Catalog.mem_mismatches_iff (hc.planted x) hc.intact.tidy hcell.ports_nodup, hname]
    constructor
    · intro hlacks
      exact ⟨l, t, htiming, hlacks⟩
    · rintro ⟨l', t', htiming', hlacks⟩
      cases htiming.symm.trans htiming'
      exact hlacks

structure AddsCells (n n' : Network) (library : LibraryId) (names : List String)
    (causes : List Mismatch) : Prop where
  warns : n.Warns n' causes
  once : causes.Nodup
  cells : ∀ cause ∈ causes, cause.cell ∈ names
  kept : ∀ ⦃x y⦄, n.catalog.cells.find? x = some y → n.catalog.SameAt x n'.catalog
  added : ∀ ⦃x y⦄, n.catalog.cells.find? x = none → n'.catalog.cells.find? x = some y →
    y.library = library
  due : ∀ cause, cause ∈ causes ↔ ∃ x y, n.catalog.cells.find? x = none ∧
    n'.catalog.cells.find? x = some y ∧ n'.DueAt x y cause

namespace AddsCells

theorem refl (n : Network) (library : LibraryId) : n.AddsCells n library [] [] := by
  refine ⟨.of_eq rfl rfl, List.nodup_nil, fun _ h => ?_, fun x _ _ => .refl _ x, ?_, ?_⟩
  · exact absurd h List.not_mem_nil
  · intro x y hnone hx
    cases hnone.symm.trans hx
  · refine fun cause => ⟨fun h => absurd h List.not_mem_nil, ?_⟩
    rintro ⟨x, y, hnone, hx, -⟩
    cases hnone.symm.trans hx

theorem trans (h : n.AddsCells n' library names causes)
    (h' : n'.AddsCells n'' library names' causes')
    (ht : n''.timing = n'.timing) (hnames : names.Disjoint names') :
    n.AddsCells n'' library (names ++ names') (causes ++ causes') where
  warns := h.warns.trans h'.warns
  once := List.nodup_append.2 ⟨h.once, h'.once, fun a ha b hb hab =>
    hnames (h.cells a ha) (hab ▸ h'.cells b hb)⟩
  cells cause hin := by
    rcases List.mem_append.1 hin with hin | hin
    · exact List.mem_append_left _ (h.cells cause hin)
    · exact List.mem_append_right _ (h'.cells cause hin)
  kept x y hx := by
    have hone := h.kept hx
    exact hone.trans (h'.kept (hone.cell.trans hx))
  added x y hnone hx := by
    cases hx' : n'.catalog.cells.find? x with
    | none => exact h'.added hx' hx
    | some y' =>
      cases hx.symm.trans ((h'.kept hx').cell.trans hx')
      exact h.added hnone hx'
  due cause := by
    rw [List.mem_append, h.due, h'.due]
    constructor
    · rintro (⟨x, y, hnone, hx, hdue⟩ | ⟨x, y, hnone, hx, hdue⟩)
      · have hsame := h'.kept hx
        exact ⟨x, y, hnone, hsame.cell.trans hx, (dueAt_congr hsame ht).2 hdue⟩
      · refine ⟨x, y, Option.eq_none_iff_forall_ne_some.2 fun y₀ hx₀ => ?_, hx, hdue⟩
        cases hnone.symm.trans ((h.kept hx₀).cell.trans hx₀)
    · rintro ⟨x, y, hnone, hx, hdue⟩
      cases hx' : n'.catalog.cells.find? x with
      | none => exact .inr ⟨x, y, hx', hx, hdue⟩
      | some y' =>
        have hsame := h'.kept hx'
        cases hx.symm.trans (hsame.cell.trans hx')
        exact .inl ⟨x, y, hnone, hx', (dueAt_congr hsame ht).1 hdue⟩

end AddsCells

structure NewCell (n n' : Network) (x : CellId) (y : Cell) (causes : List Mismatch) : Prop where
  warns : n.Warns n' causes
  once : causes.Nodup
  repeated : ∀ cause, cause ∈ causes ↔
    ∃ port, n'.catalog.Repeats x port ∧ cause = .duplicateBusBit y.name port
  intact : n'.catalog.Intact
  beside : n.catalog.Beside x n'.catalog
  fresh : n.catalog.cells.find? x = none
  found : n'.catalog.cells.find? x = some y
  unlinked : y.timing = none
  bits : (n'.catalog.bitsOf x).Nodup
  timing : n'.timing = n.timing

namespace NewCell

theorem buildCell (hc : n.catalog.Reachable) (library : LibraryId) (name : String)
    (source : CellSource) {ps : List PortSpec} (hports : ∀ s ∈ ps, s.source ≠ .group)
    (hi : (n.catalog.buildCell library name source ps).Intact) :
    ∃ y causes, n.NewCell (Network.groupCell { n with
        catalog := n.catalog.buildCell library name source ps } ⟨n.catalog.count + 1⟩ name)
      ⟨n.catalog.count + 1⟩ y causes ∧ y.face = { name, library, source } := by
  have hfresh := hc.intact.fresh_buildCell library name source ps
  have hplanted := hc.planted.buildCell hc.intact library name source hports
  have hbeside : n.catalog.Beside ⟨n.catalog.count + 1⟩ _ :=
    .buildCell hc.intact.tidy library name source ps
  have hface := (Catalog.face?_buildCell n.catalog library name source ps
    ⟨n.catalog.count + 1⟩).trans (if_pos rfl)
  have hnone : n.catalog.cells.find? ⟨n.catalog.count + 1⟩ = none :=
    hc.intact.tidy.cells.find?_fresh rfl
  generalize n.catalog.buildCell library name source ps = c at *
  generalize (⟨n.catalog.count + 1⟩ : CellId) = x at *
  obtain ⟨made, -, l⟩ := hi.tidy.groupBuses_layout hfresh.once fun bus => n.msbFirst bus name
  have hgrouped := hi.groupBuses x fun bus => n.msbFirst bus name
  have hbits := hfresh.perm_bitsOf l (hplanted.groupBuses hi.tidy x _ x) hgrouped.tidy hports
  obtain ⟨y, hy, hsame⟩ := Catalog.exists_of_face?
    (((Catalog.SameCells.groupBuses c x fun bus => n.msbFirst bus name).faces x).trans hface)
  refine ⟨y, Network.repeatedBits { n with catalog := c } x name, ?_, hsame⟩
  have hname : y.name = name := congrArg Cell.name hsame
  have hset : n.Warns { n with catalog := c } [] := .of_eq rfl rfl
  refine ⟨hset.trans (groupCell_warns ..), nodup_repeatedBits hfresh hi, fun cause => ?_, ?_, ?_,
    hnone, ?_, congrArg Cell.timing hsame, ?_, (only_groupCell ..).timing⟩
  · rw [hname]
    exact mem_repeatedBits_iff hfresh hi
  all_goals rw [groupCell_catalog]
  · exact hgrouped
  · exact hbeside.trans (.groupBuses hi ..)
  · exact hy
  · exact hbits.nodup_iff.2 hfresh.once

theorem recordMaster (h : n.NewCell n' x y causes) {id : MasterId}
    (hsource : y.source = .physical id) (name : String) :
    n.NewCell (n'.recordMaster id name) x y causes := by
  have hi := (Arranges.recordMaster (Catalog.cellLabel?_of_find? h.found) hsource name).intact
    h.intact
  rw [recordMaster_eq] at hi ⊢
  have hbits : (n'.catalog.recordAll (n'.masterEntries id name)).bitsOf x = n'.catalog.bitsOf x :=
    (Catalog.bitsOf_bare _ x).symm.trans (Catalog.bitsOf_bare n'.catalog x)
  exact ⟨⟨h.warns.issues, h.warns.journal⟩, h.once, h.repeated, hi,
    ⟨h.beside.libraries, h.beside.cells, h.beside.ports⟩, h.fresh, h.found, h.unlinked,
    hbits ▸ h.bits, h.timing⟩

theorem linkFirst (h : n.NewCell n' x y causes) (ids : List TimingId)
    (hmade : ∀ l ∈ n.timing, l.Made) (hc : (n'.linkFirst x ids).catalog.Reachable) :
    ∃ causes, n.AddsCells (n'.linkFirst x ids) y.library [y.name] causes := by
  obtain ⟨timing, missing, hlink⟩ := linkFirst_report h.intact h.found h.unlinked ids
  have hbare := bare_linkFirst n' x ids
  generalize n'.linkFirst x ids = n'' at hc hlink hbare
  have hbeside := h.beside.trans hlink.beside
  have hnew {z : CellId} {y' : Cell} (hnone : n.catalog.cells.find? z = none)
      (hz : n''.catalog.cells.find? z = some y') : z = x ∧ y' = { y with timing } := by
    by_cases heq : z = x
    · subst heq
      exact ⟨rfl, Option.some.inj (hz.symm.trans hlink.found)⟩
    · cases (hbeside.cells z heq).symm.trans hz ▸ hnone
  have hbits : (n''.catalog.bitsOf x).Nodup := by
    rw [← Catalog.bitsOf_bare, hbare, Catalog.bitsOf_bare]
    exact h.bits
  obtain ⟨honce, hmissing⟩ := hlink.exact (h.timing.symm ▸ hmade) hc hbits
  have hdue (cause : Mismatch) :
      cause ∈ causes ++ missing ↔ n''.DueAt x { y with timing } cause := by
    rw [List.mem_append, or_comm, h.repeated, hmissing]
    simp only [DueAt, Catalog.repeats_iff_of_bare hbare]
  refine ⟨causes ++ missing, h.warns.trans hlink.warns, ?_, fun cause hin => ?_,
    fun z y' hz => ?_, fun z y' hnone hz => ?_, fun cause => ?_⟩
  · refine List.nodup_append.2 ⟨h.once, honce, fun a ha b hb hab => ?_⟩
    obtain ⟨port, -, rfl⟩ := (h.repeated a).1 ha
    obtain ⟨l, t, -, hlacks⟩ := (hmissing b).1 hb
    cases hab
    exact hlacks
  · rw [((hdue cause).1 hin).cell]
    exact List.mem_singleton_self _
  · refine hbeside.sameAt fun heq => ?_
    cases (heq ▸ h.fresh).symm.trans hz
  · rw [(hnew hnone hz).2]
  · rw [hdue]
    constructor
    · intro hdue
      exact ⟨x, _, h.fresh, hlink.found, hdue⟩
    · rintro ⟨z, y', hnone, hz, hdue⟩
      obtain ⟨rfl, rfl⟩ := hnew hnone hz
      exact hdue

end NewCell

end DesignView.Network
