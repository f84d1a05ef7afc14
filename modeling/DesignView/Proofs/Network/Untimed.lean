import DesignView.Proofs.Network.Fitted
import DesignView.Proofs.Network.Rebuild

/-!
A load beside the same load without timing libraries. Both number alike and build the same cells and
ports. The timing libraries add links to the one, and the reports that come with the links.
-/

namespace DesignView.Network

open Graft (bare)

variable {n n' u u' : Network} {d : Design} {x : CellId}

theorem bare_linkCell? {id : TimingId} (e : n.linkCell? x id = some n') :
    bare.catalog n'.catalog = bare.catalog n.catalog := by
  obtain ⟨library, _, timing, -, -, -, rfl⟩ := linkCell?_eq_some e
  rw [reportAll_catalog]
  exact Graft.catalog_link rfl n.catalog x id library.name timing

theorem bare_linkFirst (n : Network) (x : CellId) (ids : List TimingId) :
    bare.catalog (n.linkFirst x ids).catalog = bare.catalog n.catalog := by
  induction ids with
  | nil => rfl
  | cons id ids ih =>
    rw [Network.linkFirst]
    cases e : n.linkCell? x id with
    | none => exact ih
    | some n' => exact bare_linkCell? e

theorem bare_recordTimingMasters (n : Network) (id : TimingId) :
    bare.catalog (n.recordTimingMasters id).catalog = bare.catalog n.catalog := by
  cases hl : n.timingLibrary? id with
  | none => rw [recordTimingMasters_of_none hl]
  | some library =>
    rw [recordTimingMasters_eq hl]
    rfl

theorem bare_relinkTiming (n : Network) (id : TimingId) :
    bare.catalog (n.relinkTiming id).catalog = bare.catalog n.catalog := by
  cases hl : n.timingLibrary? id with
  | none => rw [relinkTiming_of_none hl]
  | some library =>
    rw [relinkTiming_catalog hl, bare_recordTimingMasters]
    refine List.foldlRecOn (motive := fun acc : Network × Bool =>
      bare.catalog acc.1.catalog = bare.catalog n.catalog) _ _ rfl fun acc hacc cell _ => ?_
    cases e : acc.1.linkCell? cell id with
    | none => exact hacc
    | some m => exact (bare_linkCell? e).trans hacc

/-- The network is `u` without its timing libraries, and has been so since nothing was loaded. -/
structure Untimed (n u : Network) : Prop where
  settings : u.settings = n.settings
  db : u.db = n.db
  timing : u.timing = []
  catalog : u.catalog = bare.catalog n.catalog
  flat : n.catalog.Flat
  fits : n.Fits u.issues.issues

namespace Untimed

theorem laidOver (h : n.Untimed u) : Over bare n.issues.issues u.issues.issues n u :=
  ⟨h.settings, h.db, h.catalog, [], (List.append_nil _).symm, (List.append_nil _).symm⟩

theorem reset (n : Network) (db : Database) :
    (n.reset db).Untimed ((Network.new n.settings).reset db) :=
  ⟨rfl, rfl, rfl, rfl, Catalog.flat_empty, fits_of_empty rfl rfl⟩

theorem links (h : n.Untimed u) (honly : n.Only n')
    (hbare : bare.catalog n'.catalog = bare.catalog n.catalog)
    (hfits : n'.Fits u.issues.issues) : n'.Untimed u :=
  ⟨h.settings.trans honly.settings.symm, h.db.trans honly.db.symm, h.timing,
    h.catalog.trans hbare.symm, h.flat.of_bare hbare, hfits⟩

theorem addLibrary (h : n.Untimed u) (name : String) (s : LibrarySource) :
    Untimed { n with catalog := (n.catalog.addLibrary name s).2 }
      { u with catalog := (u.catalog.addLibrary name s).2 } := by
  have hi : (n.catalog.addLibrary name s).2.Intact := h.fits.intact.addLibrary name s
  refine ⟨h.settings, h.db, h.timing, ?_, h.flat, ?_⟩
  · rw [h.catalog, bare.addLibrary]
  · rw [← List.append_nil u.issues.issues]
    refine h.fits.extend hi (keepsTiming_of_eq rfl) (fun x _ => ?_) (fun x y hout hx => ?_)
      (List.append_nil _).symm
    · have hsame : n.catalog.SameAt x (n.catalog.addLibrary name s).2 :=
        ⟨rfl, fun _ _ _ => Iff.rfl⟩
      exact hsame.alikeAt h.fits.intact hi h.flat
    · exact absurd (OrderedMap.mem_keys_iff.2 ⟨y, hx⟩) hout

theorem buildCell (h : n.Untimed u) (library : LibraryId) (name : String) (source : CellSource)
    {ps : List PortSpec} (hi : (n.catalog.buildCell library name source ps).Intact)
    {m v : Network}
    (hm : m = Network.groupCell { n with
      catalog := n.catalog.buildCell library name source ps } ⟨n.catalog.count + 1⟩ name)
    (hv : v = Network.groupCell { u with
      catalog := u.catalog.buildCell library name source ps } ⟨u.catalog.count + 1⟩ name) :
    m.Untimed v ∧ n.catalog.Grows m.catalog := by
  have hgrows : n.catalog.Grows m.catalog := by
    rw [hm, groupCell_catalog]
    exact h.fits.intact.grows h.flat library name source hi _
  have hbare : u.catalog.buildCell library name source ps =
      bare.catalog (n.catalog.buildCell library name source ps) := by
    have hbuild := bare.buildCell n.catalog library name source ps fun s _ b _ => List.not_mem_nil
    rw [Graft.bare_libraryId] at hbuild
    rw [h.catalog, hbuild]
  have hcount : u.catalog.count = n.catalog.count := by
    rw [h.catalog]
    rfl
  have hover : Over bare n.issues.issues u.issues.issues m v := by
    have hgroup := (h.laidOver.setCatalog hbare).groupCell ⟨n.catalog.count + 1⟩ name
    rw [Graft.bare_cellId] at hgroup
    rw [hm, hv, hcount]
    exact hgroup
  have hmtiming : m.timing = n.timing := hm ▸ (only_groupCell ..).timing
  have hvtiming : v.timing = u.timing := hv ▸ (only_groupCell ..).timing
  obtain ⟨reported, hn, hu⟩ := hover.issues
  refine ⟨⟨hover.settings, hover.db, hvtiming.trans h.timing, hover.catalog, hgrows.flat, ?_⟩,
    hgrows⟩
  rw [hu]
  exact h.fits.grows h.flat hgrows (keepsTiming_of_eq hmtiming) hn

theorem recordTimingMasters (h : n.Untimed u) (id : TimingId) :
    (n.recordTimingMasters id).Untimed u :=
  h.links (only_recordTimingMasters n id) (bare_recordTimingMasters n id)
    (h.fits.recordTimingMasters id)

theorem loadMaster_of_timing (ht : u.timing = []) (library : LibraryId) (id : MasterId)
    (a : Master) : u.loadMaster library id a = Network.groupCell { u with
      catalog := u.catalog.buildCell library a.name (.physical id) (masterPorts u.db id) }
        ⟨u.catalog.count + 1⟩ a.name := by
  obtain ⟨v, hv, hload⟩ := loadMaster_eq u library id a
  have hnone (v : Network) (hv : v.timing = []) : v.timingLibraries = [] := by
    rw [timingLibraries, hv]
    rfl
  have hgroup := (only_groupCell { u with
    catalog := u.catalog.buildCell library a.name (.physical id) (masterPorts u.db id) }
    ⟨u.catalog.count + 1⟩ a.name).timing.trans ht
  generalize Network.groupCell _ _ _ = v₁ at hv hgroup ⊢
  obtain rfl : v = v₁ := by
    rw [hv, recordMaster_eq, masterEntries, hnone v₁ hgroup]
    rfl
  rw [hload, hnone v hgroup]
  rfl

theorem loadMaster (h : n.Untimed u) (hdb : n.db.WellFormed) (library : LibraryId) (id : MasterId)
    (a : Master) : (n.loadMaster library id a).Untimed (u.loadMaster library id a) := by
  have hi : (n.catalog.buildCell library a.name (.physical id) (masterPorts n.db id)).Intact :=
    h.fits.intact.buildCell library a.name (.physical id) (masterPorts_nodup hdb id)
      fun s hs b hb => absurd hb (masterPorts_source hs b)
  obtain ⟨m, hm, hload⟩ := loadMaster_eq n library id a
  obtain ⟨m₁, hm₁⟩ : ∃ m₁, m₁ = Network.groupCell { n with
      catalog := n.catalog.buildCell library a.name (.physical id) (masterPorts n.db id) }
        ⟨n.catalog.count + 1⟩ a.name := ⟨_, rfl⟩
  obtain ⟨hbuilt, hgrows⟩ := h.buildCell library a.name (.physical id) hi hm₁
    (v := u.loadMaster library id a) (by rw [loadMaster_of_timing h.timing, h.db])
  have hlabel : m₁.catalog.cellLabel? ⟨n.catalog.count + 1⟩ = some ⟨library, .physical id⟩ := by
    have hheads := (Arranges.groupCell { n with
      catalog := n.catalog.buildCell library a.name (.physical id) (masterPorts n.db id) }
      ⟨n.catalog.count + 1⟩ a.name).heads ⟨n.catalog.count + 1⟩
    rw [hm₁, Catalog.cellLabel?_of_head? hheads, Catalog.cellLabel?_buildCell, if_pos rfl]
  rw [← hm₁] at hm
  have hrecord : m.Untimed (u.loadMaster library id a) ∧ m.catalog.cells = m₁.catalog.cells := by
    have hintact := (Arranges.recordMaster hlabel rfl a.name).intact hbuilt.fits.intact
    have honly := only_recordMaster m₁ id a.name
    rw [hm]
    rw [recordMaster_eq] at hintact honly ⊢
    have hfits := hbuilt.fits.sameCells hintact (keepsTiming_of_eq rfl) rfl rfl rfl rfl
    exact ⟨hbuilt.links honly rfl hfits, rfl⟩
  obtain ⟨y, hy, htiming⟩ := hgrows.cell
  rw [← hrecord.2] at hy
  rw [hload]
  exact hrecord.1.links (only_linkFirst ..) (bare_linkFirst ..)
    (hrecord.1.fits.linkFirst hy htiming _)

theorem loadMasters (h : n.Untimed u) (hdb : n.db.WellFormed) (library : LibraryId)
    (es : List (MasterId × Master)) :
    (es.foldl (fun n e => n.loadMaster library e.1 e.2) n).Untimed
      (es.foldl (fun n e => n.loadMaster library e.1 e.2) u) := by
  induction es generalizing n u with
  | nil => exact h
  | cons e es ih =>
    have hone := h.loadMaster hdb library e.1 e.2
    have hsame : (n.loadMaster library e.1 e.2).db = n.db := (Loads.loadMaster ..).db
    rw [List.foldl_cons, List.foldl_cons]
    generalize n.loadMaster library e.1 e.2 = n₁ at hone hsame ⊢
    generalize u.loadMaster library e.1 e.2 = u₁ at hone ⊢
    exact ih hone (hsame ▸ hdb)

theorem finishLibrary (h : n.Untimed u) (e e' : LoadEvent) :
    (n.forgetDrivers.notify e).Untimed (u.forgetDrivers.notify e') :=
  ⟨h.settings, h.db, h.timing, h.catalog, h.flat, h.fits.congr rfl rfl rfl⟩

end Untimed

theorem without_eq_self {c : Catalog} {s : LibrarySource} (ht : c.Tidy) (h : ¬c.HasLibrary s) :
    c.without s = c := by
  rw [Catalog.without, firstKey?_eq_none ht h]

theorem exists_loadLibrary {id : LibId} (hl : ∃ lib, n.db.libs.find? id = some lib) :
    ∃ r n', n.loadLibrary id = .ok (r, n') := by
  obtain ⟨lib, hl⟩ := hl
  have hlib : n.db.lib id = .ok lib := by
    rw [Database.lib, hl]
  exact ⟨_, _, bind_eq_ok.2 ⟨lib, hlib, rfl⟩⟩

theorem Untimed.loadLibrary (h : n.Untimed u) (hdb : n.db.WellFormed) {id : LibId}
    (hfree : ¬n.catalog.HasLibrary (.physical id)) {r r' : LibraryId}
    (e : n.loadLibrary id = .ok (r, n')) (e' : u.loadLibrary id = .ok (r', u')) :
    n'.Untimed u' := by
  have hfirst := firstKey?_eq_none h.fits.intact.tidy hfree
  have hself : n.catalog.without (.physical id) = n.catalog :=
    without_eq_self h.fits.intact.tidy hfree
  have hself' : u.catalog.without (.physical id) = u.catalog := by
    rw [h.catalog, bare.catalog_without hfirst]
    rfl
  have hcount : u.catalog.count = n.catalog.count := by
    rw [h.catalog]
    rfl
  obtain ⟨lib, m, hl, rfl, hm, rfl⟩ := loadLibrary_eq_ok e
  obtain ⟨lib', v, hl', rfl, hv, rfl⟩ := loadLibrary_eq_ok e'
  obtain rfl : lib = lib' := Option.some.inj (hl.symm.trans (h.db ▸ hl'))
  have hmasters : u.db.mastersOf id = n.db.mastersOf id := by rw [h.db]
  rw [hself] at hm
  rw [hself', hcount, hmasters] at hv
  have hall := (h.addLibrary lib.name (.physical id)).loadMasters hdb ⟨n.catalog.count + 1⟩
    (n.db.mastersOf id)
  rw [← hm, ← hv] at hall
  exact hall.finishLibrary ..

structure Loading (n u : Network) : Prop where
  untimed : n.Untimed u
  db : n.db.WellFormed
  mirrors : n.catalog.Mirrors n.db
  stocked : n.catalog.Stocked n.db
  physical : n.OnlyPhysical

theorem loading_reset (n : Network) {db : Database} (hdb : db.WellFormed) :
    (n.reset db).Loading ((Network.new n.settings).reset db) :=
  ⟨.reset n db, hdb, Catalog.mirrors_empty db, Catalog.stocked_empty db, onlyPhysical_reset n db⟩

namespace Loading

theorem loadLibrary (h : n.Loading u) {id : LibId}
    (hfree : ¬n.catalog.HasLibrary (.physical id)) {r r' : LibraryId}
    (e : n.loadLibrary id = .ok (r, n')) (e' : u.loadLibrary id = .ok (r', u')) :
    n'.Loading u' := by
  obtain ⟨-, hdb, hr, -⟩ := rebuilds_loadLibrary h.mirrors h.db e
  obtain ⟨-, hstocked, -⟩ := stocked_loadLibrary h.mirrors h.db h.stocked e
  exact ⟨h.untimed.loadLibrary h.db hfree e e', hdb ▸ h.db, hdb ▸ hr.mirrors, hdb ▸ hstocked,
    h.physical.loadLibrary h.mirrors h.db h.stocked e⟩

theorem loadLibraries (h : n.Loading u) {ids : List LibId} (hnodup : ids.Nodup)
    (hids : ∀ id ∈ ids, ∃ lib, n.db.libs.find? id = some lib)
    (hfree : ∀ id ∈ ids, ¬n.catalog.HasLibrary (.physical id)) :
    ∃ n' u', ids.foldlM (fun n id => return (← n.loadLibrary id).2) n = .ok n' ∧
      ids.foldlM (fun n id => return (← n.loadLibrary id).2) u = .ok u' ∧
      n'.Loading u' ∧ n.Only n' := by
  induction ids generalizing n u with
  | nil => exact ⟨n, u, rfl, rfl, h, .refl n⟩
  | cons id ids ih =>
    obtain ⟨hnew, hnodup⟩ := List.nodup_cons.1 hnodup
    have hlib := hids id List.mem_cons_self
    obtain ⟨r, n₁, e⟩ := exists_loadLibrary hlib
    obtain ⟨r', u₁, e'⟩ := exists_loadLibrary (n := u) (h.untimed.db ▸ hlib)
    have hone := h.loadLibrary (hfree id List.mem_cons_self) e e'
    obtain ⟨honly, -, hlibraries⟩ := stocked_loadLibrary h.mirrors h.db h.stocked e
    obtain ⟨n', u', hn', hu', hall, honly'⟩ := ih hone hnodup
      (fun id' hid => honly.db ▸ hids id' (List.mem_cons_of_mem id hid)) fun id' hid hhas => by
        rcases (hlibraries _).1 hhas with heq | hold
        · cases heq
          exact hnew hid
        · exact hfree id' (List.mem_cons_of_mem id hid) hold
    exact ⟨n', u', bind_eq_ok.2 ⟨n₁, bind_eq_ok.2 ⟨(r, n₁), e, rfl⟩, hn'⟩,
      bind_eq_ok.2 ⟨u₁, bind_eq_ok.2 ⟨(r', u₁), e', rfl⟩, hu'⟩, hall, honly.trans honly'⟩

theorem recordTimingMasters (h : n.Loading u) (ids : List TimingId) :
    (ids.foldl Network.recordTimingMasters n).Loading u ∧
      n.Only (ids.foldl Network.recordTimingMasters n) := by
  refine List.foldlRecOn (motive := fun m : Network => m.Loading u ∧ n.Only m) _ _ ⟨h, .refl n⟩
    fun m hm id _ => ?_
  obtain ⟨hm, honly⟩ := hm
  have r := Arranges.recordTimingMasters m id
  have hdb : (m.recordTimingMasters id).db = m.db := r.only.db
  refine ⟨⟨hm.untimed.recordTimingMasters id, hdb ▸ hm.db, ?_, ?_, hm.physical.arranges r⟩,
    honly.trans r.only⟩
  · rw [hdb]
    exact ((Regroups.recordTimingMasters m id).rebuilds (s := .design) hm.mirrors).mirrors
  · rw [hdb]
    exact r.stocked hm.stocked

end Loading
end DesignView.Network
