import DesignView.Proofs.Network.Reload
import DesignView.Proofs.Network.TimingMasters
import DesignView.Proofs.Network.Untimed

/-!
The order of loads. Timing libraries are loaded before a database and after it. What is shown does
not depend on where the database stands among them, but for the links of the design: a design cell
is linked to a timing library that comes after the database, and never to one that came before.
-/

namespace DesignView.Network

open Graft (bare)

variable {n n' m u : Network} {d : Design} {db : Database} {x : CellId} {y : Cell} {k k' : Nat}

theorem refFrom?_eq_iff {before mid after : List TimingLibrary}
    (ht : n.timing = before ++ (mid ++ after)) (name : String) :
    n.refFrom? before.length name = n.refFrom? (before ++ mid).length name ↔
      ∀ library ∈ mid, library.cell? name = none := by
  have hafter : n.refFrom? (before ++ mid).length name =
      refAmong? after (before.length + mid.length) name := by
    rw [refFrom?, ht, ← List.append_assoc, List.drop_left, List.length_append]
  have hfrom : n.refFrom? before.length name = (refAmong? mid before.length name).or
      (refAmong? after (before.length + mid.length) name) := by
    rw [refFrom?, ht, List.drop_left, refAmong?_append]
  rw [hfrom, hafter, ← refAmong?_eq_none_iff (i := before.length)]
  cases hmid : refAmong? mid before.length name with
  | none => simp
  | some ref =>
    rw [Option.some_or]
    refine ⟨fun heq => ?_, fun h => by cases h⟩
    exact absurd (refAmong?_index heq.symm).1 (Nat.not_le_of_lt (refAmong?_index hmid).2)

def DesignLinked (n : Network) (k : Nat) : Prop := ∀ ⦃x y⦄, n.catalog.cells.find? x = some y →
  y.isLeaf = false → y.timing = n.refFrom? k y.name

/-- A database was loaded when `k` timing libraries were there, and further ones came later. Without
any of them, the database is shown as `u`. -/
structure LoadedAt (k : Nat) (n u : Network) : Prop where
  late : k ≤ n.timing.length
  catalog : u.catalog = { bare.catalog n.catalog with boundaries := n.catalog.boundaries }
  constants : u.constants = n.constants
  fits : n.Fits u.issues.issues
  design : n.DesignLinked k

theorem Fits.graft {others more : List LibraryIssue} (h : n.Fits others) (hf : n.catalog.Flat)
    (hi : n'.catalog.Intact) (ht : n'.timing = n.timing) {g : Graft} (hbase : g.base = n.catalog)
    (hg : g.links = false) {e : Catalog} {boundaries : OrderedMap (ModuleId × String) ModBTermId}
    (hcatalog : n'.catalog = { g.catalog e with boundaries })
    (hissues : n'.issues.issues = n.issues.issues ++ more) : n'.Fits (others ++ more) := by
  refine h.extend hi (keepsTiming_of_eq ht) (fun x hx => ?_) (fun x y hout hx => ?_) hissues
  · have hsame := g.sameAt e (hbase ▸ hx)
    have hsame : n.catalog.SameAt x n'.catalog := by
      rw [hcatalog, ← hbase]
      exact ⟨hsame.cell, hsame.ports⟩
    exact hsame.alikeAt h.intact hi hf
  · rw [hcatalog] at hx ⊢
    exact g.unlinked_of_not_mem hg e (hbase ▸ hout) hx

theorem Loading.loadDesign (h : n.Loading u) (hd : n.design? = some d) : ∃ n' u',
    n.loadDesign = .ok n' ∧ u.loadDesign = .ok u' ∧ LoadedAt n.timing.length n' u' := by
  have hno {s : LibrarySource} (hs : ∀ id, s ≠ .physical id) : ¬n.catalog.HasLibrary s := by
    intro hlibrary
    obtain ⟨id, rfl⟩ := h.physical.libraries s hlibrary
    exact hs id rfl
  have hself : (n.catalog.without .design).without .modules = n.catalog := by
    rw [without_eq_self h.mirrors.tidy (hno fun _ => LibrarySource.noConfusion),
      without_eq_self h.mirrors.tidy (hno fun _ => LibrarySource.noConfusion)]
  obtain ⟨b, n', -, e, hloaded⟩ := loadDesign_eq_ok_blank h.mirrors h.db h.stocked hd
  obtain ⟨u', e', hboth⟩ := h.untimed.laidOver.loadDesign h.mirrors h.db h.stocked
    h.physical.libraries (Catalog.mirrors_empty n.db) e
  have hi' : n'.catalog.Intact := (stored_of_loadDesign h.mirrors h.db h.stocked e).stocked.intact
  have htiming : n'.timing = n.timing := timing_loadDesign e
  obtain ⟨hcatalog, hconstants, reported, hissues, hissues'⟩ := hboth
  have hfits : n'.Fits u'.issues.issues := by
    rw [hissues']
    exact h.untimed.fits.graft h.untimed.flat hi' htiming hself rfl hloaded.catalog hissues
  refine ⟨n', u', e, e', htiming ▸ Nat.le_refl _, hcatalog, hconstants, hfits, fun x y hx hy => ?_⟩
  have hunlinked : (n'.catalog.part false).Unlinked :=
    hloaded.part_design h.mirrors h.stocked.intact ▸ Part.unlinked_shift _ rfl
  have hin : (x, y) ∈ (n'.catalog.part false).cells.entries :=
    List.mem_filter.2 ⟨OrderedMap.mem_of_find? hx, decide_eq_true hy⟩
  rw [← htiming, refFrom?_length]
  exact hunlinked.1 _ hin

theorem exists_loadDatabase (n : Network) (hdb : db.WellFormed) (hd : db.design?.isSome = true) :
    ∃ n' u, n.loadDatabase db = .ok n' ∧ (Network.new n.settings).loadDatabase db = .ok u ∧
      LoadedAt n.timing.length n' u ∧
      n'.settings = n.settings ∧ n'.db = db ∧ n'.timing = n.timing := by
  have hlibs : ∀ id ∈ db.libs.ids, ∃ lib, db.libs.find? id = some lib :=
    fun id hid => OrderedMap.mem_keys_iff.1 hid
  have hnodup : db.libs.ids.Nodup := hdb.libs.nodup
  obtain ⟨n₁, u₁, hn₁, hu₁, hloading, honly⟩ := (loading_reset n hdb).loadLibraries hnodup hlibs
    fun id _ ⟨a, ha⟩ => by cases ha
  obtain ⟨hrecorded, honly'⟩ :=
    hloading.recordTimingMasters (n₁.timingLibraries.map (·.1))
  generalize hn₂ : (n₁.timingLibraries.map (·.1)).foldl Network.recordTimingMasters n₁ = n₂
    at hrecorded honly'
  have hu₂ : (u₁.timingLibraries.map (·.1)).foldl Network.recordTimingMasters u₁ = u₁ := by
    rw [timingLibraries, hloading.untimed.timing]
    rfl
  have hall : (n.reset db).Only n₂ := honly.trans honly'
  obtain ⟨d, hd'⟩ := Option.isSome_iff_exists.1 hd
  have hdesign : n₂.design? = some d := (congrArg Database.design? hall.db).trans hd'
  obtain ⟨n', u, e, e', hloaded⟩ := hrecorded.loadDesign hdesign
  obtain ⟨d', n₃, honly'', -, rfl⟩ :=
    loadDesign_only hrecorded.mirrors hrecorded.db hrecorded.stocked e
  have hkept : (n.reset db).Only n₃ := hall.trans honly''
  rw [← hn₂] at e
  rw [← hu₂] at e'
  exact ⟨n₃.finishDesign d', u, bind_eq_ok.2 ⟨n₁, hn₁, (if_pos hd).trans e⟩,
    bind_eq_ok.2 ⟨u₁, hu₁, (if_pos hd).trans e'⟩, hall.timing ▸ hloaded,
    hkept.settings, hkept.db, hkept.timing⟩

theorem exists_cell_relinkTiming (hm : n.catalog.Mirrors n.db) {id : TimingId} {y' : Cell}
    (hx : (n.relinkTiming id).catalog.cells.find? x = some y') : ∃ y,
      n.catalog.cells.find? x = some y ∧ y'.name = y.name ∧ y'.isLeaf = y.isLeaf ∧
      y'.timing = y.timing.or (n.refIn? id y.name) := by
  have hface := (face?_relinkTiming hm.tidy (housed hm) id x).symm.trans (Catalog.face?_of_find? hx)
  obtain ⟨y₁, hy₁, hsame⟩ := Option.map_eq_some_iff.1 hface
  obtain ⟨y, hy, rfl⟩ := Catalog.exists_of_face? hy₁
  have hname : y'.face.name = y.name := by rw [← hsame, Cell.face]
  have hleaf : y'.face.isLeaf = y.isLeaf := by rw [← hsame, Cell.face, Cell.isLeaf, Cell.isLeaf]
  have htiming : y'.face.timing = y.timing.or (n.refIn? id y.name) := by rw [← hsame, Cell.face]
  exact ⟨y, hy, hname, hleaf, htiming⟩

theorem LoadedAt.loadTiming (h : LoadedAt k n u) (hm : n.catalog.Mirrors n.db)
    (library : TimingLibrary) : LoadedAt k (n.loadTiming library).2 u := by
  have r : Arranges { n with timing := n.timing ++ [library] } (n.loadTiming library).2 :=
    .relinkTiming ..
  have hbare : bare.catalog (n.loadTiming library).2.catalog = bare.catalog n.catalog :=
    bare_relinkTiming { n with timing := n.timing ++ [library] } _
  have htiming : (n.loadTiming library).2.timing = n.timing ++ [library] := r.only.timing
  refine ⟨?_, ?_, ?_, h.fits.loadTiming hm library, fun x y' hx hy' => ?_⟩
  · rw [htiming, List.length_append]
    exact Nat.le_add_right_of_le h.late
  · have hboundaries : (n.loadTiming library).2.catalog.boundaries = n.catalog.boundaries :=
      r.boundaries
    rw [hbare, hboundaries]
    exact h.catalog
  · obtain ⟨_, _, _, _, _, hsame⟩ := r.only
    rw [hsame]
    exact h.constants
  · obtain ⟨y, hy, hname, hleaf, hlink⟩ := exists_cell_relinkTiming
      (n := { n with timing := n.timing ++ [library] }) hm hx
    rw [hlink, h.design hy (hleaf.symm.trans hy'), hname, ← refFrom?_addTiming h.late]
    exact (refFrom?_congr htiming k y.name).symm

def loadTimings (n : Network) (libraries : List TimingLibrary) : Network :=
  libraries.foldl (fun n library => (n.loadTiming library).2) n

theorem loadTimings_same (n : Network) (libraries : List TimingLibrary) :
    (n.loadTimings libraries).settings = n.settings ∧ (n.loadTimings libraries).db = n.db ∧
      (n.loadTimings libraries).timing = n.timing ++ libraries := by
  induction libraries generalizing n with
  | nil => exact ⟨rfl, rfl, (List.append_nil _).symm⟩
  | cons library libraries ih =>
    have r : Arranges { n with timing := n.timing ++ [library] } (n.loadTiming library).2 :=
      .relinkTiming ..
    obtain ⟨hsettings, hdb, htiming⟩ := ih (n.loadTiming library).2
    refine ⟨hsettings.trans r.only.settings, hdb.trans r.only.db, htiming.trans ?_⟩
    rw [r.only.timing, List.append_assoc, List.singleton_append]

theorem Reachable.loadTimings (h : n.Reachable) (libraries : List TimingLibrary) :
    (n.loadTimings libraries).Reachable :=
  List.foldlRecOn (motive := Reachable) libraries _ h fun _ h library _ =>
    h.step (.load (.loadTiming library))

theorem LoadedAt.loadTimings (h : LoadedAt k n u) (hn : n.Reachable)
    (libraries : List TimingLibrary) : LoadedAt k (n.loadTimings libraries) u := by
  have hboth : (n.loadTimings libraries).Reachable ∧ LoadedAt k (n.loadTimings libraries) u := by
    refine List.foldlRecOn (motive := fun m : Network => m.Reachable ∧ LoadedAt k m u) libraries _
      ⟨hn, h⟩ fun m hm library _ => ?_
    exact ⟨hm.1.loadTimings [library], hm.2.loadTiming hm.1.shown.mirrors library⟩
  exact hboth.2

/-- A database is loaded after some timing libraries and before others. -/
def loadAround (settings : Settings) (db : Database) (before after : List TimingLibrary) :
    Except Fault Network := do
  let n ← ((Network.new settings).loadTimings before).loadDatabase db
  return n.loadTimings after

theorem exists_loadAround {settings : Settings} (hdb : db.Reachable)
    (hd : db.design?.isSome = true) (hu : (Network.new settings).loadDatabase db = .ok u)
    (before after : List TimingLibrary) : ∃ n, loadAround settings db before after = .ok n ∧
      n.Reachable ∧ LoadedAt before.length n u ∧
      n.settings = settings ∧ n.db = db ∧ n.timing = before ++ after := by
  obtain ⟨hsettings, -, htiming⟩ := loadTimings_same (Network.new settings) before
  have hbefore := (reachable_new settings).loadTimings before
  generalize hn₀ : (Network.new settings).loadTimings before = n₀ at hsettings htiming hbefore
  have hsettings : n₀.settings = settings := hsettings
  have htiming : n₀.timing = before := htiming
  obtain ⟨n₁, u', e, hu', hloaded, hsettings₁, hdb₁, htiming₁⟩ :=
    exists_loadDatabase n₀ hdb.wellFormed hd
  rw [hsettings] at hu'
  obtain rfl : u' = u := Except.ok.inj (hu'.symm.trans hu)
  have hreachable : n₁.Reachable := hbefore.step (.load (.loadDatabase hdb e))
  obtain ⟨hsettings₂, hdb₂, htiming₂⟩ := loadTimings_same n₁ after
  refine ⟨n₁.loadTimings after, bind_eq_ok.2 ⟨n₁, hn₀ ▸ e, rfl⟩, hreachable.loadTimings after, ?_,
    hsettings₂.trans (hsettings₁.trans hsettings), hdb₂.trans hdb₁, ?_⟩
  · rw [← htiming]
    exact hloaded.loadTimings hreachable after
  · rw [htiming₂, htiming₁, htiming]

theorem LoadedAt.bare_eq (h : LoadedAt k n u) :
    bare.catalog n.catalog = { u.catalog with boundaries := {} } := by
  rw [h.catalog]
  rfl

theorem find?_of_bare (hbare : bare.catalog m.catalog = bare.catalog n.catalog)
    (hx : n.catalog.cells.find? x = some y)
    (hlink : ∀ y', m.catalog.cells.find? x = some y' → y'.name = y.name → y'.isLeaf = y.isLeaf →
      y'.timing = y.timing) : m.catalog.cells.find? x = some y := by
  obtain ⟨y', hx', hsame⟩ := Catalog.exists_cell_of_bare hbare.symm hx
  have hname : y'.name = y.name := by rw [hsame]
  have hleaf : y'.isLeaf = y.isLeaf := by rw [hsame, Cell.isLeaf, Cell.isLeaf]
  rw [hx', hsame, ← hlink y' hx' hname hleaf]

theorem holds_of_bare (hbare : bare.catalog m.catalog = bare.catalog n.catalog) {l : LibraryId}
    {name : String} {master : MasterId} (h : n.catalog.Holds l name master) :
    m.catalog.Holds l name master := by
  obtain ⟨x, y, hx, hl, hname, hs⟩ := h
  obtain ⟨z, hz, rfl⟩ := Catalog.exists_of_face? hx
  obtain ⟨z', hz', hsame⟩ := Catalog.exists_cell_of_bare hbare.symm hz
  refine ⟨x, z'.face, Catalog.face?_of_find? hz', ?_⟩
  rw [hsame] at hl hname hs
  exact ⟨hl, hname, hs⟩

theorem timingMaster?_of_bare (hbare : bare.catalog m.catalog = bare.catalog n.catalog)
    (hn : n.Recorded) (hm : m.Recorded) (ht : m.timing = n.timing) (t : TimingId) (name : String) :
    m.catalog.timingMaster? t name = n.catalog.timingMaster? t name := by
  refine Option.ext fun master => ?_
  have hholds (l : LibraryId) (master : MasterId) :
      m.catalog.Holds l name master ↔ n.catalog.Holds l name master :=
    ⟨holds_of_bare hbare.symm, holds_of_bare hbare⟩
  refine (hm t name master).trans (Iff.trans ?_ (hn t name master).symm)
  rw [refIn?_congr ht, Catalog.lastHolder_congr hholds]

/-- The same is seen: links of cells and ports, timing masters, and issues in any order. -/
structure SameView (n m : Network) : Prop where
  cells : ∀ x, m.catalog.cells.find? x = n.catalog.cells.find? x
  ports : ∀ p, m.catalog.ports.find? p = n.catalog.ports.find? p
  timingMasters : ∀ t name, m.catalog.timingMaster? t name = n.catalog.timingMaster? t name
  issues : m.issues.issues.Perm n.issues.issues

/-- The same is seen but for the links of the design, and the issues differ in what comes with
links. -/
structure SameButDesign (n m : Network) : Prop where
  same : m.settings = n.settings ∧ m.db = n.db ∧ m.timing = n.timing ∧ m.constants = n.constants
  physical : m.catalog.part true = n.catalog.part true
  design : (m.catalog.part false).shift ⟨0, false⟩ = (n.catalog.part false).shift ⟨0, false⟩
  boundaryPorts : m.catalog.boundaryPorts = n.catalog.boundaryPorts
  boundaries : m.catalog.boundaries = n.catalog.boundaries
  timingMasters : ∀ t name, m.catalog.timingMaster? t name = n.catalog.timingMaster? t name
  fits : ∃ others, n.Fits others ∧ m.Fits others

theorem leaf_of_bare (hn : n.Linked) (hm : m.Linked) (ht : m.timing = n.timing)
    (hbare : bare.catalog m.catalog = bare.catalog n.catalog) (hy : y.isLeaf = true)
    (hx : n.catalog.cells.find? x = some y) : m.catalog.cells.find? x = some y := by
  refine find?_of_bare hbare hx fun y' hx' hname hleaf => ?_
  have hlink : y.face.timing = n.firstRef? y.face.name := hn (Catalog.face?_of_find? hx) hy
  have hlink' : y'.face.timing = m.firstRef? y'.face.name :=
    hm (Catalog.face?_of_find? hx') (hleaf.trans hy)
  change y.timing = n.firstRef? y.name at hlink
  change y'.timing = m.firstRef? y'.name at hlink'
  rw [hlink', hlink, firstRef?_congr ht, hname]

theorem LoadedAt.sameButDesign (hn : LoadedAt k n u) (hm : LoadedAt k' m u) (hrn : n.Reachable)
    (hrm : m.Reachable) (hsettings : m.settings = n.settings) (hdb : m.db = n.db)
    (ht : m.timing = n.timing) : n.SameButDesign m := by
  have hbare : bare.catalog m.catalog = bare.catalog n.catalog := hm.bare_eq.trans hn.bare_eq.symm
  obtain ⟨hlinked, hrecorded⟩ := hrn.linked_recorded
  obtain ⟨hlinked', hrecorded'⟩ := hrm.linked_recorded
  have hcells (x : CellId) (y : Cell) (hy : y.isLeaf = true) :
      m.catalog.cells.find? x = some y ↔ n.catalog.cells.find? x = some y :=
    ⟨leaf_of_bare hlinked' hlinked ht.symm hbare.symm hy, leaf_of_bare hlinked hlinked' ht hbare hy⟩
  have hlibraries : m.catalog.libraries = n.catalog.libraries := by
    rw [← Catalog.libraries_bare, hbare, Catalog.libraries_bare]
  refine ⟨⟨hsettings, hdb, ht, hm.constants.symm.trans hn.constants⟩, ?_, ?_, ?_, ?_, ?_,
    u.issues.issues, hn.fits, hm.fits⟩
  · refine Catalog.part_congr hn.fits.intact.tidy hm.fits.intact.tidy
      (fun l a _ => by rw [hlibraries]) hcells fun p q y hx hy => ?_
    have hx' := (hcells _ _ hy).2 hx
    exact ⟨hn.fits.port_of_bare hm.fits ht hbare hx hx',
      hm.fits.port_of_bare hn.fits ht.symm hbare.symm hx' hx⟩
  · rw [← part_bare, hbare, part_bare]
  · rw [← Catalog.boundaryPorts_bare, hbare, Catalog.boundaryPorts_bare]
  · have hboundaries := congrArg Catalog.boundaries (hm.catalog.symm.trans hn.catalog)
    exact hboundaries
  · exact timingMaster?_of_bare hbare hrecorded hrecorded' ht

theorem LoadedAt.sameView_iff {before mid after : List TimingLibrary}
    (hn : LoadedAt before.length n u) (hm : LoadedAt (before ++ mid).length m u)
    (hrn : n.Reachable) (hrm : m.Reachable) (ht : m.timing = n.timing)
    (htiming : n.timing = before ++ (mid ++ after)) : n.SameView m ↔
      ∀ x y, n.catalog.cells.find? x = some y → y.isLeaf = false →
        ∀ library ∈ mid, library.cell? y.name = none := by
  have hbare : bare.catalog m.catalog = bare.catalog n.catalog := hm.bare_eq.trans hn.bare_eq.symm
  obtain ⟨hlinked, hrecorded⟩ := hrn.linked_recorded
  obtain ⟨hlinked', hrecorded'⟩ := hrm.linked_recorded
  constructor
  · intro hsame x y hx hy
    have hlink : y.timing = n.refFrom? before.length y.name := hn.design hx hy
    have hlink' : y.timing = m.refFrom? (before ++ mid).length y.name :=
      hm.design ((hsame.cells x).trans hx) hy
    rw [refFrom?_congr ht] at hlink'
    exact (refFrom?_eq_iff htiming y.name).1 (hlink.symm.trans hlink')
  · intro hnone
    have hcells (x : CellId) : m.catalog.cells.find? x = n.catalog.cells.find? x := by
      cases hx : n.catalog.cells.find? x with
      | none =>
        have hout : x ∉ m.catalog.cells.keys := by
          rw [← Catalog.cellKeys_bare, hbare, Catalog.cellKeys_bare]
          exact OrderedMap.find?_eq_none_iff.1 hx
        exact OrderedMap.find?_eq_none_iff.2 hout
      | some y =>
        cases hy : y.isLeaf with
        | true => exact leaf_of_bare hlinked hlinked' ht hbare hy hx
        | false =>
          refine find?_of_bare hbare hx fun y' hx' hname hleaf => ?_
          rw [hm.design hx' (hleaf.trans hy), hn.design hx hy, refFrom?_congr ht, hname,
            (refFrom?_eq_iff htiming y.name).2 (hnone x y hx hy)]
    obtain ⟨hports, hissues⟩ := hn.fits.settled hm.fits ht hbare hcells
    exact ⟨hcells, hports, timingMaster?_of_bare hbare hrecorded hrecorded' ht, hissues⟩

/-- Where a database stands among the timing libraries makes a difference to the links of the design
alone, which go by the timing libraries that come after the database. So what is seen is the same in
two places exactly if no timing library between them has a cell of the name of a design cell. -/
theorem loadAround_exact (hdb : db.Reachable) (hd : db.design?.isSome = true)
    (settings : Settings) (before mid after : List TimingLibrary) : ∃ early late,
      loadAround settings db before (mid ++ after) = .ok early ∧
      loadAround settings db (before ++ mid) after = .ok late ∧ early.SameButDesign late ∧
      early.DesignLinked before.length ∧ late.DesignLinked (before ++ mid).length ∧
      (early.SameView late ↔ ∀ x y, early.catalog.cells.find? x = some y → y.isLeaf = false →
        ∀ library ∈ mid, library.cell? y.name = none) := by
  obtain ⟨u, -, hu, -⟩ := exists_loadDatabase (Network.new settings) hdb.wellFormed hd
  obtain ⟨early, he, hreachable, hearly, hsettings, hdb₁, htiming⟩ :=
    exists_loadAround hdb hd hu before (mid ++ after)
  obtain ⟨late, hl, hreachable', hlate, hsettings', hdb₂, htiming'⟩ :=
    exists_loadAround hdb hd hu (before ++ mid) after
  have ht : late.timing = early.timing := by
    rw [htiming', htiming, List.append_assoc]
  exact ⟨early, late, he, hl,
    hearly.sameButDesign hlate hreachable hreachable' (hsettings'.trans hsettings.symm)
      (hdb₂.trans hdb₁.symm) ht, hearly.design, hlate.design,
    hearly.sameView_iff hlate hreachable hreachable' ht htiming⟩

/-- A timing library with a cell of the name of the design. After the database it is linked to the
top cell, and what the top cell lacks is reported. Before the database it is not. -/
theorem loadAround_exact_top : ∃ db library early late, Database.Reachable db ∧
    loadAround .flat db [] [library] = .ok early ∧ loadAround .flat db [library] [] = .ok late ∧
    early.SameButDesign late ∧ ¬early.SameView late ∧
    early.catalog.cells.entries.map (fun e => (e.1, e.2.timing)) = [(⟨2⟩, some ⟨⟨0⟩, "top"⟩)] ∧
    late.catalog.cells.entries.map (fun e => (e.1, e.2.timing)) = [(⟨2⟩, none)] ∧
    early.issues.issues = [⟨.missingPhysicalPort "t" "top" "A", .warning⟩] ∧
    late.issues.issues = [] := by
  have hrun : ∃ db library, Database.Reachable db ∧ db.design?.isSome = true ∧ (do
      let early ← loadAround .flat db [] [library]
      let late ← loadAround .flat db [library] []
      return (early.catalog.cells.entries.map (fun e => (e.1, e.2.timing)),
        late.catalog.cells.entries.map (fun e => (e.1, e.2.timing)),
        early.issues.issues, late.issues.issues)) =
        (.ok ([(⟨2⟩, some ⟨⟨0⟩, "top"⟩)], [(⟨2⟩, none)],
          [⟨.missingPhysicalPort "t" "top" "A", .warning⟩], []) : Except Fault
            (List (CellId × Option TimingCellRef) × List (CellId × Option TimingCellRef) ×
            List LibraryIssue × List LibraryIssue)) := by
    refine ⟨_, { name := "t", cells := ⟨[("top", { name := "top", ports := ⟨[("A", .input)]⟩ })]⟩ },
      Relation.ReflTransGen.refl |>.tail (@Database.Step.createDesign _ "top" _ _ rfl), rfl, rfl⟩
  obtain ⟨db, library, hdb, hd, hrun⟩ := hrun
  obtain ⟨early, late, he, hl, hsame, -⟩ := loadAround_exact hdb hd .flat [] [library] []
  rw [List.append_nil] at he
  rw [List.nil_append] at hl
  rw [he, hl] at hrun
  have hseen := pure_eq_ok.1 hrun
  simp only [Prod.mk.injEq] at hseen
  refine ⟨db, library, early, late, hdb, he, hl, hsame, fun h => ?_, hseen⟩
  have hlength := h.issues.length_eq
  rw [hseen.2.2.1, hseen.2.2.2] at hlength
  exact absurd hlength (by decide)

end DesignView.Network
