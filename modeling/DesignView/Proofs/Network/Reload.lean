import DesignView.Proofs.Network.FirstLink
import DesignView.Proofs.Network.Integrity
import DesignView.Proofs.Network.Rebuild

/-!
Reloading. The physical part of the catalog stays as it is. The view of the design is built anew
under higher numbers, with the same cells and ports, but it is not linked again, and bits that
repeat an index are reported again.
-/

namespace DesignView.Network

open Relation (ReflTransGen)

variable {n n' n'' : Network} {d : Design} {x : CellId}

structure Spares (n n' : Network) : Prop where
  only : n.Only n'
  part : (n'.catalog.part false).shift ⟨0, false⟩ = (n.catalog.part false).shift ⟨0, false⟩
  boundaryPorts : n'.catalog.boundaryPorts = n.catalog.boundaryPorts
  boundaries : n'.catalog.boundaries = n.catalog.boundaries
  issues : n.issues.issues <+: n'.issues.issues

namespace Spares

theorem refl (n : Network) : n.Spares n := ⟨.refl n, rfl, rfl, rfl, List.prefix_rfl⟩

theorem trans (h : n.Spares n') (h' : n'.Spares n'') : n.Spares n'' :=
  ⟨h.only.trans h'.only, h'.part.trans h.part, h'.boundaryPorts.trans h.boundaryPorts,
    h'.boundaries.trans h.boundaries, h.issues.trans h'.issues⟩

theorem setCatalog {c : Catalog} (hpart : c.part false = n.catalog.part false)
    (hboundaryPorts : c.boundaryPorts = n.catalog.boundaryPorts)
    (hboundaries : c.boundaries = n.catalog.boundaries) : n.Spares { n with catalog := c } :=
  ⟨⟨_, _, _, _, _, rfl⟩, congrArg (Part.shift ⟨0, false⟩) hpart, hboundaryPorts, hboundaries,
    List.prefix_rfl⟩

theorem reportAll (n : Network) (causes : List Mismatch) : n.Spares (n.reportAll causes) := by
  refine ⟨only_reportAll .., ?_, ?_, ?_, ?_⟩
  · rw [reportAll_catalog]
  · rw [reportAll_catalog]
  · rw [reportAll_catalog]
  · rw [reportAll_eq]
    exact List.prefix_append ..

theorem isLeaf_of_label {c : Catalog} {l : LibraryId} {id : MasterId}
    (h : c.cellLabel? x = some ⟨l, .physical id⟩) {y : Cell} (hx : c.cells.find? x = some y) :
    y.isLeaf ≠ false := by
  have hsource : y.source = .physical id :=
    congrArg CellLabel.source (Option.some.inj ((Catalog.cellLabel?_of_find? hx).symm.trans h))
  simp [Cell.isLeaf, hsource]

theorem boundaryPorts_groupBuses {c : Catalog} (ht : c.Tidy) (x : CellId)
    (msbFirst : String → Bool) : (c.groupBuses x msbFirst).1.boundaryPorts = c.boundaryPorts :=
  Catalog.groupBuses_induct (motive := fun c' => c'.boundaryPorts = c.boundaryPorts) msbFirst ht rfl
    fun c₁ c₂ _ _ _ h _ g => by rw [g.frame, h]

theorem groupCell (hi : n.catalog.Intact) {l : LibraryId} {id : MasterId}
    (hx : n.catalog.cellLabel? x = some ⟨l, .physical id⟩) (name : String) :
    n.Spares (n.groupCell x name) := by
  have hbeside := Catalog.Beside.groupBuses hi x fun bus => n.msbFirst bus name
  have hi' := hi.groupBuses x fun bus => n.msbFirst bus name
  have hsame := Catalog.SameCells.groupBuses n.catalog x fun bus => n.msbFirst bus name
  have hx' := (Catalog.cellLabel?_of_head? (Catalog.head?_of_face? (hsame.faces x))).trans hx
  have hboundaries := (Arranges.groupCell n x name).boundaries
  rw [groupCell_catalog] at hboundaries
  refine trans (setCatalog ?_ (boundaryPorts_groupBuses hi.tidy x _) hboundaries) (reportAll ..)
  exact hbeside.part hi.tidy hi'.tidy (fun y hy => isLeaf_of_label hx hy)
    fun y hy => isLeaf_of_label hx' hy

theorem boundaryPorts_link (c : Catalog) (x : CellId) (id : TimingId) (library : String)
    (timing : TimingCell) : (c.link x id library timing).1.boundaryPorts = c.boundaryPorts := by
  refine List.foldlRecOn (motive := fun c' : Catalog => c'.boundaryPorts = c.boundaryPorts) _ _ rfl
    fun c' hc' p _ => ?_
  unfold Catalog.linkPort
  split
  · exact hc'
  · split <;> exact hc'

theorem linkCell? {id : TimingId} (e : n.linkCell? x id = some n') : n.Spares n' := by
  have hboundaries := (Arranges.linkCell? e).boundaries
  obtain ⟨library, _, timing, -, -, -, rfl⟩ := linkCell?_eq_some e
  rw [reportAll_catalog] at hboundaries
  have hlink : n.Spares { n with catalog := (n.catalog.link x id library.name timing).1 } := by
    have hports := boundaryPorts_link n.catalog x id library.name timing
    refine ⟨⟨_, _, _, _, _, rfl⟩, ?_, hports, hboundaries, List.prefix_rfl⟩
    rw [← part_bare, ← part_bare]
    have hlink := Graft.catalog_link (g := Graft.bare) rfl n.catalog x id library.name timing
    exact congrArg (·.part false) hlink
  exact hlink.trans (reportAll ..)

theorem linkFirst (n : Network) (x : CellId) (ids : List TimingId) :
    n.Spares (n.linkFirst x ids) := by
  induction ids with
  | nil => exact refl n
  | cons id ids ih =>
    unfold Network.linkFirst
    cases e : n.linkCell? x id with
    | none => exact ih
    | some n' => exact linkCell? e

theorem recordMaster (n : Network) (id : MasterId) (name : String) :
    n.Spares (n.recordMaster id name) := by
  rw [recordMaster_eq]
  exact setCatalog rfl rfl rfl

theorem recordTimingMasters (n : Network) (id : TimingId) :
    n.Spares (n.recordTimingMasters id) := by
  cases hl : n.timingLibrary? id with
  | none =>
    rw [recordTimingMasters_of_none hl]
    exact refl n
  | some library =>
    rw [recordTimingMasters_eq hl]
    exact setCatalog rfl rfl rfl

theorem boundaryPorts_addPorts (c : Catalog) (x : CellId) {ps : List PortSpec}
    (hps : ∀ s ∈ ps, ∀ b, s.source ≠ .moduleBoundary b) :
    (c.addPorts x ps).boundaryPorts = c.boundaryPorts ∧
      (c.addPorts x ps).boundaries = c.boundaries := by
  refine List.foldlRecOn (motive := fun c' : Catalog =>
    c'.boundaryPorts = c.boundaryPorts ∧ c'.boundaries = c.boundaries) _ _ ⟨rfl, rfl⟩
    fun c' hc' s hs => ?_
  refine ⟨Eq.trans ?_ hc'.1, hc'.2⟩
  cases hsource : s.source with
  | moduleBoundary b => exact absurd hsource (hps s hs b)
  | physical | design | group => rfl

theorem loadMaster (hdb : n.db.WellFormed) (hi : n.catalog.Intact) (library : LibraryId)
    (id : MasterId) (a : Master) : n.Spares (n.loadMaster library id a) := by
  obtain ⟨m, hm, hload⟩ := loadMaster_eq n library id a
  generalize hc : n.catalog.buildCell library a.name (.physical id) (masterPorts n.db id) = c at hm
  have hbeside : n.catalog.Beside ⟨n.catalog.count + 1⟩ c := hc ▸ .buildCell hi.tidy ..
  have hlabel : c.cellLabel? ⟨n.catalog.count + 1⟩ = some ⟨library, .physical id⟩ := by
    rw [← hc, Catalog.cellLabel?_buildCell, if_pos rfl]
  have hic : c.Intact := hc ▸ hi.buildCell library a.name (.physical id) (masterPorts_nodup hdb id)
    fun s hs b hb => absurd hb (masterPorts_source hs b)
  have hpart : c.part false = n.catalog.part false := by
    refine hbeside.part hi.tidy hic.tidy (fun y hy => ?_) fun y hy => isLeaf_of_label hlabel hy
    cases (hi.tidy.cells.find?_fresh rfl).symm.trans hy
  have hbuild : n.Spares { n with catalog := c } := by
    have hsource : ∀ s ∈ masterPorts n.db id, ∀ b, s.source ≠ .moduleBoundary b :=
      fun s hs => masterPorts_source hs
    obtain ⟨hports, hboundaries⟩ := boundaryPorts_addPorts
      (n.catalog.addCell library a.name (.physical id)).2 ⟨n.catalog.count + 1⟩
      hsource
    exact setCatalog hpart (hc ▸ hports) (hc ▸ hboundaries)
  rw [hload, hm]
  exact ((hbuild.trans (groupCell hic hlabel a.name)).trans (recordMaster ..)).trans (linkFirst ..)

theorem loadMasters (hdb : n.db.WellFormed) (hn : n.catalog.Stocked n.db) (library : LibraryId)
    {es : List (MasterId × Master)} (hes : ∀ e ∈ es, n.db.masters.find? e.1 = some e.2) :
    n.Spares (es.foldl (fun n e => n.loadMaster library e.1 e.2) n) := by
  induction es generalizing n with
  | nil => exact refl n
  | cons e es ih =>
    have hone := loadMaster hdb hn.intact library e.1 e.2
    have hstocks := stocks_loadMaster hdb (hes e List.mem_cons_self) library
    rw [List.foldl_cons]
    generalize n.loadMaster library e.1 e.2 = n₁ at hone hstocks ⊢
    have hdb₁ : n₁.db = n.db := hone.only.db
    refine hone.trans (ih (hdb₁.symm ▸ hdb) (hdb₁.symm ▸ hstocks.stocked hn) fun e' he' => ?_)
    rw [hdb₁]
    exact hes e' (List.mem_cons_of_mem e he')

theorem loadLibrary (hm : n.catalog.Mirrors n.db) (hdb : n.db.WellFormed)
    (hn : n.catalog.Stocked n.db) {id : LibId} {r : LibraryId}
    (e : n.loadLibrary id = .ok (r, n')) : n.Spares n' := by
  have hes : ∀ e ∈ n.db.mastersOf id, n.db.masters.find? e.1 = some e.2 :=
    fun e he => (hdb.masters.mem_select.1 he).1
  have hout : (n.catalog.without (.physical id)).part false = n.catalog.part false :=
    hm.part_without hn.intact ⟨fun _ => rfl, fun _ => ⟨id, rfl⟩⟩
  have hports := hm.boundaryPorts_without hn.intact (s := .physical id) LibrarySource.noConfusion
  have ht : (n.catalog.without (.physical id)).Tidy := (hm.without _).1.mirrors.tidy
  obtain ⟨lib, m, -, -, rfl, rfl⟩ := loadLibrary_eq_ok e
  have hnew : n.Spares { n with
      catalog := ((n.catalog.without (.physical id)).addLibrary lib.name (.physical id)).2 } := by
    refine setCatalog ?_ hports (n.catalog.boundaries_without _)
    rw [Catalog.part_addLibrary ht lib.name (.physical id) Bool.noConfusion, hout]
  have hmasters := hnew.trans (loadMasters (n := { n with
    catalog := ((n.catalog.without (.physical id)).addLibrary lib.name (.physical id)).2 }) hdb
    ((hn.without (.physical id)).addLibrary lib.name (.physical id)) r hes)
  exact hmasters.trans ⟨⟨_, _, _, _, _, rfl⟩, rfl, rfl, rfl, List.prefix_rfl⟩

theorem relinkTiming (n : Network) (id : TimingId) : n.Spares (n.relinkTiming id) := by
  unfold Network.relinkTiming
  split
  · exact ⟨⟨_, _, _, _, _, rfl⟩, rfl, rfl, rfl, List.prefix_rfl⟩
  · dsimp only
    generalize hacc : List.foldl _ (n, false) _ = acc
    have hlinked : n.Spares acc.1 := by
      rw [← hacc]
      refine List.foldlRecOn (motive := fun acc : Network × Bool => n.Spares acc.1) _ _ (refl n)
        fun acc hacc cell _ => ?_
      cases e : acc.1.linkCell? cell id with
      | none => exact hacc
      | some m => exact hacc.trans (linkCell? e)
    obtain ⟨m, linked⟩ := acc
    refine (hlinked.trans (recordTimingMasters m id)).trans ?_
    cases linked <;> exact ⟨⟨_, _, _, _, _, rfl⟩, rfl, rfl, rfl, List.prefix_rfl⟩

end Spares

def blank (n : Network) : Network := { settings := n.settings, db := n.db }

/-- The view of the design is that of `b`, `k` numbers up and linked or not. -/
structure Repeats (n b : Network) (k : Nat) : Prop where
  part : (n.catalog.part false).shift ⟨0, false⟩ = (b.catalog.part false).shift ⟨k, false⟩
  boundaryPorts : ∀ t, n.catalog.portOfModBTerm? t =
    (b.catalog.portOfModBTerm? t).map (Shift.mk k false).portId
  boundaries : n.catalog.boundaries = b.catalog.boundaries
  constants : n.constants = b.constants
  issues : ∀ i ∈ b.issues.issues, i ∈ n.issues.issues

def Faithful (n : Network) : Prop := ∀ b, n.blank.loadDesign = .ok b → ∃ k, n.Repeats b k

theorem Repeats.spares {b : Network} {k : Nat} (h : n.Repeats b k) (hs : n.Spares n') :
    n'.Repeats b k := by
  have hconstants : n'.constants = n.constants := by
    obtain ⟨_, _, _, _, _, rfl⟩ := hs.only
    rfl
  refine ⟨hs.part.trans h.part, fun t => ?_, hs.boundaries.trans h.boundaries,
    hconstants.trans h.constants, fun i hi => hs.issues.subset (h.issues i hi)⟩
  rw [← h.boundaryPorts, Catalog.portOfModBTerm?, hs.boundaryPorts, Catalog.portOfModBTerm?]

theorem Faithful.spares (h : n.Faithful) (hs : n.Spares n') : n'.Faithful := by
  have hblank : n'.blank = n.blank := by
    rw [blank, hs.only.settings, hs.only.db, blank]
  intro b hb
  obtain ⟨k, hk⟩ := h b (hblank ▸ hb)
  exact ⟨k, hk.spares hs⟩

theorem loadDesign_eq_ok_blank (hm : n.catalog.Mirrors n.db) (hdb : n.db.WellFormed)
    (hn : n.catalog.Stocked n.db) (hd : n.design? = some d) :
    ∃ b n', n.blank.loadDesign = .ok b ∧ n.loadDesign = .ok n' ∧
      BothLoaded ⟨n.catalog, false, hn.intact⟩ [] n.issues.issues b n' := by
  have hblank : Over ⟨n.catalog, false, hn.intact⟩ [] n.issues.issues n.blank n :=
    ⟨rfl, rfl, (Graft.catalog_empty ⟨n.catalog, false, hn.intact⟩).symm, [], rfl,
      (List.append_nil _).symm⟩
  obtain ⟨b, hb⟩ := exists_loadDesign (n := n.blank) hdb hd
  obtain ⟨n', e, h⟩ := hblank.loadDesign (Catalog.mirrors_empty _) hdb (Catalog.stocked_empty _)
    (fun s ⟨a, ha⟩ => by cases ha) hm hb
  exact ⟨b, n', hb, e, h⟩

theorem BothLoaded.shift (hi : n.catalog.Intact) :
    ((Graft.without ⟨n.catalog, false, hi⟩ .design).without .modules).shift =
      ⟨n.catalog.count, false⟩ := by
  rw [Graft.shift_without, Graft.shift_without]
  rfl

theorem BothLoaded.part_design {b : Network} (hm : n.catalog.Mirrors n.db) (hi : n.catalog.Intact)
    (h : BothLoaded ⟨n.catalog, false, hi⟩ [] n.issues.issues b n') :
    n'.catalog.part false = (b.catalog.part false).shift ⟨n.catalog.count, false⟩ := by
  have hbase : ((Graft.without ⟨n.catalog, false, hi⟩ .design).without .modules).base =
      (n.catalog.without .design).without .modules := rfl
  rw [h.catalog]
  refine (Graft.part_catalog _ b.catalog false).trans ?_
  rw [hbase, hm.part_withoutDesign, Part.empty_append, BothLoaded.shift hi]

theorem BothLoaded.repeats {b : Network} (hm : n.catalog.Mirrors n.db) (hi : n.catalog.Intact)
    (h : BothLoaded ⟨n.catalog, false, hi⟩ [] n.issues.issues b n') :
    n'.Repeats b n.catalog.count := by
  have hpart := h.part_design hm hi
  obtain ⟨hcatalog, hconstants, reported, hb, hn'⟩ := h
  refine ⟨?_, fun t => ?_, by rw [hcatalog], hconstants, fun i hi => ?_⟩
  · rw [hpart, Part.shift_shift]
    rfl
  · have hnone : ((n.catalog.without .design).without .modules).boundaryPorts.keys = [] := by
      obtain ⟨hout, hnone⟩ := (hm.without .design).1.mirrors.without .modules
      exact hout.mirrors.boundaryPorts_eq_empty ((hi.without .design).without .modules) hnone
    rw [Catalog.portOfModBTerm?, hcatalog, ← BothLoaded.shift hi]
    refine OrderedMap.find?_graft (k := t) Function.injective_id (fun hin => ?_)
    exact List.not_mem_nil (hnone ▸ hin)
  · have hi : i ∈ [] ++ reported := hb ▸ hi
    rw [hn']
    exact List.mem_append_right _ hi

theorem loadDesign_only (hm : n.catalog.Mirrors n.db) (hdb : n.db.WellFormed)
    (hn : n.catalog.Stocked n.db) (e : n.loadDesign = .ok n') : ∃ d n₁, n.Only n₁ ∧
      (∀ id, n₁.catalog.HasLibrary (.physical id) → n.catalog.HasLibrary (.physical id)) ∧
      n' = n₁.finishDesign d := by
  obtain ⟨d, n₁, hd, hmodules, rfl⟩ := loadDesign_eq_ok e
  obtain ⟨honly, hstocked, hlibraries⟩ := stocked_loadTopCell hm hdb hd hn
  obtain ⟨-, hdbt, rt, -⟩ := rebuilds_loadTopCell hm d
  rw [withoutModules_eq] at hmodules
  generalize n.loadTopCell d = t at honly hdbt rt hstocked hlibraries hmodules
  have hout : t.Only { t with catalog := t.catalog.without .modules } := ⟨_, _, _, _, _, rfl⟩
  have hphysical {id : LibId} (h : (t.catalog.without .modules).HasLibrary (.physical id)) :
      n.catalog.HasLibrary (.physical id) :=
    ((hlibraries _).1 (rt.mirrors.hasLibrary_without.1 h).2).resolve_left LibrarySource.noConfusion
  rcases hmodules with ⟨-, e₁⟩ | ⟨-, rfl⟩
  · have ht := (rt.mirrors.without .modules).1.mirrors.tidy
    have hstocked : (t.catalog.without .modules).Stocked t.db :=
      hdbt.symm ▸ hstocked.without .modules
    obtain ⟨honly₁, -, hlibraries₁⟩ := stocked_loadModuleCells
      (n := { t with catalog := t.catalog.without .modules }) ht (hdbt.symm ▸ hdb)
      ((congrArg Database.design? hdbt).trans hd) hstocked e₁
    exact ⟨d, n₁, (honly.trans hout).trans honly₁, fun id h =>
      hphysical (((hlibraries₁ _).1 h).resolve_left LibrarySource.noConfusion), rfl⟩
  · exact ⟨d, _, honly.trans hout, fun id h => hphysical h, rfl⟩

theorem stored_blank {b : Network} (hdb : n.db.WellFormed) (e : n.blank.loadDesign = .ok b) :
    b.Stored ∧ b.catalog.HasLibrary .design := by
  have hm : n.blank.catalog.Mirrors n.blank.db := Catalog.mirrors_empty _
  have hn : n.blank.catalog.Stocked n.blank.db := Catalog.stocked_empty _
  have hstored : b.Stored := stored_of_loadDesign hm hdb hn e
  obtain ⟨_, _, -, -, rfl⟩ := loadDesign_only hm hdb hn e
  exact ⟨hstored, hstored.top.2 rfl⟩

theorem part_blank {b : Network} (hdb : n.db.WellFormed) (e : n.blank.loadDesign = .ok b) :
    b.catalog.part true = {} := by
  have hm : n.blank.catalog.Mirrors n.blank.db := Catalog.mirrors_empty _
  have hn : n.blank.catalog.Stocked n.blank.db := Catalog.stocked_empty _
  have hstored : b.Stored := (stored_blank hdb e).1
  have hleaves := SameLeaves.loadDesign hm hdb hn e
  obtain ⟨d, b₁, -, hlibraries, rfl⟩ := loadDesign_only hm hdb hn e
  refine Catalog.part_eq_empty hstored.stocked.intact.tidy (fun l a hl ha => ?_) fun x y hx hy => ?_
  · cases hs : a.source with
    | physical id =>
      rw [finishDesign_catalog] at hl
      obtain ⟨l', hl'⟩ := hlibraries id ⟨l, (congrArg (Option.map _) hl).trans (congrArg some hs)⟩
      cases hl'
    | modules | design => simp [Library.isPhysical, hs] at ha
  · cases (hleaves.leaves (y := y.face) hy).1 (Catalog.face?_of_find? hx)

theorem BothLoaded.part_physical {b : Network} (hm : n.catalog.Mirrors n.db)
    (hdb : n.db.WellFormed) (hi : n.catalog.Intact) (e : n.blank.loadDesign = .ok b)
    (h : BothLoaded ⟨n.catalog, false, hi⟩ [] n.issues.issues b n') :
    n'.catalog.part true = n.catalog.part true := by
  obtain ⟨hcatalog, -⟩ := h
  have hother {s : LibrarySource} (hs : ∀ id, s ≠ .physical id) :
      (∃ id, s = .physical id) ↔ true = false :=
    ⟨fun ⟨id, hid⟩ => absurd hid (hs id), Bool.noConfusion⟩
  have hdesign : (n.catalog.without .design).part true = n.catalog.part true :=
    hm.part_without hi (hother fun _ => LibrarySource.noConfusion)
  have hmodules : ((n.catalog.without .design).without .modules).part true =
      (n.catalog.without .design).part true :=
    (hm.without .design).1.mirrors.part_without (hi.without .design)
      (hother fun _ => LibrarySource.noConfusion)
  rw [hcatalog]
  refine (Graft.part_catalog _ b.catalog true).trans ?_
  rw [part_blank hdb e]
  exact (Part.append_empty _).trans (hmodules.trans hdesign)

theorem faithful_of_loadDesign (hm : n.catalog.Mirrors n.db) (hdb : n.db.WellFormed)
    (hn : n.catalog.Stocked n.db) (e : n.loadDesign = .ok n') : n'.Faithful := by
  obtain ⟨d, n₁, honly, -, rfl⟩ := loadDesign_only hm hdb hn e
  have hblank : (n₁.finishDesign d).blank = n.blank := by
    have hsame : (n₁.finishDesign d).blank = n₁.blank := rfl
    rw [hsame, blank, honly.settings, honly.db, blank]
  intro b hb
  rw [hblank] at hb
  obtain ⟨d', hd, -⟩ := bind_eq_ok.1 hb
  obtain ⟨b', n', hb', e', h⟩ := loadDesign_eq_ok_blank hm hdb hn (design_eq_ok.1 hd)
  obtain rfl : b' = b := Except.ok.inj (hb'.symm.trans hb)
  obtain rfl : n' = n₁.finishDesign d := Except.ok.inj (e'.symm.trans e)
  exact ⟨_, h.repeats hm hn.intact⟩

theorem faithful_of_none (hd : n.design? = none) : n.Faithful := by
  intro b hb
  obtain ⟨d, hd', -⟩ := bind_eq_ok.1 hb
  cases (design_eq_ok.1 hd').symm.trans hd

theorem Load.faithful (s : n.Load n') (hdb : n.db.WellFormed) (hm : n.catalog.Mirrors n.db)
    (hn : n.catalog.Stocked n.db) (h : n.Faithful) : n'.Faithful := by
  cases s with
  | @loadDatabase db _ hdb' e =>
    have hdb' : db.WellFormed := hdb'.wellFormed
    obtain ⟨m, hm', -, hdesign⟩ := loadDatabase_induct (motive := fun _ => True) hdb' trivial
      (fun _ _ _ _ _ _ _ => trivial) (fun _ _ _ _ => trivial) e
    have hmdb : m.db = db := hm'.only.db
    subst hmdb
    rcases hdesign with ⟨-, e⟩ | ⟨hnone, rfl⟩
    · exact faithful_of_loadDesign hm'.mirrors hdb' hm'.stocked e
    · exact faithful_of_none hnone
  | loadLibrary e => exact h.spares (.loadLibrary hm hdb hn e)
  | loadTiming library =>
    have hadded : Faithful { n with timing := n.timing ++ [library] } := by
      intro b hb
      obtain ⟨k, hk⟩ := h b hb
      exact ⟨k, hk.part, hk.boundaryPorts, hk.boundaries, hk.constants, hk.issues⟩
    exact hadded.spares (.relinkTiming _ _)
  | relinkTiming id => exact h.spares (.relinkTiming n id)
  | loadDesign e => exact faithful_of_loadDesign hm hdb hn e
  | reload e =>
    rcases reload_eq_ok e with e | rfl
    · exact faithful_of_loadDesign hm hdb hn e
    · intro b hb
      obtain ⟨k, hk⟩ := h b hb
      exact ⟨k, hk.part, hk.boundaryPorts, hk.boundaries, hk.constants, hk.issues⟩
  | teardown => exact faithful_of_none rfl

/-- No edit has been made. -/
def Loaded (n : Network) : Prop := ∃ settings, ReflTransGen Load (Network.new settings) n

theorem Loaded.reachable (h : n.Loaded) : n.Reachable := by
  obtain ⟨settings, hrun⟩ := h
  exact ⟨settings, hrun.lift id fun _ _ s => .load s⟩

theorem Loaded.faithful (h : n.Loaded) : n.Faithful := by
  obtain ⟨settings, hrun⟩ := h
  induction hrun with
  | refl => exact faithful_of_none rfl
  | tail hrun s ih =>
    have hbefore : Reachable _ := Loaded.reachable ⟨settings, hrun⟩
    exact s.faithful hbefore.current.sound.db hbefore.shown.mirrors hbefore.stored.stocked ih

def ReportsBits (n n' : Network) : Prop := ∃ reported,
  n'.issues.issues = n.issues.issues ++ reported ∧
    ∀ i ∈ reported, ∃ cell port, i = ⟨.duplicateBusBit cell port, .warning⟩

namespace ReportsBits

theorem of_issues (h : n'.issues = n.issues) : n.ReportsBits n' :=
  ⟨[], by rw [h, List.append_nil], fun _ hi => by cases hi⟩

theorem trans (h : n.ReportsBits n') (h' : n'.ReportsBits n'') : n.ReportsBits n'' := by
  obtain ⟨reported, hn', hbits⟩ := h
  obtain ⟨reported', hn'', hbits'⟩ := h'
  refine ⟨reported ++ reported', by rw [hn'', hn', List.append_assoc], fun i hi => ?_⟩
  exact (List.mem_append.1 hi).elim (hbits i) (hbits' i)

theorem groupCell (n : Network) (x : CellId) (name : String) :
    n.ReportsBits (n.groupCell x name) := by
  refine ⟨_, groupCell_issues n x name, fun i hi => ?_⟩
  obtain ⟨cause, hcause, rfl⟩ := List.mem_map.1 hi
  obtain ⟨p, -, hp⟩ := List.mem_filterMap.1 hcause
  obtain ⟨q, -, rfl⟩ := Option.map_eq_some_iff.1 hp
  exact ⟨name, q.name, rfl⟩

theorem groupCells (n : Network) (cells : List (CellId × String)) :
    n.ReportsBits (cells.foldl (fun n e => n.groupCell e.1 e.2) n) :=
  List.foldlRecOn (motive := n.ReportsBits) _ _ (of_issues rfl) fun m hm e _ =>
    hm.trans (groupCell m e.1 e.2)

theorem loadDesign (e : n.loadDesign = .ok n') : n.ReportsBits n' := by
  obtain ⟨d, n₁, -, hmodules, rfl⟩ := loadDesign_eq_ok e
  have htop : n.ReportsBits (n.loadTopCell d).withoutModules := by
    have hcell : n.ReportsBits (n.loadTopCell d) := by
      rw [loadTopCell_eq]
      exact groupCell { n with catalog := _ } _ _
    rw [withoutModules_eq]
    exact hcell.trans (of_issues rfl)
  have hrest : n.ReportsBits n₁ := by
    rcases hmodules with ⟨-, e₁⟩ | ⟨-, rfl⟩
    · obtain ⟨⟨c, added⟩, -, e₁⟩ := bind_eq_ok.1 e₁
      cases pure_eq_ok.1 e₁
      have hcells := groupCells { (n.loadTopCell d).withoutModules with catalog := c } added
      exact htop.trans hcells
    · exact htop
  exact hrest.trans (of_issues rfl)

end ReportsBits

/-- The view of the design is the old one under higher numbers and without links, and the bits that
repeat an index have been reported once more. Everything else is as it was. -/
structure Reloaded (n n' : Network) : Prop where
  same : n'.settings = n.settings ∧ n'.db = n.db ∧ n'.timing = n.timing
  generation : n'.generation = n.generation + 1
  drivers : n'.drivers = {}
  physical : n'.catalog.part true = n.catalog.part true
  timingMasters : ∀ t name, n'.catalog.timingMaster? t name = n.catalog.timingMaster? t name
  boundaries : n'.catalog.boundaries = n.catalog.boundaries
  constants : n'.constants = n.constants
  view : ∃ k, n'.catalog.part false = (n.catalog.part false).shift ⟨k, false⟩ ∧
    ∀ t, n'.catalog.portOfModBTerm? t =
      (n.catalog.portOfModBTerm? t).map (Shift.mk k false).portId
  issues : ∃ b, n.blank.loadDesign = .ok b ∧
    n'.issues.issues = n.issues.issues ++ b.issues.issues ∧ ∀ i ∈ b.issues.issues,
      i ∈ n.issues.issues ∧ ∃ cell port, i = ⟨.duplicateBusBit cell port, .warning⟩

theorem Repeats.le_count {b : Network} {k : Nat} (h : n.Repeats b k) (ht : n.catalog.Tidy)
    (htb : b.catalog.Tidy) (htop : b.catalog.HasLibrary .design) : k ≤ n.catalog.count := by
  obtain ⟨l, hl⟩ := htop
  obtain ⟨a, ha, hs⟩ := Option.map_eq_some_iff.1 hl
  have hb : (l, a) ∈ (b.catalog.part false).libraries.entries := by
    refine List.mem_filter.2 ⟨OrderedMap.mem_of_find? ha, ?_⟩
    simp [Library.isPhysical, hs]
  have hn : ((Shift.mk k false).libraryId l, a) ∈
      ((n.catalog.part false).shift ⟨0, false⟩).libraries.entries := by
    rw [h.part]
    exact List.mem_map_of_mem hb
  obtain ⟨⟨l', a'⟩, hmem, heq⟩ := List.mem_map.1 hn
  have hle : l'.num ≤ n.catalog.count :=
    ht.libraries.le _ (OrderedMap.mem_keys_of_mem (List.mem_filter.1 hmem).1)
  have hpos : 0 < l.num :=
    htb.libraries.pos _ (OrderedMap.mem_keys_of_mem (OrderedMap.mem_of_find? ha))
  have hnum : above 0 l'.num = above k l.num :=
    congrArg (fun e : LibraryId × Library => e.1.num) heq
  cases hl : l.num with
  | zero => omega
  | succ i =>
    rw [hl] at hnum
    cases hl' : l'.num <;> simp only [hl', above] at hnum <;> omega

theorem Repeats.above {b : Network} {j k : Nat} (hold : n.Repeats b j) (hnew : n'.Repeats b k)
    (hpart : n'.catalog.part false = (b.catalog.part false).shift ⟨k, false⟩) (hle : j ≤ k) :
    n'.catalog.part false = (n.catalog.part false).shift ⟨k - j, false⟩ ∧
      ∀ t, n'.catalog.portOfModBTerm? t =
        (n.catalog.portOfModBTerm? t).map (Shift.mk (k - j) false).portId := by
  have hcomp : (Shift.mk j false).comp ⟨k - j, false⟩ = ⟨k, false⟩ :=
    congrArg (Shift.mk · false) (Nat.add_sub_cancel' hle)
  constructor
  · have hunlinked : (n.catalog.part false).shift ⟨k - j, false⟩ =
        ((n.catalog.part false).shift ⟨0, false⟩).shift ⟨k - j, false⟩ := by
      rw [Part.shift_shift]
      exact congrArg (fun k => Part.shift ⟨k, false⟩ _) (Nat.zero_add _).symm
    rw [hunlinked, hold.part, Part.shift_shift, hcomp, hpart]
  · intro t
    rw [hnew.boundaryPorts, hold.boundaryPorts, Option.map_map, ← hcomp]
    exact congrArg (Option.map · _) (funext fun p => Shift.portId_comp _ _ p)

theorem frame_loadDesign (hm : n.catalog.Mirrors n.db) (hdb : n.db.WellFormed)
    (hn : n.catalog.Stocked n.db) (e : n.loadDesign = .ok n') :
    (n'.settings = n.settings ∧ n'.db = n.db ∧ n'.timing = n.timing) ∧
      n'.generation = n.generation + 1 ∧ n'.drivers = {} := by
  obtain ⟨_, n₁, honly, -, rfl⟩ := loadDesign_only hm hdb hn e
  obtain ⟨_, _, _, _, _, rfl⟩ := honly
  exact ⟨⟨rfl, rfl, rfl⟩, rfl, rfl⟩

/-- A reload keeps all but the links of the design, and reports repeated bits once more. So it
keeps the view, up to the numbers, exactly if nothing in the design is linked, and the issues
exactly if no bit of the design repeats an index. -/
theorem Loaded.reload_exact (h : n.Loaded) (hd : n.design? = some d) :
    ∃ n', n.reload = .ok n' ∧ n.Reloaded n' ∧
      ((∃ k, n'.catalog.part false = (n.catalog.part false).shift ⟨k, true⟩) ↔
        (n.catalog.part false).Unlinked) ∧
      (n'.issues.issues.Perm n.issues.issues ↔
        ∀ b, n.blank.loadDesign = .ok b → b.issues.issues = []) := by
  have hreachable := h.reachable
  have hm := hreachable.shown.mirrors
  have hdb := hreachable.current.sound.db
  have hn := hreachable.stored.stocked
  obtain ⟨b, n', hb, e, hloaded⟩ := loadDesign_eq_ok_blank hm hdb hn hd
  have hreload : n.reload = .ok n' := by
    unfold Network.reload
    rw [hd, Option.isSome_some, if_pos rfl, e]
  have hnew : n'.Repeats b n.catalog.count := hloaded.repeats hm hn.intact
  have hleaves := SameLeaves.loadDesign hm hdb hn e
  obtain ⟨k, hold⟩ := h.faithful b hb
  obtain ⟨hstored, htop⟩ := stored_blank hdb hb
  have hle : k ≤ n.catalog.count := hold.le_count hm.tidy hstored.stocked.intact.tidy htop
  obtain ⟨hview, hports⟩ := hold.above hnew (hloaded.part_design hm hn.intact) hle
  obtain ⟨hsame, hgeneration, hdrivers⟩ := frame_loadDesign hm hdb hn e
  obtain ⟨reported, hb', hissues⟩ := hloaded.issues
  have hissues : n'.issues.issues = n.issues.issues ++ b.issues.issues := by
    rw [hissues, hb', List.nil_append]
  obtain ⟨bits, hbits, hall⟩ := ReportsBits.loadDesign hb
  have hbits : b.issues.issues = bits := hbits.trans (List.nil_append _)
  refine ⟨n', hreload, ?_, ?_, ?_⟩
  · exact {
      same := hsame
      generation := hgeneration
      drivers := hdrivers
      physical := hloaded.part_physical hm hdb hn.intact hb
      timingMasters := fun t name => hleaves.timingMasters (t, name)
      boundaries := hnew.boundaries.trans hold.boundaries.symm
      constants := hnew.constants.trans hold.constants.symm
      view := ⟨_, hview, hports⟩
      issues := ⟨b, hb, hissues, fun i hi => ⟨hold.issues i hi, hall i (hbits ▸ hi)⟩⟩ }
  · constructor
    · rintro ⟨j, hj⟩
      have hnone : (n'.catalog.part false).Unlinked := hview ▸ Part.unlinked_shift _ rfl
      exact Part.unlinked_of_shift (hj ▸ hnone) rfl
    · intro hnone
      exact ⟨_, hview.trans (Part.shift_congr hnone rfl)⟩
  · have hnil : (n.issues.issues ++ b.issues.issues).Perm (n.issues.issues ++ []) ↔
        b.issues.issues = [] := (List.perm_append_left_iff n.issues.issues).trans List.perm_nil
    rw [List.append_nil, ← hissues] at hnil
    constructor
    · intro hperm b' hb'
      obtain rfl : b = b' := Except.ok.inj (hb.symm.trans hb')
      exact hnil.1 hperm
    · intro hnone
      exact hnil.2 (hnone b hb)

/-- A timing library that comes late is linked to the top cell and its port. The reload gives both
new numbers and leaves them without a link. -/
theorem reload_exact_top : ∃ n n', Loaded n ∧ n.reload = .ok n' ∧ n.Reloaded n' ∧
    n.catalog.cells.entries.map (fun e => (e.1, e.2.timing)) = [(⟨2⟩, some ⟨⟨0⟩, "top"⟩)] ∧
    n.catalog.ports.entries.map (fun e => (e.1, e.2.timing)) =
      [(⟨3⟩, some ⟨⟨0⟩, "top", "a"⟩)] ∧
    n'.catalog.cells.entries.map (fun e => (e.1, e.2.timing)) = [(⟨5⟩, none)] ∧
    n'.catalog.ports.entries.map (fun e => (e.1, e.2.timing)) = [(⟨6⟩, none)] := by
  have hrun : ∃ db, Database.Reachable db ∧ (do
      let top : TimingCell := { name := "top", ports := ⟨[("a", .input)]⟩ }
      let n ← (Network.new .flat).loadDatabase db
      let n := (n.loadTiming { name := "t", cells := ⟨[("top", top)]⟩ }).2
      let n' ← n.reload
      return (n.design?.map (·.name),
        n.catalog.cells.entries.map (fun e => (e.1, e.2.timing)),
        n.catalog.ports.entries.map (fun e => (e.1, e.2.timing)),
        n'.catalog.cells.entries.map (fun e => (e.1, e.2.timing)),
        n'.catalog.ports.entries.map (fun e => (e.1, e.2.timing)))) =
        (.ok (some "top", [(⟨2⟩, some ⟨⟨0⟩, "top"⟩)], [(⟨3⟩, some ⟨⟨0⟩, "top", "a"⟩)],
          [(⟨5⟩, none)], [(⟨6⟩, none)]) : Except Fault (Option String ×
            List (CellId × Option TimingCellRef) × List (PortId × Option TimingPortRef) ×
            List (CellId × Option TimingCellRef) × List (PortId × Option TimingPortRef))) := by
    refine ⟨_, Relation.ReflTransGen.refl
      |>.tail (@Database.Step.createDesign _ "top" _ _ rfl)
      |>.tail (.design rfl (@Design.Step.createBTerm _ "a" none _ _ rfl)), ?_⟩
    cbv
  obtain ⟨db, hdb, hrun⟩ := hrun
  obtain ⟨n₁, e₁, hrun⟩ := bind_eq_ok.1 hrun
  obtain ⟨n', e₂, hrun⟩ := bind_eq_ok.1 hrun
  have hseen := pure_eq_ok.1 hrun
  simp only [Prod.mk.injEq] at hseen
  obtain ⟨hname, hseen⟩ := hseen
  obtain ⟨d, hd, -⟩ := Option.map_eq_some_iff.1 hname
  have h (library : TimingLibrary) : Loaded (n₁.loadTiming library).2 := ⟨_, ReflTransGen.refl
    |>.tail (.loadDatabase hdb e₁)
    |>.tail (.loadTiming library)⟩
  obtain ⟨n'', e, hreloaded, -⟩ := (h _).reload_exact hd
  obtain rfl : n'' = n' := Except.ok.inj (e.symm.trans e₂)
  exact ⟨_, n'', h _, e, hreloaded, hseen⟩

end DesignView.Network
