import DesignView.Proofs.Network.FirstLink
import DesignView.Proofs.Network.Integrity

/-!
The table of timing masters. It gives, for a cell of a timing library, the master of that name in
the last physical library that has one. Entries are written when a cell is built, when a timing
library is loaded and when a database is, and they go when a physical library makes room for a newer
one.
-/

namespace DesignView

namespace OrderedMap

variable {κ α : Type} [DecidableEq κ]

theorem find?_foldl_insert (m : OrderedMap κ α) (es : List (κ × α)) (k : κ) :
    (es.foldl (fun m e => m.insert e.1 e.2) m).find? k =
      (es.filterMap fun e => if e.1 = k then some e.2 else none).getLast?.or (m.find? k) := by
  induction es generalizing m with
  | nil => rfl
  | cons e es ih =>
    rw [List.foldl_cons, ih, find?_insert, List.filterMap_cons]
    by_cases hk : e.1 = k
    · rw [if_pos hk.symm, if_pos hk, List.getLast?_cons]
      cases (es.filterMap fun e => if e.1 = k then some e.2 else none).getLast? with
      | none => rfl
      | some a => rfl
    · rw [if_neg (Ne.symm hk), if_neg hk]

end OrderedMap

namespace Catalog

def Holds (c : Catalog) (l : LibraryId) (name : String) (m : MasterId) : Prop :=
  ∃ x y, c.face? x = some y ∧ y.library = l ∧ y.name = name ∧ y.source = .physical m

/-- No library that came later holds a cell of the name. -/
def LastHolder (c : Catalog) (name : String) (m : MasterId) : Prop :=
  ∃ l, c.Holds l name m ∧ ∀ l' m', c.Holds l' name m' → l'.num ≤ l.num

def Unambiguous (c : Catalog) : Prop :=
  ∀ ⦃l name m m'⦄, c.Holds l name m → c.Holds l name m' → m = m'

variable {c c' : Catalog} {l : LibraryId} {name : String} {m m' : MasterId} {x : CellId} {y : Cell}

theorem holds_of_find? (h : c.cells.find? x = some y) (hs : y.source = .physical m) :
    c.Holds y.library y.name m := ⟨x, y.face, face?_of_find? h, rfl, rfl, hs⟩

theorem LastHolder.unique (hu : c.Unambiguous) (h : c.LastHolder name m)
    (h' : c.LastHolder name m') : m = m' := by
  obtain ⟨l, hl, hlast⟩ := h
  obtain ⟨l', hl', hlast'⟩ := h'
  have hsame : l = l' := by
    have hnum : l.num = l'.num := Nat.le_antisymm (hlast' _ _ hl) (hlast _ _ hl')
    cases l
    cases l'
    exact congrArg LibraryId.mk hnum
  exact hu hl (hsame ▸ hl')

theorem lastHolder_congr (h : ∀ l m, c'.Holds l name m ↔ c.Holds l name m) :
    c'.LastHolder name m ↔ c.LastHolder name m := by
  simp only [LastHolder, h]

end Catalog

namespace Network

open Catalog (Holds LastHolder Unambiguous)

variable {n n' : Network} {t id : TimingId} {name : String} {m : MasterId}

theorem SameLeaves.holds {c c' : Catalog} (h : SameLeaves c c') (l : LibraryId) (name : String)
    (m : MasterId) : c'.Holds l name m ↔ c.Holds l name m := by
  refine exists_congr fun x => exists_congr fun y => ?_
  refine ⟨fun ⟨hx, hrest⟩ => ⟨(h.leaves ?_).1 hx, hrest⟩,
    fun ⟨hx, hrest⟩ => ⟨(h.leaves ?_).2 hx, hrest⟩⟩
  all_goals simp [Cell.isLeaf, hrest.2.2]

theorem unambiguous (hm : n.catalog.Mirrors n.db) (hdb : n.db.WellFormed)
    (hn : n.catalog.Stocked n.db) : n.catalog.Unambiguous := by
  rintro l name m m' ⟨x, y, hx, hl, hname, hs⟩ ⟨x', y', hx', hl', hname', hs'⟩
  obtain ⟨z, hz, rfl⟩ := Catalog.exists_of_face? hx
  obtain ⟨z', hz', rfl⟩ := Catalog.exists_of_face? hx'
  have hsources : z.source = z'.source :=
    source_eq_of_name hdb hm hn hz hz' (hl.trans hl'.symm) (hname.trans hname'.symm)
  exact CellSource.physical.inj (hs.symm.trans (hsources.trans hs'))

/-- The table is right about a timing library. -/
def RecordedAt (n : Network) (t : TimingId) : Prop := ∀ name m,
  n.catalog.timingMasters.find? (t, name) = some m ↔
    (n.refIn? t name).isSome = true ∧ n.catalog.LastHolder name m

def Recorded (n : Network) : Prop := ∀ t, n.RecordedAt t

theorem Recorded.of_leaves (h : n.Recorded) (hl : SameLeaves n.catalog n'.catalog)
    (htiming : n'.timing = n.timing) : n'.Recorded := by
  intro t name m
  rw [hl.timingMasters, refIn?_congr htiming, Catalog.lastHolder_congr (hl.holds · name),
    h t name m]

theorem Arranges.holds (h : n.Arranges n') (l : LibraryId) (name : String) (m : MasterId) :
    n'.catalog.Holds l name m ↔ n.catalog.Holds l name m := by
  have hheads (c : Catalog) : c.Holds l name m ↔ ∃ x y, c.head? x = some y ∧ y.library = l ∧
      y.name = name ∧ y.source = .physical m := by
    refine exists_congr fun x => ⟨?_, ?_⟩
    · rintro ⟨y, hx, hrest⟩
      obtain ⟨z, hz, rfl⟩ := Catalog.exists_of_face? hx
      exact ⟨z.head, congrArg (Option.map Cell.head) hz, hrest⟩
    · rintro ⟨y, hx, hrest⟩
      obtain ⟨z, hz, rfl⟩ := Option.map_eq_some_iff.1 hx
      exact ⟨z.face, Catalog.face?_of_find? hz, hrest⟩
  simp only [hheads, h.heads]

theorem Holds.library_eq (hm : n.catalog.Mirrors n.db) {l l' : LibraryId} {name' : String}
    (h : n.catalog.Holds l name m) (h' : n.catalog.Holds l' name' m) : l = l' := by
  obtain ⟨x, y, hx, rfl, -, hs⟩ := h
  obtain ⟨x', y', hx', rfl, -, hs'⟩ := h'
  obtain ⟨z, hz, rfl⟩ := Catalog.exists_of_face? hx
  obtain ⟨z', hz', rfl⟩ := Catalog.exists_of_face? hx'
  obtain rfl : x = x' := hm.cells (Catalog.cellLabel?_of_find? hz) (Catalog.cellLabel?_of_find? hz')
    (hs.trans hs'.symm)
  obtain rfl : z = z' := Option.some.inj (hz.symm.trans hz')
  rfl

theorem mem_timingEntries_iff (hm : n.catalog.Mirrors n.db) {library : TimingLibrary} :
    ((t, name), m) ∈ timingEntries n.catalog id library ↔
      t = id ∧ (library.cell? name).isSome = true ∧ ∃ l, n.catalog.Holds l name m := by
  rw [mem_timingEntries hm.tidy]
  refine and_congr_right fun _ => and_congr_right fun _ => ?_
  constructor
  · rintro ⟨l, lib, x, y, -, -, hx, rfl, rfl, hs⟩
    exact ⟨y.library, Catalog.holds_of_find? hx hs⟩
  · rintro ⟨l, x, y, hx, rfl, rfl, hs⟩
    obtain ⟨z, hz, rfl⟩ := Catalog.exists_of_face? hx
    have hs : z.source = .physical m := hs
    obtain ⟨a, ha, hhome⟩ := exists_library hm hz
    rw [hs] at hhome
    obtain ⟨b, -, hb⟩ := Option.map_eq_some_iff.1 hhome
    exact ⟨z.library, a, x, z, OrderedMap.mem_of_find? ha, ⟨b.lib, hb.symm⟩, hz, rfl, rfl, hs⟩

theorem holds_of_entry (hm : n.catalog.Mirrors n.db) {library : TimingLibrary}
    {e : CellId × Cell} {b : (TimingId × String) × MasterId} (he : ∃ a, e ∈ n.catalog.cellsOf a)
    (hb : (match e.2.source with
      | .physical master =>
        if (library.cell? e.2.name).isSome then some ((id, e.2.name), master) else none
      | _ => none) = some b) : n.catalog.Holds e.2.library b.1.2 b.2 := by
  obtain ⟨a, ha⟩ := he
  have hx := ((Catalog.mem_cellsOf hm.tidy).1 ha).1
  split at hb
  · next master hs =>
    split at hb
    · cases hb
      exact Catalog.holds_of_find? hx hs
    · cases hb
  · cases hb

theorem timingEntries_pairwise (hm : n.catalog.Mirrors n.db) (id : TimingId)
    (library : TimingLibrary) : (timingEntries n.catalog id library).Pairwise fun e e' =>
      ∀ l l', n.catalog.Holds l e.1.2 e.2 → n.catalog.Holds l' e'.1.2 e'.2 → l.num ≤ l'.num := by
  have hlibraries : n.catalog.libraries.entries.Pairwise fun e e' => e.1.num < e'.1.num := by
    simpa only [OrderedMap.keys, List.pairwise_map] using hm.tidy.libraries.ascending
  have hcells {es : List (LibraryId × Library)} (hes : es.Sublist n.catalog.libraries.entries) :
      (es.flatMap fun e => n.catalog.cellsOf e.1).Pairwise fun e e' =>
        e.2.library.num ≤ e'.2.library.num := by
    have hin {l : LibraryId} {e : CellId × Cell} (he : e ∈ n.catalog.cellsOf l) :
        e.2.library = l := ((Catalog.mem_cellsOf hm.tidy).1 he).2
    rw [List.pairwise_flatMap]
    refine ⟨fun e _ => ?_, (hlibraries.sublist hes).imp ?_⟩
    · refine List.pairwise_of_forall_mem_list fun a ha b hb => ?_
      rw [hin ha, hin hb]
    · intro e e' hlt a ha b hb
      rw [hin ha, hin hb]
      exact Nat.le_of_lt hlt
  refine List.pairwise_filterMap.2 ((hcells List.filter_sublist).imp_of_mem ?_)
  intro e e' he he' hle b hb b' hb' l l' hl hl'
  obtain ⟨a, -, ha⟩ := List.mem_flatMap.1 he
  obtain ⟨a', -, ha'⟩ := List.mem_flatMap.1 he'
  rw [Holds.library_eq hm hl (holds_of_entry hm ⟨_, ha⟩ hb),
    Holds.library_eq hm hl' (holds_of_entry hm ⟨_, ha'⟩ hb')]
  exact hle

theorem find?_recordTimingMasters (hm : n.catalog.Mirrors n.db) (id : TimingId) (name : String)
    {l : LibraryId} (hl : n.catalog.Holds l name m) (hname : (n.refIn? id name).isSome = true) :
    ∃ m', (n.recordTimingMasters id).catalog.timingMasters.find? (id, name) = some m' ∧
      n.catalog.LastHolder name m' := by
  obtain ⟨library, hlib, hcell⟩ := refIn?_isSome.1 hname
  have hmem (m : MasterId) : m ∈ ((timingEntries n.catalog id library).filterMap fun e =>
      if e.1 = (id, name) then some e.2 else none) ↔ ∃ l, n.catalog.Holds l name m := by
    rw [List.mem_filterMap]
    constructor
    · rintro ⟨⟨⟨t, name'⟩, m'⟩, he, hsome⟩
      split at hsome
      · next hkey =>
        cases hkey
        cases hsome
        exact ((mem_timingEntries_iff hm).1 he).2.2
      · cases hsome
    · intro hholds
      exact ⟨((id, name), m), (mem_timingEntries_iff hm).2 ⟨rfl, hcell, hholds⟩, if_pos rfl⟩
  have hsorted : ((timingEntries n.catalog id library).filterMap fun e =>
      if e.1 = (id, name) then some e.2 else none).Pairwise fun m m' =>
        ∀ l l', n.catalog.Holds l name m → n.catalog.Holds l' name m' → l.num ≤ l'.num := by
    refine List.pairwise_filterMap.2 ((timingEntries_pairwise hm id library).imp ?_)
    rintro ⟨⟨t, a⟩, m⟩ ⟨⟨t', a'⟩, m'⟩ hle b hb b' hb'
    split at hb
    · next hkey =>
      split at hb'
      · next hkey' =>
        cases hkey
        cases hkey'
        cases hb
        cases hb'
        exact hle
      · cases hb'
    · cases hb
  rw [recordTimingMasters_eq hlib]
  simp only [Catalog.recordAll, OrderedMap.find?_foldl_insert]
  generalize (timingEntries n.catalog id library).filterMap _ = ms at hmem hsorted
  obtain ⟨ms', m', rfl⟩ := (List.eq_nil_or_concat' ms).resolve_left
    (List.ne_nil_of_mem ((hmem m).2 ⟨l, hl⟩))
  refine ⟨m', by rw [List.getLast?_concat, Option.some_or], ?_⟩
  obtain ⟨l', hl'⟩ := (hmem m').1 (List.mem_append_right _ (List.mem_singleton_self m'))
  refine ⟨l', hl', fun k m'' hk => ?_⟩
  rcases List.mem_append.1 ((hmem m'').2 ⟨k, hk⟩) with hin | hin
  · exact (List.pairwise_append.1 hsorted).2.2 m'' hin m' (List.mem_singleton_self m') k l' hk hl'
  · obtain rfl := List.mem_singleton.1 hin
    rw [Holds.library_eq hm hk hl']

theorem find?_recordTimingMasters_of_not (hm : n.catalog.Mirrors n.db)
    (h : ∀ l m, t = id → (n.refIn? t name).isSome = true → ¬n.catalog.Holds l name m) :
    (n.recordTimingMasters id).catalog.timingMasters.find? (t, name) =
      n.catalog.timingMasters.find? (t, name) := by
  cases hl : n.timingLibrary? id with
  | none => rw [recordTimingMasters_of_none hl]
  | some library =>
    rw [recordTimingMasters_eq hl]
    refine OrderedMap.find?_foldl_insert_of_not fun hin => ?_
    obtain ⟨⟨k, m⟩, he, rfl⟩ := List.mem_map.1 hin
    obtain ⟨rfl, hcell, l, hholds⟩ := (mem_timingEntries_iff hm).1 he
    exact h l m rfl (refIn?_isSome.2 ⟨library, hl, hcell⟩) hholds

theorem RecordedAt.record (hm : n.catalog.Mirrors n.db) (hu : n.catalog.Unambiguous)
    (hother : t ≠ id → n.RecordedAt t)
    (hright : ∀ name m, n.catalog.timingMasters.find? (t, name) = some m →
      (n.refIn? t name).isSome = true ∧ n.catalog.LastHolder name m) :
    (n.recordTimingMasters id).RecordedAt t := by
  have r := Arranges.recordTimingMasters n id
  intro name m
  rw [refIn?_congr r.only.timing, Catalog.lastHolder_congr (r.holds · name)]
  by_cases hwritten : t = id ∧ (n.refIn? t name).isSome = true ∧ ∃ l m, n.catalog.Holds l name m
  · obtain ⟨rfl, hname, l, m', hl⟩ := hwritten
    obtain ⟨m', hfind, hlast⟩ := find?_recordTimingMasters hm t name hl hname
    rw [hfind, Option.some.injEq]
    constructor
    · rintro rfl
      exact ⟨hname, hlast⟩
    · intro h
      exact hlast.unique hu h.2
  · rw [find?_recordTimingMasters_of_not hm fun l m ht hname hl => hwritten ⟨ht, hname, l, m, hl⟩]
    by_cases ht : t = id
    · refine ⟨hright name m, fun ⟨hname, l, hl, _⟩ => ?_⟩
      exact absurd ⟨ht, hname, l, m, hl⟩ hwritten
    · exact hother ht name m

theorem Recorded.record (h : n.Recorded) (hm : n.catalog.Mirrors n.db)
    (hu : n.catalog.Unambiguous) (id : TimingId) : (n.recordTimingMasters id).Recorded :=
  fun t => .record hm hu (fun _ => h t) fun name m => (h t name m).1

theorem recorded_relinkTiming (hm : n.catalog.Mirrors n.db) (hdb : n.db.WellFormed)
    (hn : n.catalog.Stocked n.db) (hother : ∀ t, t ≠ id → n.RecordedAt t)
    (hright : ∀ name m, n.catalog.timingMasters.find? (id, name) = some m →
      (n.refIn? id name).isSome = true ∧ n.catalog.LastHolder name m) :
    (n.relinkTiming id).Recorded := by
  have htiming : (n.relinkTiming id).timing = n.timing := (Arranges.relinkTiming n id).only.timing
  cases hl : n.timingLibrary? id with
  | none =>
    intro t name m
    rw [refIn?_congr htiming, relinkTiming_of_none hl]
    by_cases ht : t = id
    · refine ⟨ht ▸ hright name m, fun ⟨hname, _⟩ => ?_⟩
      obtain ⟨library, hl', -⟩ := refIn?_isSome.1 hname
      cases hl.symm.trans (ht ▸ hl')
    · exact hother t ht name m
  | some library =>
    obtain ⟨m, r, g, hmasters, hcatalog⟩ := timingMasters_relinkTiming hl
    have hdbm : m.db = n.db := r.only.db
    have hmm : m.catalog.Mirrors m.db := hdbm ▸ (g.rebuilds (s := .design) hm).mirrors
    have hum : m.catalog.Unambiguous := unambiguous hmm (hdbm ▸ hdb) (hdbm ▸ r.stocked hn)
    have hmiff (t : TimingId) (name : String) (k : MasterId) :
        (m.refIn? t name).isSome = true ∧ m.catalog.LastHolder name k ↔
          (n.refIn? t name).isSome = true ∧ n.catalog.LastHolder name k := by
      rw [refIn?_congr r.only.timing, Catalog.lastHolder_congr (r.holds · name)]
    have hrecorded : (m.recordTimingMasters id).Recorded := by
      refine fun t => .record hmm hum (fun ht name k => ?_) fun name k hk => ?_
      · rw [hmasters, hmiff]
        exact hother t ht name k
      · rw [hmasters] at hk
        rw [hmiff]
        by_cases ht : t = id
        · exact ht ▸ hright name k (ht ▸ hk)
        · exact (hother t ht name k).1 hk
    intro t name k
    rw [hcatalog, refIn?_congr htiming]
    have hsame : (m.recordTimingMasters id).timing = n.timing :=
      ((Arranges.recordTimingMasters m id).only.timing).trans r.only.timing
    rw [hrecorded t name k, refIn?_congr hsame]

theorem Recorded.relinkTiming (h : n.Recorded) (hm : n.catalog.Mirrors n.db)
    (hdb : n.db.WellFormed) (hn : n.catalog.Stocked n.db) (id : TimingId) :
    (n.relinkTiming id).Recorded :=
  recorded_relinkTiming hm hdb hn (fun t _ => h t) fun name m => (h id name m).1

theorem Recorded.loadTiming (h : n.Recorded) (hm : n.catalog.Mirrors n.db)
    (hdb : n.db.WellFormed) (hn : n.catalog.Stocked n.db) (library : TimingLibrary) :
    (n.loadTiming library).2.Recorded := by
  refine recorded_relinkTiming (n := { n with timing := n.timing ++ [library] }) hm hdb hn
    (fun t ht name m => ?_) fun name m hfind => ?_
  · rw [refIn?_addTiming library ht]
    exact h t name m
  · -- Nothing was recorded for a library that was not there.
    obtain ⟨l, hl, -⟩ := refIn?_isSome.1 ((h _ name m).1 hfind).1
    have hnone : n.timingLibrary? ⟨n.timing.length⟩ = none := List.getElem?_eq_none (Nat.le_refl _)
    cases hnone.symm.trans hl

theorem mem_masterEntries {master : MasterId} {a : String} :
    ((t, name), m) ∈ n.masterEntries master a ↔
      m = master ∧ name = a ∧ (n.refIn? t a).isSome = true := by
  simp only [masterEntries, List.mem_map, List.mem_filter, Prod.exists, mem_timingLibraries,
    refIn?_isSome]
  constructor
  · rintro ⟨t', library, ⟨hl, hcell⟩, e⟩
    cases e
    exact ⟨rfl, rfl, library, hl, hcell⟩
  · rintro ⟨rfl, rfl, library, hl, hcell⟩
    exact ⟨t, library, ⟨hl, hcell⟩, rfl⟩

theorem find?_loadMaster (n : Network) (library : LibraryId) (id : MasterId) (a : Master)
    (t : TimingId) (name : String) :
    (n.loadMaster library id a).catalog.timingMasters.find? (t, name) =
      if a.name = name ∧ (n.refIn? t name).isSome = true then some id
      else n.catalog.timingMasters.find? (t, name) := by
  rw [(catalog_loadMaster n library id a).2]
  split
  · next h =>
    obtain ⟨rfl, hname⟩ := h
    refine OrderedMap.find?_foldl_insert_of_mem ?_ (mem_masterEntries.2 ⟨rfl, rfl, hname⟩)
    rintro ⟨⟨t, b⟩, m⟩ he ⟨⟨t', b'⟩, m'⟩ he' -
    exact (mem_masterEntries.1 he).1.trans (mem_masterEntries.1 he').1.symm
  · next h =>
    refine OrderedMap.find?_foldl_insert_of_not fun hin => h ?_
    obtain ⟨⟨k, m⟩, he, rfl⟩ := List.mem_map.1 hin
    obtain ⟨-, rfl, hname⟩ := mem_masterEntries.1 he
    exact ⟨rfl, hname⟩

theorem holds_loadMaster (ht : n.catalog.Tidy) (library : LibraryId) (id : MasterId) (a : Master)
    (l : LibraryId) (name : String) (m : MasterId) :
    (n.loadMaster library id a).catalog.Holds l name m ↔
      n.catalog.Holds l name m ∨ l = library ∧ a.name = name ∧ m = id := by
  have hface := (catalog_loadMaster n library id a).1
  have hfresh : n.catalog.face? ⟨n.catalog.count + 1⟩ = none := by
    rw [Catalog.face?, ht.cells.find?_fresh rfl, Option.map_none]
  constructor
  · rintro ⟨x, y, hx, rfl, rfl, hs⟩
    rw [hface] at hx
    split at hx
    · cases hx
      exact .inr ⟨rfl, rfl, (CellSource.physical.inj hs).symm⟩
    · exact .inl ⟨x, y, hx, rfl, rfl, hs⟩
  · rintro (⟨x, y, hx, rfl, rfl, hs⟩ | ⟨rfl, rfl, rfl⟩)
    · refine ⟨x, y, ?_, rfl, rfl, hs⟩
      rw [hface, if_neg, hx]
      rintro rfl
      cases hfresh.symm.trans hx
    · exact ⟨_, _, (hface _).trans (if_pos rfl), rfl, rfl, rfl⟩

theorem tidy_loadMaster (ht : n.catalog.Tidy) (library : LibraryId) (id : MasterId) (a : Master) :
    (n.loadMaster library id a).catalog.Tidy := by
  obtain ⟨m, hm, hload⟩ := loadMaster_eq n library id a
  have hgroup := Regroups.groupCell { n with
    catalog := n.catalog.buildCell library a.name (.physical id) (masterPorts n.db id) }
      ⟨n.catalog.count + 1⟩ a.name
  have hrecord := hgroup.trans (.recordMaster _ id a.name)
  rw [← hm] at hrecord
  rw [hload]
  exact ((hrecord.trans (.linkFirst ..)).catalog (ht.buildCell ..)).tidy

def writtenFor (n : Network) (es : List (MasterId × Master)) (t : TimingId) (name : String) :
    List MasterId :=
  es.filterMap fun e =>
    if e.2.name = name ∧ (n.refIn? t name).isSome = true then some e.1 else none

theorem loadMasters_table (ht : n.catalog.Tidy) (library : LibraryId)
    (es : List (MasterId × Master)) :
    ∃ n', n' = es.foldl (fun n e => n.loadMaster library e.1 e.2) n ∧
      (∀ l name m, n'.catalog.Holds l name m ↔
        n.catalog.Holds l name m ∨ l = library ∧ ∃ a, (m, a) ∈ es ∧ a.name = name) ∧
      ∀ t name, n'.catalog.timingMasters.find? (t, name) =
        (n.writtenFor es t name).getLast?.or (n.catalog.timingMasters.find? (t, name)) := by
  refine ⟨_, rfl, ?_⟩
  induction es generalizing n with
  | nil => simp [writtenFor]
  | cons e es ih =>
    have htiming : (n.loadMaster library e.1 e.2).timing = n.timing := (Loads.loadMaster ..).timing
    obtain ⟨hholds, htable⟩ := ih (tidy_loadMaster ht library e.1 e.2)
    rw [List.foldl_cons]
    refine ⟨fun l name m => ?_, fun t name => ?_⟩
    · rw [hholds, holds_loadMaster ht]
      constructor
      · rintro ((h | ⟨rfl, rfl, rfl⟩) | ⟨rfl, a, ha, hname⟩)
        · exact .inl h
        · exact .inr ⟨rfl, e.2, List.mem_cons_self, rfl⟩
        · exact .inr ⟨rfl, a, List.mem_cons_of_mem e ha, hname⟩
      · rintro (h | ⟨rfl, a, ha, hname⟩)
        · exact .inl (.inl h)
        · rcases List.mem_cons.1 ha with rfl | ha
          · exact .inl (.inr ⟨rfl, hname, rfl⟩)
          · exact .inr ⟨rfl, a, ha, hname⟩
    · rw [htable, find?_loadMaster, writtenFor, writtenFor, List.filterMap_cons]
      simp only [refIn?_congr htiming]
      by_cases he : e.2.name = name ∧ (n.refIn? t name).isSome = true
      · rw [if_pos he, if_pos he, List.getLast?_cons]
        cases (es.filterMap fun e => if e.2.name = name ∧ (n.refIn? t name).isSome = true
          then some e.1 else none).getLast? with
        | none => rfl
        | some m => rfl
      · rw [if_neg he, if_neg he]

theorem Holds.le {c : Catalog} (ht : c.Tidy) (hc : Housed c) {l : LibraryId}
    (h : c.Holds l name m) : l.num ≤ c.count := by
  obtain ⟨x, y, hx, rfl, -, -⟩ := h
  exact ht.libraries.le _ (OrderedMap.mem_keys_iff.2 (hc hx))

theorem holds_without (hm : n.catalog.Mirrors n.db) (s : LibrarySource) (l : LibraryId)
    (name : String) (m : MasterId) : (n.catalog.without s).Holds l name m ↔
      n.catalog.Holds l name m ∧ n.db.home? (.physical m) ≠ some s := by
  constructor
  · rintro ⟨x, y, hx, hl, hname, hs⟩
    rw [hm.face?_without, Option.filter_eq_some_iff] at hx
    exact ⟨⟨x, y, hx.1, hl, hname, hs⟩, hs ▸ of_decide_eq_true hx.2⟩
  · rintro ⟨⟨x, y, hx, hl, hname, hs⟩, hhome⟩
    refine ⟨x, y, ?_, hl, hname, hs⟩
    rw [hm.face?_without, Option.filter_eq_some_iff]
    exact ⟨hx, decide_eq_true (hs ▸ hhome)⟩

theorem exists_master_of_holds (hdb : n.db.WellFormed) (hn : n.catalog.Stocked n.db)
    {id : LibId} {l : LibraryId} (h : n.catalog.Holds l name m)
    (hhome : n.db.home? (.physical m) = some (.physical id)) :
    ∃ a, (m, a) ∈ n.db.mastersOf id ∧ a.name = name := by
  obtain ⟨a, ha, hlib⟩ := Option.map_eq_some_iff.1 hhome
  obtain ⟨x, y, hx, -, rfl, hs⟩ := h
  obtain ⟨z, hz, rfl⟩ := Catalog.exists_of_face? hx
  have hs : z.source = .physical m := hs
  have hnamed : n.db.nameOf? (.physical m) = some z.name := hs ▸ hn.named hz
  rw [Database.nameOf?_physical ha] at hnamed
  refine ⟨a, ?_, Option.some.inj hnamed⟩
  exact hdb.masters.mem_select.2 ⟨ha, decide_eq_true (LibrarySource.physical.inj hlib)⟩

theorem loadLibrary_holds (hm : n.catalog.Mirrors n.db) {id : LibId} {r : LibraryId}
    (e : n.loadLibrary id = .ok (r, n')) (l : LibraryId) (name : String) (m : MasterId) :
    n'.catalog.Holds l name m ↔
      n.catalog.Holds l name m ∧ n.db.home? (.physical m) ≠ some (.physical id) ∨
        l = r ∧ ∃ a, (m, a) ∈ n.db.mastersOf id ∧ a.name = name := by
  have hout : (n.catalog.without (.physical id)).Mirrors n.db := (hm.without _).1.mirrors
  obtain ⟨lib, n₁, -, rfl, hn₁, rfl⟩ := loadLibrary_eq_ok e
  obtain ⟨_, rfl, hholds, -⟩ := loadMasters_table (n := { n with
    catalog := ((n.catalog.without (.physical id)).addLibrary lib.name (.physical id)).2 })
    (hout.tidy.addLibrary ..) ⟨(n.catalog.without (.physical id)).count + 1⟩ (n.db.mastersOf id)
  rw [← hn₁] at hholds
  exact (hholds l name m).trans (or_congr_left (holds_without hm _ l name m))

theorem loadLibrary_find? (hm : n.catalog.Mirrors n.db) (hn : n.catalog.Stocked n.db) {id : LibId}
    {r : LibraryId} (e : n.loadLibrary id = .ok (r, n')) (t : TimingId) (name : String) :
    n'.catalog.timingMasters.find? (t, name) =
      (n.writtenFor (n.db.mastersOf id) t name).getLast?.or
        ((n.catalog.timingMasters.find? (t, name)).filter fun m =>
          n.db.home? (.physical m) ≠ some (.physical id)) := by
  have hout : (n.catalog.without (.physical id)).Mirrors n.db := (hm.without _).1.mirrors
  obtain ⟨lib, n₁, -, rfl, hn₁, rfl⟩ := loadLibrary_eq_ok e
  obtain ⟨_, rfl, -, htable⟩ := loadMasters_table (n := { n with
    catalog := ((n.catalog.without (.physical id)).addLibrary lib.name (.physical id)).2 })
    (hout.tidy.addLibrary ..) ⟨(n.catalog.without (.physical id)).count + 1⟩ (n.db.mastersOf id)
  rw [← hn₁] at htable
  exact (htable t name).trans (congrArg _ (hm.timingMasters_without hn.intact _ _))

theorem mem_writtenFor {es : List (MasterId × Master)} : m ∈ n.writtenFor es t name ↔
    (n.refIn? t name).isSome = true ∧ ∃ a, (m, a) ∈ es ∧ a.name = name := by
  rw [writtenFor, List.mem_filterMap]
  constructor
  · rintro ⟨⟨m', a⟩, ha, hsome⟩
    split at hsome
    · next hname =>
      cases hsome
      exact ⟨hname.2, a, ha, hname.1⟩
    · cases hsome
  · rintro ⟨hcell, a, ha, hname⟩
    exact ⟨(m, a), ha, if_pos ⟨hname, hcell⟩⟩

theorem loadLibrary_lastHolder (hm : n.catalog.Mirrors n.db) {id : LibId} {r : LibraryId}
    (e : n.loadLibrary id = .ok (r, n')) {a : Master} (ha : (m, a) ∈ n.db.mastersOf id)
    (hname : a.name = name) : n'.catalog.LastHolder name m := by
  have hout : (n.catalog.without (.physical id)).Mirrors n.db := (hm.without _).1.mirrors
  have hhoused : Housed (n.catalog.without (.physical id)) :=
    housed (n := { n with catalog := n.catalog.without (.physical id) }) hout
  have hholds := loadLibrary_holds hm e
  obtain ⟨lib, -, -, rfl, -⟩ := loadLibrary_eq_ok e
  refine ⟨_, (hholds _ name m).2 (.inr ⟨rfl, a, ha, hname⟩), fun l' m' hl' => ?_⟩
  rcases (hholds l' name m').1 hl' with hold | ⟨rfl, -⟩
  · exact Nat.le_succ_of_le (Holds.le hout.tidy hhoused ((holds_without hm _ l' name m').2 hold))
  · exact Nat.le_refl _

theorem Recorded.loadLibrary (h : n.Recorded) (hm : n.catalog.Mirrors n.db)
    (hdb : n.db.WellFormed) (hn : n.catalog.Stocked n.db) {id : LibId} {r : LibraryId}
    (e : n.loadLibrary id = .ok (r, n')) : n'.Recorded := by
  have hu : n'.catalog.Unambiguous := by
    obtain ⟨-, hdb', hr, -⟩ := rebuilds_loadLibrary hm hdb e
    obtain ⟨-, hstocked, -⟩ := stocked_loadLibrary hm hdb hn e
    exact unambiguous (hdb' ▸ hr.mirrors) (hdb' ▸ hdb) (hdb' ▸ hstocked)
  intro t name m
  rw [refIn?_congr (Loads.loadLibrary e).1.timing, loadLibrary_find? hm hn e]
  have hwritten (k : MasterId) := @mem_writtenFor n t name k (n.db.mastersOf id)
  generalize n.writtenFor (n.db.mastersOf id) t name = ks at hwritten
  by_cases hnew : ∃ k a, (k, a) ∈ n.db.mastersOf id ∧ a.name = name
  · obtain ⟨k, a, ha, hname⟩ := hnew
    have hlast : n'.catalog.LastHolder name k := loadLibrary_lastHolder hm e ha hname
    by_cases hcell : (n.refIn? t name).isSome = true
    · have hks : ks ≠ [] := List.ne_nil_of_mem ((hwritten k).2 ⟨hcell, a, ha, hname⟩)
      obtain ⟨-, a', ha', hname'⟩ := (hwritten _).1 (List.getLast_mem hks)
      have hlast' := loadLibrary_lastHolder hm e ha' hname'
      rw [List.getLast?_eq_some_getLast hks, Option.some_or, Option.some.injEq,
        and_iff_right hcell]
      constructor
      · rintro rfl
        exact hlast'
      · exact hlast'.unique hu
    · have hks : ks = [] :=
        List.eq_nil_iff_forall_not_mem.2 fun k' hk' => hcell ((hwritten k').1 hk').1
      rw [hks, List.getLast?_nil, Option.none_or, Option.filter_eq_some_iff]
      exact ⟨fun hfind => absurd ((h t name m).1 hfind.1).1 hcell, fun h => absurd h.1 hcell⟩
  · -- Neither the old library nor the new one holds the name.
    have hks : ks = [] := by
      refine List.eq_nil_iff_forall_not_mem.2 fun k' hk' => hnew ?_
      obtain ⟨-, a, ha, hname⟩ := (hwritten k').1 hk'
      exact ⟨k', a, ha, hname⟩
    have hhome {l : LibraryId} {k : MasterId} (hk : n.catalog.Holds l name k) :
        n.db.home? (.physical k) ≠ some (.physical id) := by
      intro e
      obtain ⟨a, ha, hname⟩ := exists_master_of_holds hdb hn hk e
      exact hnew ⟨k, a, ha, hname⟩
    have hsame (l : LibraryId) (k : MasterId) :
        n'.catalog.Holds l name k ↔ n.catalog.Holds l name k := by
      rw [loadLibrary_holds hm e, or_iff_left, and_iff_left_of_imp hhome]
      rintro ⟨-, a, ha, hname⟩
      exact hnew ⟨k, a, ha, hname⟩
    rw [hks, List.getLast?_nil, Option.none_or, Catalog.lastHolder_congr hsame, ← h t name m,
      Option.filter_eq_some_iff, and_iff_left_iff_imp]
    intro hfind
    obtain ⟨-, l, hl, -⟩ := (h t name m).1 hfind
    exact decide_eq_true (hhome hl)

theorem recorded_of_empty (hc : n.catalog = {}) : n.Recorded := by
  intro t name m
  rw [hc]
  refine ⟨fun h => (by cases h), ?_⟩
  rintro ⟨-, l, ⟨x, y, hx, -⟩, -⟩
  cases hx

theorem recorded_of_loadDatabase {db : Database} (hdb : db.WellFormed)
    (e : n.loadDatabase db = .ok n') : n'.Recorded := by
  have hrun := loadDatabase_induct (motive := Recorded) hdb (recorded_of_empty rfl)
    (fun m _ _ _ hm h e' => by
      obtain rfl : m.db = db := hm.only.db
      exact h.loadLibrary hm.mirrors hdb hm.stocked e')
    (fun m id hm h => by
      obtain rfl : m.db = db := hm.only.db
      exact h.record hm.mirrors (unambiguous hm.mirrors hdb hm.stocked) id) e
  obtain ⟨m, hm, h, hdesign⟩ := hrun
  obtain rfl : m.db = db := hm.only.db
  rcases hdesign with ⟨-, e⟩ | ⟨-, rfl⟩
  · exact h.of_leaves (.loadDesign hm.mirrors hdb hm.stocked e) (timing_loadDesign e)
  · exact h

theorem Load.recorded (s : n.Load n') (hdb : n.db.WellFormed) (hm : n.catalog.Mirrors n.db)
    (hn : n.catalog.Stocked n.db) (h : n.Recorded) : n'.Recorded := by
  have hdesign {n' : Network} (e : n.loadDesign = .ok n') : n'.Recorded :=
    h.of_leaves (.loadDesign hm hdb hn e) (timing_loadDesign e)
  cases s with
  | loadDatabase hdb' e => exact recorded_of_loadDatabase hdb'.wellFormed e
  | loadLibrary e => exact h.loadLibrary hm hdb hn e
  | loadTiming library => exact h.loadTiming hm hdb hn library
  | relinkTiming id => exact h.relinkTiming hm hdb hn id
  | loadDesign e => exact hdesign e
  | reload e =>
    rcases reload_eq_ok e with e | rfl
    · exact hdesign e
    · exact h
  | teardown => exact recorded_of_empty rfl

theorem Reachable.linked_recorded (h : n.Reachable) : n.Linked ∧ n.Recorded := by
  induction h using Reachable.induct with
  | new => exact ⟨fun x y hx => (by cases hx), recorded_of_empty rfl⟩
  | step hbefore s ih =>
    have hstored := hbefore.stored
    have hdb := hbefore.current.sound.db
    have hm := hbefore.shown.mirrors
    rcases s.load_or_sameLeaves hstored with s | ⟨hleaves, htiming⟩
    · exact ⟨s.linked hdb hm hstored.stocked ih.1, s.recorded hdb hm hstored.stocked ih.2⟩
    · exact ⟨ih.1.of_leaves hleaves htiming, ih.2.of_leaves hleaves htiming⟩

/-- Cells are linked to the first timing library that has their name, and the table of timing
masters goes by the last physical library that has it. -/
structure FirstLinked (n : Network) : Prop where
  linked : ∀ ⦃x y m⦄, n.catalog.cells.find? x = some y → y.source = .physical m → ∀ ref,
    y.timing = some ref ↔ n.refIn? ref.library y.name = some ref ∧
      ∀ t, t.index < ref.library.index → n.refIn? t y.name = none
  unlinked : ∀ ⦃x y m⦄, n.catalog.cells.find? x = some y → y.source = .physical m →
    (y.timing = none ↔ ∀ t, n.refIn? t y.name = none)
  masters : ∀ t name m, n.catalog.timingMaster? t name = some m ↔
    (n.refIn? t name).isSome = true ∧ ∃ before l after,
      n.catalog.libraries.keys = before ++ l :: after ∧ n.catalog.Holds l name m ∧
        ∀ l' ∈ after, ∀ m', ¬n.catalog.Holds l' name m'

theorem refIn?_library {ref : TimingCellRef} (h : n.refIn? t name = some ref) :
    ref.library = t := by
  obtain ⟨library, -, h⟩ := Option.bind_eq_some_iff.1 h
  obtain ⟨cell, -, rfl⟩ := Option.map_eq_some_iff.1 h
  rfl

theorem firstRef?_least {ref : TimingCellRef} (h : n.firstRef? name = some ref) :
    n.refIn? ref.library name = some ref ∧
      ∀ t, t.index < ref.library.index → n.refIn? t name = none := by
  obtain ⟨before, id, after, hids, href, hbefore⟩ := List.findSome?_eq_some_iff.1 h
  obtain rfl : ref.library = id := refIn?_library href
  refine ⟨href, fun t ht => ?_⟩
  have hsorted : (n.timingLibraries.map (·.1)).Pairwise fun a b => a.index < b.index := by
    have hindices : (n.timingLibraries.map (·.1)).map TimingId.index =
        List.range' 0 n.timing.length := by
      rw [← List.zipIdx_map_snd 0 n.timing, timingLibraries, List.map_map, List.map_map]
      rfl
    refine List.pairwise_map.1 (hindices ▸ ?_)
    exact List.pairwise_lt_range'
  cases hl : n.timingLibrary? t with
  | none => rw [refIn?, hl, Option.bind_none]
  | some library =>
    have hmem : t ∈ before ++ ref.library :: after := hids ▸ mem_timingIds.2 ⟨library, hl⟩
    rw [hids, List.pairwise_append, List.pairwise_cons] at hsorted
    rcases List.mem_append.1 hmem with hin | hin
    · exact hbefore t hin
    · rcases List.mem_cons.1 hin with rfl | hin
      · exact absurd ht (Nat.lt_irrefl _)
      · exact absurd ht (Nat.lt_asymm (hsorted.2.1.1 t hin))

theorem firstRef?_eq_some_iff {ref : TimingCellRef} : n.firstRef? name = some ref ↔
    n.refIn? ref.library name = some ref ∧
      ∀ t, t.index < ref.library.index → n.refIn? t name = none := by
  refine ⟨firstRef?_least, fun ⟨href, hleast⟩ => ?_⟩
  cases hfirst : n.firstRef? name with
  | none => cases (refIn?_eq_none_of_firstRef? hfirst ref.library).symm.trans href
  | some ref' =>
    obtain ⟨href', hleast'⟩ := firstRef?_least hfirst
    have hsame : ref'.library = ref.library := by
      have hindex : ref'.library.index = ref.library.index := by
        rcases Nat.lt_trichotomy ref'.library.index ref.library.index with hlt | heq | hgt
        · cases (hleast _ hlt).symm.trans href'
        · exact heq
        · cases (hleast' _ hgt).symm.trans href
      exact congrArg TimingId.mk hindex
    exact href'.symm.trans (hsame ▸ href)

theorem firstRef?_eq_none_iff : n.firstRef? name = none ↔ ∀ t, n.refIn? t name = none := by
  refine ⟨refIn?_eq_none_of_firstRef?, fun h => ?_⟩
  exact List.findSome?_eq_none_iff.2 fun t _ => h t

theorem lastHolder_iff (hm : n.catalog.Mirrors n.db) : n.catalog.LastHolder name m ↔
    ∃ before l after, n.catalog.libraries.keys = before ++ l :: after ∧
      n.catalog.Holds l name m ∧ ∀ l' ∈ after, ∀ m', ¬n.catalog.Holds l' name m' := by
  have hsorted : n.catalog.libraries.keys.Pairwise fun a b => a.num < b.num :=
    List.pairwise_map.1 hm.tidy.libraries.ascending
  have hin {l : LibraryId} {m : MasterId} (h : n.catalog.Holds l name m) :
      l ∈ n.catalog.libraries.keys := by
    obtain ⟨x, y, hx, rfl, -⟩ := h
    exact OrderedMap.mem_keys_iff.2 (housed hm hx)
  constructor
  · rintro ⟨l, hl, hlast⟩
    obtain ⟨before, after, hkeys⟩ := List.append_of_mem (hin hl)
    refine ⟨before, l, after, hkeys, hl, fun l' hl' m' hholds => ?_⟩
    rw [hkeys, List.pairwise_append, List.pairwise_cons] at hsorted
    exact absurd (hlast l' m' hholds) (Nat.not_le_of_lt (hsorted.2.1.1 l' hl'))
  · rintro ⟨before, l, after, hkeys, hl, hafter⟩
    refine ⟨l, hl, fun l' m' hholds => ?_⟩
    rw [hkeys, List.pairwise_append] at hsorted
    rcases List.mem_append.1 (hkeys ▸ hin hholds) with hbefore | hrest
    · exact Nat.le_of_lt (hsorted.2.2 l' hbefore l List.mem_cons_self)
    · rcases List.mem_cons.1 hrest with rfl | hrest
      · exact Nat.le_refl _
      · exact absurd hholds (hafter l' hrest m')

theorem Reachable.firstLinked (h : n.Reachable) : n.FirstLinked := by
  obtain ⟨hlinked, hrecorded⟩ := h.linked_recorded
  have htiming {x : CellId} {y : Cell} {m : MasterId} (hx : n.catalog.cells.find? x = some y)
      (hs : y.source = .physical m) : y.timing = n.firstRef? y.name := by
    refine hlinked (y := y.face) (Catalog.face?_of_find? hx) ?_
    simp [Cell.isLeaf, Cell.face, hs]
  refine ⟨fun x y m hx hs ref => ?_, fun x y m hx hs => ?_, fun t name m => ?_⟩
  · rw [htiming hx hs, firstRef?_eq_some_iff]
  · rw [htiming hx hs, firstRef?_eq_none_iff]
  · exact (hrecorded t name m).trans (and_congr_right fun _ => lastHolder_iff h.shown.mirrors)

/-- Two physical libraries have a buffer, and so have the second and the third timing library, which
come late. When the first library is built anew it comes last, and its master takes over. -/
theorem firstLinked_rebuilt : ∃ n, Reachable n ∧ n.FirstLinked ∧
    n.catalog.libraries.keys = [⟨3⟩, ⟨5⟩] ∧
    n.catalog.cells.entries.map (fun e => (e.2.library, e.2.name, e.2.timing)) =
      [(⟨3⟩, "BUF", some ⟨⟨1⟩, "BUF"⟩), (⟨5⟩, "BUF", some ⟨⟨1⟩, "BUF"⟩)] ∧
    n.catalog.timingMaster? ⟨0⟩ "BUF" = none ∧ n.catalog.timingMaster? ⟨2⟩ "BUF" = some ⟨1⟩ := by
  have hrun : ∃ db, Database.Reachable db ∧ (do
      let buffer : TimingCell := { name := "BUF" }
      let n := ((Network.new .flat).loadTiming { name := "empty" }).2
      let n ← n.loadDatabase db
      let n := (n.loadTiming { name := "slow", cells := ⟨[("BUF", buffer)]⟩ }).2
      let n := (n.loadTiming { name := "fast", cells := ⟨[("BUF", buffer)]⟩ }).2
      let (_, n) ← n.loadLibrary ⟨1⟩
      return (n.catalog.libraries.keys,
        n.catalog.cells.entries.map (fun e => (e.2.library, e.2.name, e.2.timing)),
        n.catalog.timingMaster? ⟨0⟩ "BUF", n.catalog.timingMaster? ⟨2⟩ "BUF")) =
        (.ok ([⟨3⟩, ⟨5⟩],
          [(⟨3⟩, "BUF", some ⟨⟨1⟩, "BUF"⟩), (⟨5⟩, "BUF", some ⟨⟨1⟩, "BUF"⟩)], none, some ⟨1⟩) :
          Except Fault (List LibraryId × List (LibraryId × String × Option TimingCellRef) ×
            Option MasterId × Option MasterId)) := by
    refine ⟨_, Relation.ReflTransGen.refl
      |>.tail (@Database.Step.createLib _ "one" _ _ rfl)
      |>.tail (@Database.Step.createMaster _ ⟨1⟩ "BUF" _ _ rfl)
      |>.tail (@Database.Step.createLib _ "two" _ _ rfl)
      |>.tail (@Database.Step.createMaster _ ⟨2⟩ "BUF" _ _ rfl), ?_⟩
    cbv
  obtain ⟨db, hdb, hrun⟩ := hrun
  obtain ⟨n₁, e₁, hrun⟩ := bind_eq_ok.1 hrun
  obtain ⟨⟨r, n⟩, e₂, hrun⟩ := bind_eq_ok.1 hrun
  have h : Reachable n := ⟨_, Relation.ReflTransGen.refl
    |>.tail (.load (.loadTiming _))
    |>.tail (.load (.loadDatabase hdb e₁))
    |>.tail (.load (.loadTiming _))
    |>.tail (.load (.loadTiming _))
    |>.tail (.load (.loadLibrary e₂))⟩
  have hseen := pure_eq_ok.1 hrun
  simp only [Prod.mk.injEq] at hseen
  exact ⟨n, h, h.firstLinked, hseen⟩

end Network
end DesignView
