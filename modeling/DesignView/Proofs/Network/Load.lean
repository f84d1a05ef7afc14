import DesignView.Network.Load
import DesignView.Proofs.Network.Current

/-!
Loading leaves a current network. Everything that is loaded is added to the catalog; the kept
drivers are forgotten, unless nothing was linked anew; and the boundary terminals of the modules are
indexed when the design is loaded.
-/

namespace DesignView.Network

variable {n n' n'' : Network} {d : Design}

structure Loads (n n' : Network) : Prop where
  db : n'.db = n.db
  timing : n'.timing = n.timing
  catalog : n.catalog.Built n.timing.length n'.catalog
  drivers : n.drivers = {} → n'.drivers = {}

namespace Loads

theorem refl : n.Loads n := ⟨rfl, rfl, .refl, id⟩

theorem trans (h : n.Loads n') (h' : n'.Loads n'') : n.Loads n'' :=
  ⟨h'.db.trans h.db, h'.timing.trans h.timing, h.catalog.trans (h.timing ▸ h'.catalog),
    fun hn => h'.drivers (h.drivers hn)⟩

theorem foldl {ε : Type} {step : Network → ε → Network}
    (hstep : ∀ (n : Network) (e : ε), n.Loads (step n e)) (es : List ε) (n : Network) :
    n.Loads (es.foldl step n) := by
  induction es generalizing n with
  | nil => exact refl
  | cons e es ih => exact (hstep n e).trans (ih (step n e))

theorem sound (h : n.Loads n') (hs : n.Sound) : n'.Sound := by
  refine ⟨h.db ▸ hs.db, h.timing ▸ h.catalog.numbered hs.ports,
    h.catalog.boundaries ▸ hs.boundaryKeys, fun d hd m name => ?_⟩
  rw [design?, h.db] at hd
  rw [Catalog.boundary?, h.catalog.boundaries]
  exact hs.boundaries hd m name

theorem setCatalog {c : Catalog} (h : n.catalog.Built n.timing.length c) :
    n.Loads { n with catalog := c } := ⟨rfl, rfl, h, id⟩

theorem reportAll (n : Network) (causes : List Mismatch) : n.Loads (n.reportAll causes) := by
  have hstep (n : Network) (cause : Mismatch) : n.Loads (n.report cause) := ⟨rfl, rfl, .refl, id⟩
  exact foldl hstep causes n

theorem forgetDrivers (n : Network) : n.Loads n.forgetDrivers := ⟨rfl, rfl, .refl, fun _ => rfl⟩

theorem notify (n : Network) (event : LoadEvent) : n.Loads (n.notify event) :=
  ⟨rfl, rfl, .refl, id⟩

theorem groupCell (n : Network) (cell : CellId) (name : String) :
    n.Loads (n.groupCell cell name) := by
  exact trans (setCatalog (.groupBuses n.catalog cell fun bus => n.msbFirst bus name))
    (reportAll _ _)

theorem groupCells (n : Network) (cells : List (CellId × String)) :
    n.Loads (cells.foldl (fun n e => n.groupCell e.1 e.2) n) := by
  refine foldl (fun n e => ?_) cells n
  exact groupCell n e.1 e.2

theorem linkCell? {cell : CellId} {id : TimingId} (e : n.linkCell? cell id = some n') :
    n.Loads n' := by
  obtain ⟨library, hl, e⟩ := Option.bind_eq_some_iff.1 e
  obtain ⟨x, -, e⟩ := Option.bind_eq_some_iff.1 e
  obtain ⟨timing, -, e⟩ := Option.bind_eq_some_iff.1 e
  cases e
  obtain ⟨hlt, -⟩ := List.getElem?_eq_some_iff.1 hl
  exact (setCatalog (.link n.catalog cell hlt library.name timing)).trans (reportAll ..)

theorem linkFirst (n : Network) (cell : CellId) (ids : List TimingId) :
    n.Loads (n.linkFirst cell ids) := by
  induction ids with
  | nil => exact refl
  | cons id ids ih =>
    unfold Network.linkFirst
    cases e : n.linkCell? cell id with
    | none => exact ih
    | some n' => exact linkCell? e

theorem recordMaster (n : Network) (master : MasterId) (name : String) :
    n.Loads (n.recordMaster master name) := by
  refine foldl (fun n e => ?_) _ n
  split
  · exact setCatalog (.recordTimingMaster ..)
  · exact refl

theorem loadMaster (n : Network) (library : LibraryId) (id : MasterId) (master : Master) :
    n.Loads (n.loadMaster library id master) := by
  refine Loads.trans ?_ (linkFirst ..)
  refine Loads.trans ?_ (recordMaster ..)
  refine Loads.trans ?_ (groupCell ..)
  refine setCatalog (Catalog.Built.trans ?_ (.addPorts _ _ (·.2.name) (.physical ·.1)
    (fun e => .ofTypes e.2.sig e.2.io) (n.db.mtermsOf id)))
  exact .addCell ..

theorem loadMasters (n : Network) (library : LibraryId) (es : List (MasterId × Master)) :
    n.Loads (es.foldl (fun n e => n.loadMaster library e.1 e.2) n) := by
  refine foldl (fun n e => ?_) es n
  exact loadMaster n library e.1 e.2

theorem loadLibrary {id : LibId} {r : LibraryId} (e : n.loadLibrary id = .ok (r, n')) :
    n.Loads n' ∧ n'.drivers = {} := by
  obtain ⟨lib, -, e⟩ := bind_eq_ok.1 e
  obtain ⟨rfl, rfl⟩ := Prod.mk.inj (pure_eq_ok.1 e)
  refine ⟨?_, rfl⟩
  refine Loads.trans ?_ (notify ..)
  refine Loads.trans ?_ (forgetDrivers ..)
  refine Loads.trans ?_ (loadMasters ..)
  refine setCatalog (Catalog.Built.trans ?_ (.addLibrary ..))
  split
  · exact .removeLibrary ..
  · exact .refl

end Loads

theorem recordTimingMasters_catalog (n : Network) (id : TimingId) :
    ∃ c, n.recordTimingMasters id = { n with catalog := c } ∧
      n.catalog.Built n.timing.length c ∧ c.ports = n.catalog.ports := by
  unfold Network.recordTimingMasters
  split
  · exact ⟨n.catalog, rfl, .refl, rfl⟩
  · next library _ =>
    refine ⟨_, rfl, .foldl (fun c e => ?_) _ _, ?_⟩
    · split
      · split
        · exact .recordTimingMaster ..
        · exact .refl
      · exact .refl
    · refine List.foldlRecOn (motive := fun c : Catalog => c.ports = n.catalog.ports) _ _ rfl
        fun c hc e _ => ?_
      split
      · split
        · exact hc
        · exact hc
      · exact hc

theorem Loads.recordTimingMasters (n : Network) (id : TimingId) :
    n.Loads (n.recordTimingMasters id) := by
  obtain ⟨c, hc, hbuilt, -⟩ := recordTimingMasters_catalog n id
  exact hc ▸ setCatalog hbuilt

theorem Loads.linkCells {n : Network} {id : TimingId} {cells : List CellId} {m : Network}
    {linked : Bool} (e : cells.foldl (fun (acc : Network × Bool) cell =>
      match acc.1.linkCell? cell id with
      | some n => (n, true)
      | none => (acc.1, acc.2)) (n, false) = (m, linked)) :
    n.Loads m ∧ (linked = false → m = n) := by
  suffices h : ∀ acc : Network × Bool, acc = (m, linked) →
      n.Loads acc.1 ∧ (acc.2 = false → acc.1 = n) from h (m, linked) rfl
  rintro acc rfl
  rw [← e]
  refine List.foldlRecOn (motive := fun acc : Network × Bool =>
    n.Loads acc.1 ∧ (acc.2 = false → acc.1 = n)) _ _ ⟨.refl, fun _ => rfl⟩ fun acc hacc cell _ => ?_
  cases e : acc.1.linkCell? cell id with
  | none => simpa only [e] using hacc
  | some m => simpa only [e] using ⟨hacc.1.trans (.linkCell? e), Bool.noConfusion⟩

theorem Current.relinkTiming (h : n.Current) (id : TimingId) : (n.relinkTiming id).Current := by
  unfold Network.relinkTiming
  split
  · exact h.warn _
  · next library _ =>
    dsimp only
    generalize hacc : List.foldl _ (n, false) _ = acc
    obtain ⟨m, linked⟩ := acc
    obtain ⟨hloads, hsame⟩ := Loads.linkCells hacc
    have hs : (m.recordTimingMasters id).Sound :=
      (hloads.trans (.recordTimingMasters m id)).sound h.sound
    cases linked with
    | true => exact ⟨((Loads.forgetDrivers _).trans (.notify ..)).sound hs, kept_of_empty rfl⟩
    | false =>
      -- Only masters have been recorded, which no direction depends on.
      obtain rfl := hsame rfl
      obtain ⟨c, hc, hbuilt, hports⟩ := recordTimingMasters_catalog m id
      have hk : (m.recordTimingMasters id).Kept [] := by
        rw [hc]
        exact h.kept.sameTerminals h.sound rfl rfl
          (.setCatalog fun m => Catalog.linkOf?_congr hports m)
      exact Current.congr ⟨hs, hk⟩ rfl rfl rfl rfl

theorem Current.addTiming (h : n.Current) (library : TimingLibrary) :
    Current { n with timing := n.timing ++ [library] } := by
  have hlen : n.timing.length ≤ (n.timing ++ [library]).length := by simp
  have hs : Sound { n with timing := n.timing ++ [library] } :=
    ⟨h.sound.db, h.sound.ports.mono hlen, h.sound.boundaryKeys, h.sound.boundaries⟩
  refine ⟨hs, h.kept.sameTerminals h.sound rfl rfl ⟨rfl, fun m => ?_⟩⟩
  rw [linkedDirection?_eq, linkedDirection?_eq]
  cases href : n.catalog.linkOf? m with
  | none => rfl
  | some ref =>
    -- The number of a linked library is in use, so it does not name the new one.
    have hlt : ref.library.index < n.timing.length := by
      obtain ⟨p, hp, htiming⟩ := Option.bind_eq_some_iff.1 href
      obtain ⟨id, -, hid⟩ := Option.bind_eq_some_iff.1 hp
      exact h.sound.ports.linked _ (OrderedMap.mem_of_find? hid) ref htiming
    have hlib : timingLibrary? { n with timing := n.timing ++ [library] } ref.library =
        n.timingLibrary? ref.library := List.getElem?_append_left hlt
    simp only [Option.bind_some, timingPort?, timingCell?, hlib]

theorem Current.loadTiming (h : n.Current) (library : TimingLibrary) :
    (n.loadTiming library).2.Current := (h.addTiming library).relinkTiming _

theorem Current.loadLibrary (h : n.Current) {id : LibId} {r : LibraryId}
    (e : n.loadLibrary id = .ok (r, n')) : n'.Current := by
  obtain ⟨hloads, hdrivers⟩ := Loads.loadLibrary e
  exact ⟨hloads.sound h.sound, kept_of_empty hdrivers⟩

theorem Loads.loadTopCell (n : Network) (d : Design) : n.Loads (n.loadTopCell d) := by
  unfold Network.loadTopCell
  refine Loads.trans ?_ (groupCell ..)
  refine setCatalog (Catalog.Built.trans ?_ (.addPorts _ _ (·.2.name) (fun _ => .design)
    (fun e => .ofTypes e.2.sig e.2.io) d.bterms.entries))
  refine Catalog.Built.trans (Catalog.Built.trans ?_ (.addLibrary ..)) (.addCell ..)
  split
  · exact .removeLibrary ..
  · exact .refl

theorem Loads.loadModuleCells (e : n.loadModuleCells d = .ok n') : n.Loads n' := by
  obtain ⟨⟨c, added⟩, hcells, e⟩ := bind_eq_ok.1 e
  cases pure_eq_ok.1 e
  refine Loads.trans (setCatalog ?_) (groupCells _ added)
  refine foldlM_ok_induct
    (motive := fun acc : Catalog × List (CellId × String) =>
      n.catalog.Built n.timing.length acc.1) (fun acc e acc' hacc hstep => ?_)
    (.addLibrary n.catalog n.settings.moduleLibrary .modules) hcells
  dsimp only at hstep
  split at hstep
  · cases pure_eq_ok.1 hstep
    exact hacc
  · obtain ⟨m, -, hstep⟩ := bind_eq_ok.1 hstep
    cases pure_eq_ok.1 hstep
    exact (hacc.trans (.addCell ..)).trans (.addPorts _ _ (·.2.name) (.moduleBoundary ·.1)
      (fun e => .ofTypes e.2.sig e.2.io) (d.modBTermsOf e.2.master))

theorem foldl_recordBoundary (ts : List (ModuleId × ModBTermId × ModBTerm)) (c : Catalog) :
    ts.foldl (fun c t => c.recordBoundary t.1 t.2.2.name t.2.1) c = { c with
      boundaries := (ts.map fun t => ((t.1, t.2.2.name), t.2.1)).foldl
        (fun m e => m.insert e.1 e.2) c.boundaries } := by
  induction ts generalizing c with
  | nil => rfl
  | cons t ts ih =>
    rw [List.foldl_cons, ih]
    rfl

theorem mem_boundaries (hwf : d.WellFormed) {m : ModuleId} {name : String} {b : ModBTermId} :
    ((m, name), b) ∈ (d.modules.ids.flatMap fun m => (d.modBTermsOf m).map fun e => (m, e)).map
      (fun t => ((t.1, t.2.2.name), t.2.1)) ↔ d.modBTermNamed? m name = some b := by
  rw [Design.modBTermNamed?, hwf.modBTermNames.firstIn?_eq_some_iff hwf.modBTerms]
  simp only [List.mem_map, List.mem_flatMap, Prod.mk.injEq]
  constructor
  · rintro ⟨_, ⟨m', hm', e, he, rfl⟩, ⟨rfl, rfl⟩, rfl⟩
    obtain ⟨hfind, hm⟩ := hwf.modBTerms.mem_select.1 he
    exact ⟨e.2, hfind, of_decide_eq_true hm, rfl⟩
  · rintro ⟨t, hfind, rfl, rfl⟩
    have hin : (b, t) ∈ d.modBTermsOf t.module :=
      hwf.modBTerms.mem_select.2 ⟨hfind, decide_eq_true rfl⟩
    exact ⟨_, ⟨t.module, hwf.modBTermModule hfind, (b, t), hin, rfl⟩, ⟨rfl, rfl⟩, rfl⟩

theorem Sound.indexBoundaries (hdb : n.db.WellFormed) (hports : n.catalog.Numbered n.timing.length)
    (hd : n.design? = some d) : (n.indexBoundaries d).Sound := by
  have hwf := hdb.design hd
  have hunique : ∀ e ∈ (d.modules.ids.flatMap fun m => (d.modBTermsOf m).map fun e => (m, e)).map
      (fun t => ((t.1, t.2.2.name), t.2.1)), ∀ e' ∈ (d.modules.ids.flatMap fun m =>
        (d.modBTermsOf m).map fun e => (m, e)).map (fun t => ((t.1, t.2.2.name), t.2.1)),
      e.1 = e'.1 → e.2 = e'.2 := by
    rintro ⟨⟨m, name⟩, b⟩ he ⟨⟨m', name'⟩, b'⟩ he' hkey
    cases hkey
    exact Option.some.inj (((mem_boundaries hwf).1 he).symm.trans ((mem_boundaries hwf).1 he'))
  -- A name is used once in a module, so the order of recording does not matter.
  unfold Network.indexBoundaries
  dsimp only
  rw [foldl_recordBoundary]
  refine ⟨hdb, ⟨hports.numbered, hports.linked⟩,
    OrderedMap.keys_nodup_foldl_insert (m := {}) List.nodup_nil _, fun d' hd' m name => ?_⟩
  obtain rfl : d = d' := Option.some.inj (hd.symm.trans hd')
  cases hname : d.modBTermNamed? m name with
  | some b => exact OrderedMap.find?_foldl_insert_of_mem hunique ((mem_boundaries hwf).2 hname)
  | none =>
    refine (OrderedMap.find?_foldl_insert_of_not fun hin => ?_).trans (OrderedMap.find?_empty _)
    obtain ⟨⟨key, b⟩, he, rfl⟩ := List.mem_map.1 hin
    have hsome := (mem_boundaries hwf).1 he
    rw [hname] at hsome
    cases hsome

theorem Loads.current (h : n.Loads n') (hdb : n.db.WellFormed)
    (hports : n.catalog.Numbered n.timing.length) (hd : n.design? = some d) :
    (n'.indexBoundaries d).forgetDrivers.Current := by
  have hd' : n'.design? = some d := (congrArg Database.design? h.db).trans hd
  have hs : (n'.indexBoundaries d).Sound :=
    .indexBoundaries (h.db ▸ hdb) (h.timing ▸ h.catalog.numbered hports) hd'
  exact ⟨(forgetDrivers _).sound hs, kept_of_empty rfl⟩

theorem current_of_loadDesign (hdb : n.db.WellFormed)
    (hports : n.catalog.Numbered n.timing.length) (e : n.loadDesign = .ok n') : n'.Current := by
  obtain ⟨d, hd, e⟩ := bind_eq_ok.1 e
  have hd := design_eq_ok.1 hd
  extract_lets n₀ m finish at e
  have htop : n.Loads m := by
    refine (Loads.loadTopCell n d).trans ?_
    unfold m
    split
    · exact .setCatalog (.removeLibrary ..)
    · exact .refl
  have hfinish {n₁ : Network} (h : n.Loads n₁) (e : finish n₁ = .ok n') : n'.Current := by
    cases pure_eq_ok.1 e
    exact (h.current hdb hports hd).congr rfl rfl rfl rfl
  split at e
  · obtain ⟨n₁, e₁, e⟩ := bind_eq_ok.1 e
    exact hfinish (htop.trans (.loadModuleCells e₁)) e
  · exact hfinish htop e

theorem Current.reload (h : n.Current) (e : n.reload = .ok n') : n'.Current := by
  unfold Network.reload at e
  split at e
  · exact current_of_loadDesign h.sound.db h.sound.ports e
  · cases pure_eq_ok.1 e
    exact h.warn _

theorem current_of_empty (hdb : n.db.WellFormed) (hd : n.design? = none) (hc : n.catalog = {})
    (hdrivers : n.drivers = {}) : n.Current := by
  refine ⟨⟨hdb, ?_, ?_, fun d h => ?_⟩, kept_of_empty hdrivers⟩
  · exact hc ▸ Catalog.numbered_empty
  · exact hc ▸ List.nodup_nil
  · rw [hd] at h
    cases h

theorem current_new (settings : Settings) : (Network.new settings).Current :=
  current_of_empty Database.wellFormed_empty rfl rfl rfl

theorem current_teardown (n : Network) : n.teardown.Current :=
  current_of_empty Database.wellFormed_empty rfl rfl rfl

theorem current_of_loadDatabase {db : Database} (hdb : db.WellFormed)
    (e : n.loadDatabase db = .ok n') : n'.Current := by
  obtain ⟨n₁, e₁, e⟩ := bind_eq_ok.1 e
  have hlibs : (n.reset db).Loads n₁ := by
    refine foldlM_ok_induct (motive := (n.reset db).Loads) (fun m id m' hm hstep => ?_) .refl e₁
    obtain ⟨⟨r, m₁⟩, hlib, hstep⟩ := bind_eq_ok.1 hstep
    cases pure_eq_ok.1 hstep
    exact hm.trans (Loads.loadLibrary hlib).1
  extract_lets n₂ at e
  have hloads : (n.reset db).Loads n₂ :=
    hlibs.trans (.foldl .recordTimingMasters (n₁.timingLibraries.map (·.1)) n₁)
  split at e
  · refine current_of_loadDesign (hloads.db ▸ hdb) ?_ e
    exact hloads.timing ▸ hloads.catalog.numbered Catalog.numbered_empty
  · next hsome =>
    rw [← pure_eq_ok.1 e]
    have hnone : db.design? = none := by simpa using hsome
    have hempty : (n.reset db).Current := current_of_empty hdb hnone rfl rfl
    exact ⟨hloads.sound hempty.sound, kept_of_empty (hloads.drivers rfl)⟩

end DesignView.Network
