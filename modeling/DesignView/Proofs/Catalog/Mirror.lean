import DesignView.Physical.Database
import DesignView.Proofs.Catalog.Label

/-!
Mirrors: a catalog that shows nothing twice, each cell in the library of what it stands for, and
each port for a terminal of a master under the name of the terminal in the cell of the master.
Loading builds one library anew in place of the old one and keeps what is in the other libraries.
-/

namespace DesignView

def Database.home? (db : Database) : CellSource → Option LibrarySource
  | .physical master => (db.masters.find? master).map fun m => .physical m.lib
  | .module _ => some .modules
  | .design => some .design

theorem Database.home?_physical {db : Database} {id : MasterId} {m : Master}
    (h : db.masters.find? id = some m) : db.home? (.physical id) = some (.physical m.lib) :=
  congrArg (Option.map fun m : Master => LibrarySource.physical m.lib) h

namespace Catalog

/-- A port for a terminal of a master has the name of the terminal and is in the cell of the
master. -/
def Places (c : Catalog) (db : Database) (l : PortLabel) : Prop :=
  ∀ t, l.source = .physical t → ∃ m lib, db.mterms.find? t = some m ∧ l.name = m.name ∧
    c.cellLabel? l.cell = some ⟨lib, .physical m.master⟩

structure Mirrors (c : Catalog) (db : Database) : Prop where
  tidy : c.Tidy
  libraries : ∀ ⦃a b s⦄, c.librarySource? a = some s → c.librarySource? b = some s → a = b
  cells : ∀ ⦃x y l l'⦄, c.cellLabel? x = some l → c.cellLabel? y = some l' →
    l.source = l'.source → x = y
  home : ∀ ⦃x l⦄, c.cellLabel? x = some l →
    ∃ s, db.home? l.source = some s ∧ c.librarySource? l.library = some s
  ports : ∀ ⦃p l⦄, c.portLabel? p = some l → c.Places db l

variable {c c' c'' : Catalog} {db : Database} {s : LibrarySource}
variable {newCell : CellLabel → Prop} {newPort : PortLabel → Prop}

theorem mirrors_empty (db : Database) : ({} : Catalog).Mirrors db :=
  ⟨tidy_empty, fun _ _ _ h => (by cases h), fun _ _ _ _ h => (by cases h),
    fun _ _ h => (by cases h), fun _ _ h => (by cases h)⟩

theorem Mirrors.congr {db' : Database} (h : c.Mirrors db) (hmasters : db'.masters = db.masters)
    (hmterms : db'.mterms = db.mterms) : c.Mirrors db' := by
  obtain ⟨⟩ := db
  obtain ⟨⟩ := db'
  cases hmasters
  cases hmterms
  exact ⟨h.tidy, h.libraries, h.cells, h.home, h.ports⟩

theorem Mirrors.firstCell?_eq_some_iff (h : c.Mirrors db) {x : CellId} {source : CellSource} :
    (c.cells.firstKey? fun y => y.source = source) = some x ↔
      ∃ library, c.cellLabel? x = some ⟨library, source⟩ := by
  rw [OrderedMap.firstKey?_eq_some_iff h.tidy.cells.nodup]
  · constructor
    · rintro ⟨y, hy, hsource⟩
      refine ⟨y.library, (congrArg (Option.map Cell.label) hy).trans ?_⟩
      rw [Option.map_some, Cell.label, of_decide_eq_true hsource]
    · rintro ⟨library, hx⟩
      obtain ⟨y, hy, hlabel⟩ := Option.map_eq_some_iff.1 hx
      exact ⟨y, hy, decide_eq_true (congrArg CellLabel.source hlabel)⟩
  · intro a b u v ha hb hu hv
    have hla : c.cellLabel? a = some u.label := congrArg (Option.map Cell.label) ha
    have hlb : c.cellLabel? b = some v.label := congrArg (Option.map Cell.label) hb
    exact h.cells hla hlb ((of_decide_eq_true hu).trans (of_decide_eq_true hv).symm)

theorem Mirrors.gains (h : c.Mirrors db) (g : c.Gains (fun _ => False) newPort c')
    (hport : ∀ l, newPort l → c.Places db l) : c'.Mirrors db := by
  have hcell {x : CellId} {l : CellLabel} (hx : c'.cellLabel? x = some l) :
      c.cellLabel? x = some l := (g.addedCells hx).resolve_right id
  have hlibrary (a : LibraryId) : c'.librarySource? a = c.librarySource? a := by
    rw [librarySource?, librarySource?, g.libraries]
  refine ⟨g.tidy, fun a b s ha hb => ?_, fun x y l l' hx hy => h.cells (hcell hx) (hcell hy),
    fun x l hx => ?_, fun p l hp => ?_⟩
  · exact h.libraries ((hlibrary a).symm.trans ha) ((hlibrary b).symm.trans hb)
  · obtain ⟨s, hs, hl⟩ := h.home (hcell hx)
    exact ⟨s, hs, (hlibrary _).trans hl⟩
  · intro t ht
    have hplaces : c.Places db l := by
      rcases g.addedPorts hp with hp | hnew
      · exact h.ports hp
      · exact hport l hnew
    obtain ⟨m, lib, hm, hname, hl⟩ := hplaces t ht
    exact ⟨m, lib, hm, hname, g.keptCells hl⟩

theorem Mirrors.regroup (h : c.Mirrors db)
    (g : c.Gains (fun _ => False) (·.source = .group) c') : c'.Mirrors db := by
  refine h.gains g fun l hl t ht => ?_
  cases hl.symm.trans ht

theorem Mirrors.addCell (h : c.Mirrors db) {library : LibraryId} {source : CellSource}
    (hlibrary : c.librarySource? library = some s) (hhome : db.home? source = some s)
    (hfree : ∀ x l, c.cellLabel? x = some l → l.source ≠ source) (name : String) :
    (c.addCell library name source).2.Mirrors db := by
  have g : c.Gains (· = ⟨library, source⟩) (fun _ => False) (c.addCell library name source).2 :=
    h.tidy.addCell library name source
  refine ⟨g.tidy, fun a b s => h.libraries (s := s), fun x y l l' hx hy e => ?_, fun x l hx => ?_,
    fun p l hp t ht => ?_⟩
  · rw [cellLabel?_addCell] at hx hy
    split at hx
    · next hxnew =>
      split at hy
      · next hynew => exact hxnew.trans hynew.symm
      · cases hx
        exact absurd e.symm (hfree y l' hy)
    · split at hy
      · cases hy
        exact absurd e (hfree x l hx)
      · exact h.cells hx hy e
  · rcases g.addedCells hx with hx | rfl
    · exact h.home hx
    · exact ⟨s, hhome, hlibrary⟩
  · obtain ⟨m, lib, hm, hname, hl⟩ := h.ports hp t ht
    exact ⟨m, lib, hm, hname, g.keptCells hl⟩

theorem Mirrors.buildCell {ε : Type} (h : c.Mirrors db) {library : LibraryId} {source : CellSource}
    (hlibrary : c.librarySource? library = some s) (hhome : db.home? source = some s)
    (hfree : ∀ x l, c.cellLabel? x = some l → l.source ≠ source) (cellName : String)
    (name : ε → String) (portSource : ε → PortSource) (direction : ε → PortDirection) (es : List ε)
    (hports : ∀ e ∈ es, ∀ t, portSource e = .physical t →
      ∃ m, db.mterms.find? t = some m ∧ name e = m.name ∧ source = .physical m.master)
    (hc : c' = es.foldl (fun c' e =>
      (c'.addPort ⟨c.count + 1⟩ (name e) (portSource e) (direction e)).2)
        (c.addCell library cellName source).2) :
    c'.Mirrors db ∧
      c.Gains (· = ⟨library, source⟩)
        (fun l => ∃ e ∈ es, l = ⟨name e, ⟨c.count + 1⟩, portSource e⟩) c' ∧
      c'.cellLabel? ⟨c.count + 1⟩ = some ⟨library, source⟩ ∧
      ∀ e ∈ es, (∃ p, c'.portLabel? p = some ⟨name e, ⟨c.count + 1⟩, portSource e⟩) ∧
        ∀ b, portSource e = .moduleBoundary b → ∃ p, c'.boundaryPorts.find? b = some p ∧
          ∃ e' ∈ es, portSource e' = .moduleBoundary b ∧
            c'.portLabel? p = some ⟨name e', ⟨c.count + 1⟩, portSource e'⟩ := by
  have hcell : (c.addCell library cellName source).2.Mirrors db :=
    h.addCell hlibrary hhome hfree cellName
  have hlabel : (c.addCell library cellName source).2.cellLabel? ⟨c.count + 1⟩ =
      some ⟨library, source⟩ := by
    rw [cellLabel?_addCell, if_pos rfl]
  obtain ⟨g, hes⟩ := hcell.tidy.addPorts ⟨c.count + 1⟩ name portSource direction es hc
  have hplaces (l : PortLabel) (hl : ∃ e ∈ es, l = ⟨name e, ⟨c.count + 1⟩, portSource e⟩) :
      (c.addCell library cellName source).2.Places db l := by
    obtain ⟨e, he, rfl⟩ := hl
    intro t ht
    obtain ⟨m, hm, hname, rfl⟩ := hports e he t ht
    exact ⟨m, library, hm, hname, hlabel⟩
  exact ⟨hcell.gains g hplaces,
    (h.tidy.addCell library cellName source).trans (g.mono (fun _ => False.elim) fun _ => id),
    g.keptCells hlabel, hes⟩

/-- The second catalog mirrors the database, and shows what the first one shows in the libraries
that are not built from `s`. -/
structure Rebuilds (db : Database) (s : LibrarySource) (c c' : Catalog) : Prop where
  mirrors : c'.Mirrors db
  cells : ∀ ⦃x l⦄, db.home? l.source ≠ some s → (c'.cellLabel? x = some l ↔ c.cellLabel? x = some l)
  ports : ∀ ⦃p l k⦄, c.portLabel? p = some l → c.cellLabel? l.cell = some k →
    db.home? k.source ≠ some s → c'.portLabel? p = some l
  boundaryPorts : s ≠ .modules → ∀ ⦃b p l k⦄, c.boundaryPorts.find? b = some p →
    c.portLabel? p = some l → c.cellLabel? l.cell = some k → db.home? k.source ≠ some s →
    c'.boundaryPorts.find? b = some p

namespace Rebuilds

theorem refl (h : c.Mirrors db) : Rebuilds db s c c :=
  ⟨h, fun _ _ _ => Iff.rfl, fun _ _ _ hp _ _ => hp, fun _ _ _ _ _ hb _ _ _ => hb⟩

theorem trans (h : Rebuilds db s c c') (h' : Rebuilds db s c' c'') : Rebuilds db s c c'' where
  mirrors := h'.mirrors
  cells _ _ hl := (h'.cells hl).trans (h.cells hl)
  ports _ _ _ hp hk hs := h'.ports (h.ports hp hk hs) ((h.cells hs).2 hk) hs
  boundaryPorts hne _ _ _ _ hb hp hk hs :=
    h'.boundaryPorts hne (h.boundaryPorts hne hb hp hk hs) (h.ports hp hk hs) ((h.cells hs).2 hk) hs

theorem of_gains (hm : c'.Mirrors db) (g : c.Gains newCell newPort c')
    (hcell : ∀ l, newCell l → db.home? l.source = some s)
    (hport : s ≠ .modules → ∀ l b, newPort l → l.source ≠ .moduleBoundary b) :
    Rebuilds db s c c' := by
  refine ⟨hm, fun x l hl => ⟨fun hx => ?_, fun hx => g.keptCells hx⟩,
    fun p l k hp _ _ => g.keptPorts hp, fun hne b p l k hb _ _ _ => ?_⟩
  · exact (g.addedCells hx).resolve_right fun hnew => hl (hcell l hnew)
  · rcases g.boundaryPorts b with hsame | ⟨p', l', -, -, hsource, hnew⟩
    · exact hsame.trans hb
    · exact absurd hsource (hport hne l' b hnew)

theorem regroup (h : c.Mirrors db) (g : c.Gains (fun _ => False) (·.source = .group) c') :
    Rebuilds db s c c' := by
  refine of_gains (h.regroup g) g (fun _ => False.elim) fun _ l b hl hb => ?_
  cases hl.symm.trans hb

theorem addLibrary (h : c.Mirrors db) (hs : ∀ a, c.librarySource? a ≠ some s) (name : String) :
    Rebuilds db s c (c.addLibrary name s).2 := by
  refine ⟨⟨h.tidy.addLibrary name s, fun a b s' ha hb => ?_, h.cells, fun x l hx => ?_, h.ports⟩,
    fun _ _ _ => Iff.rfl, fun _ _ _ hp _ _ => hp, fun _ _ _ _ _ hb _ _ _ => hb⟩
  · rw [librarySource?_addLibrary] at ha hb
    split at ha
    · next hanew =>
      split at hb
      · next hbnew => exact hanew.trans hbnew.symm
      · exact absurd (ha ▸ hb) (hs b)
    · split at hb
      · exact absurd (hb ▸ ha) (hs a)
      · exact h.libraries ha hb
  · obtain ⟨s', hs', hl⟩ := h.home hx
    exact ⟨s', hs', h.tidy.librarySource?_addLibrary hl name s⟩

theorem removeLibrary (h : c.Mirrors db) {old : LibraryId} (hs : c.librarySource? old = some s) :
    Rebuilds db s c (c.removeLibrary old) := by
  have hlibrary {a : LibraryId} {s' : LibrarySource} (ha : a ≠ old)
      (hs' : c.librarySource? a = some s') : (c.removeLibrary old).librarySource? a = some s' := by
    rw [librarySource?_removeLibrary, if_neg ha, hs']
  have hkept {x : CellId} {l : CellLabel} (hx : c.cellLabel? x = some l)
      (hne : db.home? l.source ≠ some s) : l.library ≠ old := by
    rintro rfl
    obtain ⟨s', hs', hl⟩ := h.home hx
    exact hne (hs'.trans (hl.symm.trans hs))
  have hwithin {x : CellId} {l : CellLabel} (hx : c.cellLabel? x = some l)
      (hne : db.home? l.source ≠ some s) : c.within old x = false := by
    simp [within, hx, hkept hx hne]
  have hremoved {a : LibraryId} {s' : LibrarySource}
      (ha : (c.removeLibrary old).librarySource? a = some s') : c.librarySource? a = some s' := by
    rw [librarySource?_removeLibrary] at ha
    split at ha
    · cases ha
    · exact ha
  refine ⟨⟨h.tidy.removeLibrary old, fun a b s' ha hb => ?_, fun x y l l' hx hy => ?_,
    fun x l hx => ?_, fun p l hp t ht => ?_⟩, fun x l hl => ?_, fun p l k hp hk hne => ?_,
    fun _ b p l k hb hp hk hne => ?_⟩
  · exact h.libraries (hremoved ha) (hremoved hb)
  · exact h.cells (h.tidy.cellLabel?_removeLibrary.1 hx).1 (h.tidy.cellLabel?_removeLibrary.1 hy).1
  · obtain ⟨hx, hne⟩ := h.tidy.cellLabel?_removeLibrary.1 hx
    obtain ⟨s', hs', hl⟩ := h.home hx
    exact ⟨s', hs', hlibrary hne hl⟩
  · obtain ⟨hp, hin⟩ := h.tidy.portLabel?_removeLibrary.1 hp
    obtain ⟨m, lib, hm, hname, hl⟩ := h.ports hp t ht
    have hne : lib ≠ old := by simpa [within, hl] using hin
    exact ⟨m, lib, hm, hname, h.tidy.cellLabel?_removeLibrary.2 ⟨hl, hne⟩⟩
  · rw [h.tidy.cellLabel?_removeLibrary]
    exact ⟨fun hx => hx.1, fun hx => ⟨hx, hkept hx hl⟩⟩
  · exact h.tidy.portLabel?_removeLibrary.2 ⟨hp, hwithin hk hne⟩
  · exact h.tidy.boundaryPorts_removeLibrary hb hp (hwithin hk hne)

end Rebuilds

def without (c : Catalog) (s : LibrarySource) : Catalog :=
  match c.libraries.firstKey? fun l => l.source = s with
  | some old => c.removeLibrary old
  | none => c

theorem count_without (c : Catalog) (s : LibrarySource) : (c.without s).count = c.count := by
  unfold Catalog.without
  split <;> rfl

theorem Mirrors.without (h : c.Mirrors db) (s : LibrarySource) :
    Rebuilds db s c (c.without s) ∧ ∀ a, (c.without s).librarySource? a ≠ some s := by
  unfold Catalog.without
  split
  · next old hold =>
    obtain ⟨x, hx, hsource⟩ := OrderedMap.exists_of_firstKey? h.tidy.libraries.nodup hold
    have hs : c.librarySource? old = some s :=
      (congrArg (Option.map _) hx).trans (congrArg some (of_decide_eq_true hsource))
    refine ⟨.removeLibrary h hs, fun a ha => ?_⟩
    rw [librarySource?_removeLibrary] at ha
    split at ha
    · cases ha
    · next hne => exact hne (h.libraries ha hs)
  · next hnone =>
    refine ⟨.refl h, fun a ha => ?_⟩
    obtain ⟨x, hx, hsource⟩ := Option.map_eq_some_iff.1 ha
    obtain ⟨k, hk⟩ := OrderedMap.firstKey?_isSome (p := fun l => l.source = s) hx
      (decide_eq_true hsource)
    cases hnone.symm.trans hk

theorem Mirrors.anew (h : c.Mirrors db) (s : LibrarySource) (name : String)
    (hc : c' = ((c.without s).addLibrary name s).2) : Rebuilds db s c c' ∧
      c'.librarySource? ⟨(c.without s).count + 1⟩ = some s ∧
      ∀ x l, c'.cellLabel? x = some l → db.home? l.source ≠ some s := by
  subst hc
  obtain ⟨hout, hnone⟩ := h.without s
  refine ⟨hout.trans (.addLibrary hout.mirrors hnone name), ?_, fun x l hx hl => ?_⟩
  · rw [librarySource?_addLibrary, if_pos rfl]
  · have hx : (c.without s).cellLabel? x = some l := hx
    obtain ⟨s', hs', hlibrary⟩ := hout.mirrors.home hx
    exact hnone l.library (hlibrary.trans (hs'.symm.trans hl))

def ShowsMTerm (c : Catalog) (t : MTermId) : Prop :=
  ∃ p l, c.portLabel? p = some l ∧ l.source = .physical t

def ShowsModule (c : Catalog) (m : ModuleId) : Prop :=
  ∃ x library, c.cellLabel? x = some ⟨library, .module m⟩

def ShowsTop (c : Catalog) (d : Design) : Prop :=
  ∃ x library, c.cellLabel? x = some ⟨library, .design⟩ ∧
    ∀ b t, d.bterms.find? b = some t →
      ∃ p l, c.portLabel? p = some l ∧ l.cell = x ∧ l.name = t.name

def ShowsBoundaries (c : Catalog) (d : Design) : Prop :=
  ∀ ⦃b t x library⦄, d.modBTerms.find? b = some t →
    c.cellLabel? x = some ⟨library, .module t.module⟩ →
    ∃ p l, c.boundaryPorts.find? b = some p ∧ c.portLabel? p = some l ∧ l.cell = x ∧ l.name = t.name

theorem Mirrors.cellOfModule?_isSome (h : c.Mirrors db) {m : ModuleId} :
    (c.cellOfModule? m).isSome = true ↔ c.ShowsModule m :=
  Option.isSome_iff_exists.trans (exists_congr fun _ => h.firstCell?_eq_some_iff)

theorem Mirrors.showsBoundaries_of_none (h : c.Mirrors db)
    (hnone : ∀ a, c.librarySource? a ≠ some .modules) (d : Design) : c.ShowsBoundaries d := by
  intro b t x lib _ hx
  obtain ⟨s, hs, hl⟩ := h.home hx
  cases hs
  exact absurd hl (hnone lib)

namespace Rebuilds

variable {d : Design} {t : MTermId} {m : ModuleId}

theorem showsMTerm (r : Rebuilds db s c c') (h : c.Mirrors db)
    (hs : ∀ m, db.mterms.find? t = some m → db.home? (.physical m.master) ≠ some s)
    (ht : c.ShowsMTerm t) : c'.ShowsMTerm t := by
  obtain ⟨p, l, hp, hsource⟩ := ht
  obtain ⟨m, lib, hm, -, hk⟩ := h.ports hp t hsource
  exact ⟨p, l, r.ports hp hk (hs m hm), hsource⟩

theorem showsMTerm_of_ne (r : Rebuilds db s c c') (h : c.Mirrors db) (hs : ∀ lib, s ≠ .physical lib)
    (ht : c.ShowsMTerm t) : c'.ShowsMTerm t := by
  refine r.showsMTerm h (fun m _ e => ?_) ht
  obtain ⟨a, -, hlib⟩ := Option.map_eq_some_iff.1 e
  exact hs a.lib hlib.symm

theorem showsModule (r : Rebuilds db s c c') (hs : s ≠ .modules) (hm : c.ShowsModule m) :
    c'.ShowsModule m := by
  obtain ⟨x, lib, hx⟩ := hm
  have hhome : db.home? (.module m) ≠ some s := fun e => hs (Option.some.inj e).symm
  exact ⟨x, lib, (r.cells hhome).2 hx⟩

theorem showsTop (r : Rebuilds db s c c') (hs : s ≠ .design) (hd : c.ShowsTop d) :
    c'.ShowsTop d := by
  obtain ⟨x, lib, hx, hterms⟩ := hd
  have hhome : db.home? .design ≠ some s := fun e => hs (Option.some.inj e).symm
  refine ⟨x, lib, (r.cells hhome).2 hx, fun b t hb => ?_⟩
  obtain ⟨p, l, hp, rfl, hname⟩ := hterms b t hb
  exact ⟨p, l, r.ports hp hx hhome, rfl, hname⟩

theorem showsBoundaries (r : Rebuilds db s c c') (hs : s ≠ .modules) (hd : c.ShowsBoundaries d) :
    c'.ShowsBoundaries d := by
  intro b t x lib ht hx
  have hhome : db.home? (.module t.module) ≠ some s := fun e => hs (Option.some.inj e).symm
  have hx := (r.cells hhome).1 hx
  obtain ⟨p, l, hb, hp, rfl, hname⟩ := hd ht hx
  exact ⟨p, l, r.boundaryPorts hs hb hp hx hhome, r.ports hp hx hhome, rfl, hname⟩

end Rebuilds

end Catalog
end DesignView
