import DesignView.Proofs.Catalog.Distinct
import DesignView.Proofs.Inventory.Removal
import Mathlib.Logic.Relation

/-!
Calls one after the other. Calls that remove no library take away no name and no source that is
there; so where those of the catalog that they lead to are all different, each of them added
something new, and the inventory holds what the catalog says after each call.
-/

namespace DesignView

open Relation (ReflTransGen)

namespace Catalog

variable {c c' c'' : Catalog}

structure Retains (c c' : Catalog) : Prop where
  count : c.count ≤ c'.count
  libraries : ∀ ⦃l s⦄, c.librarySource? l = some s → c'.librarySource? l = some s
  heads : ∀ ⦃x z⦄, c.head? x = some z → c'.head? x = some z
  labels : ∀ ⦃p l⦄, c.portLabel? p = some l → c'.portLabel? p = some l

theorem Retains.refl (c : Catalog) : c.Retains c := ⟨Nat.le_refl _, fun _ _ => id, fun _ _ => id,
  fun _ _ => id⟩

theorem Retains.trans (h : c.Retains c') (h' : c'.Retains c'') : c.Retains c'' :=
  ⟨Nat.le_trans h.count h'.count, fun _ _ hl => h'.libraries (h.libraries hl),
    fun _ _ hx => h'.heads (h.heads hx), fun _ _ hp => h'.labels (h.labels hp)⟩

theorem Retains.exists_cell (h : c.Retains c') {x : CellId} {y : Cell}
    (hx : c.cells.find? x = some y) : ∃ y', c'.cells.find? x = some y' ∧ y'.name = y.name ∧
      y'.library = y.library ∧ y'.source = y.source := by
  obtain ⟨y', hy', hhead⟩ := Option.map_eq_some_iff.1 (h.heads (congrArg (Option.map Cell.head) hx))
  have hname : y'.head.name = y.head.name := congrArg Cell.name hhead
  have hlibrary : y'.head.library = y.head.library := congrArg Cell.library hhead
  have hsource : y'.head.source = y.head.source := congrArg Cell.source hhead
  exact ⟨y', hy', hname, hlibrary, hsource⟩

theorem Retains.exists_port (h : c.Retains c') {p : PortId} {q : Port}
    (hp : c.ports.find? p = some q) : ∃ q', c'.ports.find? p = some q' ∧ q'.name = q.name ∧
      q'.cell = q.cell ∧ q'.source = q.source := by
  obtain ⟨q', hq', hlabel⟩ := Option.map_eq_some_iff.1 (h.labels (portLabel?_of_find? hp))
  exact ⟨q', hq', congrArg PortLabel.name hlabel, congrArg PortLabel.cell hlabel,
    congrArg PortLabel.source hlabel⟩

theorem Distinct.of_retains (hd : c'.Distinct) (h : c.Retains c') : c.Distinct := by
  constructor
  case libraries =>
    intro l l' a a' hl hl' hsame
    obtain ⟨b, hb, hsource⟩ :=
      Option.map_eq_some_iff.1 (h.libraries (congrArg (Option.map Library.source) hl))
    obtain ⟨b', hb', hsource'⟩ :=
      Option.map_eq_some_iff.1 (h.libraries (congrArg (Option.map Library.source) hl'))
    exact hd.libraries hb hb' (hsource.trans (hsame.trans hsource'.symm))
  case cells =>
    intro x x' y y' hx hx' hsame
    obtain ⟨z, hz, -, -, hsource⟩ := h.exists_cell hx
    obtain ⟨z', hz', -, -, hsource'⟩ := h.exists_cell hx'
    exact hd.cells hz hz' (hsource.trans (hsame.trans hsource'.symm))
  case cellNames =>
    intro x x' y y' hx hx' hin hsame
    obtain ⟨z, hz, hname, hlibrary, -⟩ := h.exists_cell hx
    obtain ⟨z', hz', hname', hlibrary', -⟩ := h.exists_cell hx'
    exact hd.cellNames hz hz' (hlibrary.trans (hin.trans hlibrary'.symm))
      (hname.trans (hsame.trans hname'.symm))
  case portNames =>
    intro p p' q q' hp hp' hin hsame
    obtain ⟨r, hr, hname, hcell, -⟩ := h.exists_port hp
    obtain ⟨r', hr', hname', hcell', -⟩ := h.exists_port hp'
    exact hd.portNames hr hr' (hcell.trans (hin.trans hcell'.symm))
      (hname.trans (hsame.trans hname'.symm))
  case mterms =>
    intro p p' q q' t hp hp' ht ht'
    obtain ⟨r, hr, -, -, hsource⟩ := h.exists_port hp
    obtain ⟨r', hr', -, -, hsource'⟩ := h.exists_port hp'
    exact hd.mterms hr hr' (hsource.trans ht) (hsource'.trans ht')

/-- What a call adds belongs to something that has been numbered; it removes nothing. -/
def Admits (c : Catalog) : Inventory.Call → Prop
  | .addCell library _ _ => library.num ≤ c.count
  | .addPort cell _ _ _ | .addGroup cell _ _ => cell.num ≤ c.count
  | .removeLibrary _ => False
  | _ => True

variable {newCell : CellLabel → Prop} {newPort : PortLabel → Prop}

theorem Placed.gains (h : c.Placed) (g : c.Gains newCell newPort c') (hcount : c.count ≤ c'.count)
    (hcell : ∀ l, newCell l → l.library.num ≤ c'.count)
    (hport : ∀ l, newPort l → l.cell.num ≤ c'.count) (hboundaries : c'.boundaries.keys.Nodup) :
    c'.Placed := by
  refine ⟨g.tidy, fun x l hx => ?_, fun p l hp => ?_, hboundaries⟩
  · exact (g.addedCells hx).elim (fun hx => Nat.le_trans (h.libraries hx) hcount) (hcell l)
  · exact (g.addedPorts hp).elim (fun hp => Nat.le_trans (h.cells hp) hcount) (hport l)

theorem portLabel?_addGroup {cell : CellId} {name : String} {shape : PortShape} {p : PortId}
    {l : PortLabel} : (c.addGroup cell name shape).2.portLabel? p = some l ↔
      p = ⟨c.count + 1⟩ ∧ l = ⟨name, cell, .group⟩ ∨
        p ≠ ⟨c.count + 1⟩ ∧ c.portLabel? p = some l := by
  have hlabel : (c.addGroup cell name shape).2.portLabel? p =
      if p = ⟨c.count + 1⟩ then some ⟨name, cell, .group⟩ else c.portLabel? p :=
    OrderedMap.map_find?_insert ..
  rw [hlabel]
  by_cases hp : p = ⟨c.count + 1⟩
  · simp [hp, eq_comm]
  · simp [hp]

theorem Placed.call (h : c.Placed) {k : Inventory.Call} (hk : c.Admits k) : (c.call k).Placed := by
  have hnext : c.count ≤ c.count + 1 := Nat.le_succ _
  have same (g : c.Gains (fun _ => False) (fun _ => False) (c.call k))
      (hcount : c.count = (c.call k).count) (hb : (c.call k).boundaries.keys.Nodup) :
      (c.call k).Placed :=
    h.gains g (Nat.le_of_eq hcount) (fun _ => False.elim) (fun _ => False.elim) hb
  cases k with
  | addLibrary name source =>
    exact ⟨h.tidy.addLibrary name source, fun x l hx => Nat.le_succ_of_le (h.libraries hx),
      fun p l hp => Nat.le_succ_of_le (h.cells hp), h.boundaries⟩
  | addCell library name source =>
    have g : c.Gains (· = ⟨library, source⟩) (fun _ => False) (c.addCell library name source).2 :=
      h.tidy.addCell library name source
    refine h.gains g hnext ?_ (fun _ => False.elim) h.boundaries
    rintro _ rfl
    exact Nat.le_succ_of_le hk
  | addPort cell name source direction =>
    have g : c.Gains (fun _ => False) (· = ⟨name, cell, source⟩)
        (c.addPort cell name source direction).2 := h.tidy.addPort cell name source direction
    refine h.gains g hnext (fun _ => False.elim) ?_ h.boundaries
    rintro _ rfl
    exact Nat.le_succ_of_le hk
  | addGroup cell name shape =>
    have g : c.Gains (fun _ => False) (·.source = .group) (c.addGroup cell name shape).2 :=
      h.tidy.addGroup cell name shape
    refine ⟨g.tidy, fun x l hx => ?_, fun p l hp => ?_, h.boundaries⟩
    · exact Nat.le_succ_of_le (h.libraries ((g.addedCells hx).resolve_right id))
    · rcases portLabel?_addGroup.1 hp with ⟨-, rfl⟩ | ⟨-, hp⟩
      · exact Nat.le_succ_of_le hk
      · exact Nat.le_succ_of_le (h.cells hp)
  | setShape port shape => exact same (h.tidy.setShape port shape) rfl h.boundaries
  | setDirection port direction => exact same (h.tidy.setDirection port direction) rfl h.boundaries
  | setCellTiming cell timing => exact same (h.tidy.setCellTiming cell timing) rfl h.boundaries
  | setPortTiming port timing => exact same (h.tidy.setPortTiming port timing) rfl h.boundaries
  | recordTimingMaster library cell master =>
    exact same (h.tidy.recordTimingMaster library cell master) rfl h.boundaries
  | recordBoundary module name b =>
    exact same (h.tidy.setBoundaries _) rfl (OrderedMap.keys_nodup_insert h.boundaries ..)
  | clearBoundaries => exact same (h.tidy.setBoundaries _) rfl List.nodup_nil
  | forgetBoundary b =>
    exact ⟨h.tidy.forgetBoundary b, h.libraries, h.cells,
      OrderedMap.keys_nodup_filter h.boundaries _⟩
  | removeLibrary id => exact hk.elim

theorem Retains.of_gains {newCell : CellLabel → Prop} {newPort : PortLabel → Prop}
    (g : c.Gains newCell newPort c') (hcount : c.count ≤ c'.count)
    (hheads : ∀ x, c'.head? x = c.head? x) : c.Retains c' := by
  refine ⟨hcount, fun l s hl => ?_, fun x z hx => (hheads x).trans hx, g.keptPorts⟩
  rw [librarySource?, g.libraries]
  exact hl

theorem Placed.retains (h : c.Placed) {k : Inventory.Call} (hk : c.Admits k) :
    c.Retains (c.call k) := by
  have ht := h.tidy
  have hnext : c.count ≤ c.count + 1 := Nat.le_succ _
  have same (g : c.Gains (fun _ => False) (fun _ => False) (c.call k)) :
      c.count ≤ (c.call k).count → (∀ x, (c.call k).head? x = c.head? x) →
        c.Retains (c.call k) := .of_gains g
  cases k with
  | addLibrary name source =>
    exact ⟨hnext, fun l s hl => ht.librarySource?_addLibrary hl name source, fun _ _ => id,
      fun _ _ => id⟩
  | addCell library name source =>
    refine ⟨hnext, fun _ _ => id, fun x z hx => ?_, fun _ _ => id⟩
    refine (OrderedMap.map_find?_insert ..).trans ((if_neg ?_).trans hx)
    rintro rfl
    obtain ⟨y, hy, -⟩ := Option.map_eq_some_iff.1 hx
    cases (ht.cells.find?_fresh rfl).symm.trans hy
  | addPort cell name source direction =>
    have g : c.Gains (fun _ => False) (· = ⟨name, cell, source⟩)
        (c.addPort cell name source direction).2 := ht.addPort cell name source direction
    exact .of_gains g hnext fun x => head?_of_face? ((SameCells.addPort ..).faces x)
  | addGroup cell name shape =>
    have g : c.Gains (fun _ => False) (·.source = .group) (c.addGroup cell name shape).2 :=
      ht.addGroup cell name shape
    exact .of_gains g hnext fun x => head?_of_face? ((SameCells.addGroup ..).faces x)
  | setShape port shape => exact same (ht.setShape port shape) (Nat.le_refl _) fun _ => rfl
  | setDirection port direction =>
    exact same (ht.setDirection port direction) (Nat.le_refl _) fun _ => rfl
  | setCellTiming cell timing =>
    refine same (ht.setCellTiming cell timing) (Nat.le_refl _) fun x => ?_
    exact OrderedMap.map_find?_modify (g := Cell.head)
      (f := fun y => { y with timing := some timing }) (fun _ => rfl) c.cells cell x
  | setPortTiming port timing =>
    exact same (ht.setPortTiming port timing) (Nat.le_refl _) fun _ => rfl
  | recordTimingMaster | recordBoundary | clearBoundaries | forgetBoundary =>
    exact ⟨Nat.le_refl _, fun _ _ => id, fun _ _ => id, fun _ _ => id⟩
  | removeLibrary id => exact hk.elim

end Catalog

namespace Inventory

variable {s : Inventory} {c : Catalog}

theorem not_of_unique {κ α : Type} [DecidableEq κ] {m : OrderedMap κ α} {k : κ}
    (hk : m.find? k = none) {a : α} {R : α → α → Prop}
    (unique : ∀ ⦃x x' b b'⦄, (m.insert k a).find? x = some b → (m.insert k a).find? x' = some b' →
      R b b' → x = x') {x : κ} {b : α} (hx : m.find? x = some b) : ¬R b a := by
  intro hR
  have hne : x ≠ k := by
    rintro rfl
    cases hk.symm.trans hx
  refine hne (unique ?_ ?_ hR)
  · rw [OrderedMap.find?_insert, if_neg hne, hx]
  · rw [OrderedMap.find?_insert, if_pos rfl]

theorem Holds.call (h : s.Holds c) (hp : c.Placed) {k : Call} (hk : c.Admits k)
    (hd : (c.call k).Distinct) : (s.call k).Holds (c.call k) := by
  have hlibrary : c.libraries.find? ⟨c.count + 1⟩ = none := hp.tidy.libraries.find?_fresh rfl
  have hcell : c.cells.find? ⟨c.count + 1⟩ = none := hp.tidy.cells.find?_fresh rfl
  have hport : c.ports.find? ⟨c.count + 1⟩ = none := hp.tidy.ports.find?_fresh rfl
  cases k with
  | addLibrary name source =>
    exact h.addLibrary hp name fun l a hl =>
      not_of_unique (R := fun a b => a.source = b.source) hlibrary hd.libraries hl
  | addCell library name source =>
    refine h.addCell hp (fun x y hx hin hname => ?_) fun x y hx =>
      not_of_unique (R := fun y z => y.source = z.source) hcell hd.cells hx
    exact not_of_unique (R := fun y z => y.library = z.library ∧ y.name = z.name) hcell
      (fun _ _ _ _ hx hx' h => hd.cellNames hx hx' h.1 h.2) hx ⟨hin, hname⟩
  | addPort cell name source direction =>
    refine h.addPort hp (fun p q hq hin hname => ?_) (fun p q t ht hq hsource => ?_) direction
    · exact not_of_unique (R := fun q r => q.cell = r.cell ∧ q.name = r.name) hport
        (fun _ _ _ _ hq hq' h => hd.portNames hq hq' h.1 h.2) hq ⟨hin, hname⟩
    · exact not_of_unique (R := fun q r => q.source = .physical t ∧ r.source = .physical t) hport
        (fun _ _ _ _ hq hq' h => hd.mterms hq hq' h.1 h.2) hq ⟨hsource, ht⟩
  | addGroup cell name shape =>
    refine h.addGroup hp (fun p q hq hin hname => ?_) shape
    exact not_of_unique (R := fun q r => q.cell = r.cell ∧ q.name = r.name) hport
      (fun _ _ _ _ hq hq' h => hd.portNames hq hq' h.1 h.2) hq ⟨hin, hname⟩
  | setShape port shape => exact h.modifyPort (f := fun q => { q with shape }) (fun _ => rfl) port
  | setDirection port direction =>
    exact h.modifyPort (f := fun q => { q with direction }) (fun _ => rfl) port
  | setCellTiming cell timing => exact h.setCellTiming cell timing
  | setPortTiming port timing =>
    exact h.modifyPort (f := fun q => { q with timing := some timing }) (fun _ => rfl) port
  | recordTimingMaster library cell master => exact h.recordTimingMaster library cell master
  | recordBoundary module name b => exact h.recordBoundary module name b
  | clearBoundaries => exact h.clearBoundaries
  | forgetBoundary b => exact h.forgetBoundary hp b
  | removeLibrary id => exact hk.elim

end Inventory

namespace Catalog

variable {c c' c'' : Catalog}

def Fills : Catalog → Catalog → Prop := ReflTransGen fun c c' => ∃ k, c.Admits k ∧ c' = c.call k

theorem Fills.refl (c : Catalog) : c.Fills c := ReflTransGen.refl

theorem Fills.trans (h : c.Fills c') (h' : c'.Fills c'') : c.Fills c'' := ReflTransGen.trans h h'

theorem Fills.call {k : Inventory.Call} (hk : c.Admits k) : c.Fills (c.call k) :=
  ReflTransGen.single ⟨k, hk, rfl⟩

theorem Fills.retains (hf : c.Fills c') (h : c.Placed) : c'.Placed ∧ c.Retains c' := by
  induction hf with
  | refl => exact ⟨h, .refl c⟩
  | tail _ hcall ih =>
    obtain ⟨k, hk, rfl⟩ := hcall
    exact ⟨ih.1.call hk, ih.2.trans (ih.1.retains hk)⟩

end Catalog

namespace Inventory

variable {s : Inventory} {c c' c'' : Catalog} {calls more : List Call}

/-- Calls, made one after the other, lead from one catalog to the other. With each of them, any
inventory that holds the first catalog goes on to hold what the catalog has become. -/
structure Leads (calls : List Call) (c c' : Catalog) : Prop where
  catalog : calls.foldl Catalog.call c = c'
  holds : ∀ ⦃s : Inventory⦄, s.Holds c → ∀ i,
    ((calls.take i).foldl Inventory.call s).Holds ((calls.take i).foldl Catalog.call c)
  placed : c'.Placed

theorem Leads.last (h : Leads calls c c') (hs : s.Holds c) :
    (calls.foldl Inventory.call s).Holds c' := by
  have hall := h.holds hs calls.length
  rwa [List.take_length, h.catalog] at hall

theorem leads_nil (h : c.Placed) : Leads [] c c :=
  ⟨rfl, fun _ hs _ => List.take_nil.symm ▸ hs, h⟩

theorem leads_singleton {k : Call} (h : (c.call k).Placed)
    (hs : ∀ s : Inventory, s.Holds c → (s.call k).Holds (c.call k)) :
    Leads [k] c (c.call k) := by
  refine ⟨rfl, fun s hc i => ?_, h⟩
  cases i with
  | zero => exact hc
  | succ i =>
    rw [List.take_succ_cons, List.take_nil]
    exact hs s hc

theorem Leads.trans (h : Leads calls c c') (h' : Leads more c' c'') :
    Leads (calls ++ more) c c'' := by
  refine ⟨?_, fun s hs i => ?_, h'.placed⟩
  · rw [List.foldl_append, h.catalog, h'.catalog]
  · rcases Nat.le_total i calls.length with hi | hi
    · rw [List.take_append_of_le_length hi]
      exact h.holds hs i
    · rw [List.take_append, List.take_of_length_le hi, List.foldl_append, List.foldl_append,
        h.catalog]
      exact h'.holds (h.last hs) _

end Inventory

namespace Catalog

variable {c c' c'' : Catalog}

def Led (c c' : Catalog) : Prop := ∃ calls, Inventory.Leads calls c c'

theorem Led.refl (h : c.Placed) : c.Led c := ⟨[], Inventory.leads_nil h⟩

theorem Led.placed (h : c.Led c') : c'.Placed := h.elim fun _ h => h.placed

theorem Led.trans (h : c.Led c') (h' : c'.Led c'') : c.Led c'' := by
  obtain ⟨calls, hcalls⟩ := h
  obtain ⟨more, hmore⟩ := h'
  exact ⟨calls ++ more, hcalls.trans hmore⟩

theorem Led.fills (h : c.Led c') (hf : c'.Fills c'') (hd : c''.Distinct) : c.Led c'' := by
  induction hf with
  | refl => exact h
  | tail hf hcall ih =>
    obtain ⟨k, hk, rfl⟩ := hcall
    have hplaced := (Fills.retains hf h.placed).1
    have hbefore := ih (hd.of_retains (hplaced.retains hk))
    exact hbefore.trans ⟨[k], Inventory.leads_singleton (hplaced.call hk) fun s hs =>
      hs.call hplaced hk hd⟩

theorem Placed.removeLibrary (h : c.Placed) (l : LibraryId) : (c.removeLibrary l).Placed := by
  refine ⟨h.tidy.removeLibrary l, fun x k hx => ?_, fun p k hp => ?_, h.boundaries⟩
  · exact h.libraries (h.tidy.cellLabel?_removeLibrary.1 hx).1
  · exact h.cells (h.tidy.portLabel?_removeLibrary.1 hp).1

theorem Led.removeLibrary (h : c.Led c') (hi : c'.Intact)
    (hmodules : ∀ x x' y y' m m', c'.cells.find? x = some y → c'.cells.find? x' = some y' →
      y.source = .module m → y'.source = .module m' → y.library = y'.library)
    {l : LibraryId} {a : Library} (hl : c'.libraries.find? l = some a) :
    c.Led (c'.removeLibrary l) :=
  h.trans ⟨[.removeLibrary l], Inventory.leads_singleton (k := .removeLibrary l)
    (h.placed.removeLibrary l) fun _ hs => hs.removeLibrary hi hmodules hl⟩

end Catalog
end DesignView
