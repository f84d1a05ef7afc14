import DesignView.Handle
import DesignView.Proofs.Physical.WellFormed
import Mathlib.Logic.Relation

/-!
Which nets are joined to each other. A pin of a module instance faces the boundary terminal of its
name inside the module, and the nets of two pins that face each other are joined. The relation is
read off the tables alone and is the same in both directions.
-/

namespace DesignView.Design

open Relation (ReflTransGen)

variable {d d' : Design} {p q : Pin} {a b x y : Net}

def flatNet? (d : Design) : Pin → Option NetId
  | .flat t => d.itermNets.netOf t
  | .boundary t => d.btermNets.netOf t
  | .module _ | .moduleBoundary _ => none

def moduleNet? (d : Design) : Pin → Option ModNetId
  | .flat t => d.itermModNets.netOf t
  | .boundary t => d.btermModNets.netOf t
  | .module t => d.modITermNets.netOf t
  | .moduleBoundary t => d.modBTermNets.netOf t

def On (d : Design) (p : Pin) : Net → Prop
  | .flat id => d.flatNet? p = some id
  | .module id => d.moduleNet? p = some id

def Live (d : Design) : Pin → Prop
  | .flat t => t ∈ d.iterms.ids
  | .boundary t => t ∈ d.bterms.ids
  | .module t => t ∈ d.modITerms.ids
  | .moduleBoundary t => t ∈ d.modBTerms.ids

def LiveNet (d : Design) : Net → Prop
  | .flat id => id ∈ d.nets.ids
  | .module id => id ∈ d.modNets.ids

theorem WellFormed.live_of_on (h : d.WellFormed) (hp : d.On p x) : d.Live p ∧ d.LiveNet x := by
  cases p <;> cases x
  case flat.flat => exact h.itermNets.live hp
  case flat.module => exact h.itermModNets.live hp
  case boundary.flat => exact h.btermNets.live hp
  case boundary.module => exact h.btermModNets.live hp
  case module.module => exact h.modITermNets.live hp
  case moduleBoundary.module => exact h.modBTermNets.live hp
  all_goals cases hp

def Opposite (d : Design) (t : ModITermId) (b : ModBTermId) : Prop :=
  ∃ outer inner i, d.modITerms.find? t = some outer ∧ d.modBTerms.find? b = some inner ∧
    d.modInsts.find? outer.modInst = some i ∧ i.master = inner.module ∧ outer.name = inner.name

/-- The pins are the two sides of one module boundary. -/
def Faces (d : Design) : Pin → Pin → Prop
  | .module t, .moduleBoundary b => d.Opposite t b
  | .moduleBoundary b, .module t => d.Opposite t b
  | _, _ => False

theorem Faces.symm (h : d.Faces p q) : d.Faces q p := by
  cases p <;> cases q <;> exact h

theorem Faces.hierarchical (h : d.Faces p q) : p.isHierarchical = true := by
  cases p with
  | flat | boundary => cases h
  | module | moduleBoundary => rfl

theorem Faces.live (h : d.Faces p q) : d.Live p := by
  cases p <;> cases q
  case module.moduleBoundary =>
    obtain ⟨_, _, _, ht, -⟩ := h
    exact Table.mem_ids_of_find? ht
  case moduleBoundary.module =>
    obtain ⟨_, _, _, -, hb, -⟩ := h
    exact Table.mem_ids_of_find? hb
  all_goals cases h

def Joins (d : Design) (x y : Net) : Prop := ∃ p q, d.On p x ∧ d.Faces p q ∧ d.On q y

/-- A walk through module boundaries leads from one net to the other. -/
def Joined (d : Design) : Net → Net → Prop := ReflTransGen d.Joins

/-- The pin is on a net that is joined to `a`. -/
def Reads (d : Design) (a : Net) (p : Pin) : Prop := ∃ x, d.Joined a x ∧ d.On p x

theorem Joins.symm (h : d.Joins x y) : d.Joins y x := by
  obtain ⟨p, q, hp, hf, hq⟩ := h
  exact ⟨q, p, hq, hf.symm, hp⟩

theorem Joined.symm (h : d.Joined a b) : d.Joined b a := by
  induction h with
  | refl => exact .refl
  | tail _ hj ih => exact .head hj.symm ih

theorem Joined.mem_of_closed {xs : List Net} (h : d.Joined a b)
    (hclosed : ∀ x ∈ xs, ∀ y, d.Joins x y → y ∈ xs) (ha : a ∈ xs) : b ∈ xs := by
  induction h with
  | refl => exact ha
  | tail _ hj ih => exact hclosed _ ih _ hj

theorem Reads.of_faces (h : d.Reads a p) (hf : d.Faces p q) (hq : d.On q y) : d.Reads a q := by
  obtain ⟨x, hx, hp⟩ := h
  exact ⟨y, hx.tail ⟨p, q, hp, hf, hq⟩, hq⟩

theorem joined_congr (h : ∀ x, d.Joined a x → d'.Joined a x → ∀ y, d.Joins x y ↔ d'.Joins x y) :
    d.Joined a b ↔ d'.Joined a b := by
  -- Every step has to be one of the other design too, so both walks are carried along.
  constructor
  · intro hb
    have both : d.Joined a b ∧ d'.Joined a b := by
      induction hb with
      | refl => exact ⟨.refl, .refl⟩
      | tail _ hj ih => exact ⟨ih.1.tail hj, ih.2.tail ((h _ ih.1 ih.2 _).1 hj)⟩
    exact both.2
  · intro hb
    have both : d.Joined a b ∧ d'.Joined a b := by
      induction hb with
      | refl => exact ⟨.refl, .refl⟩
      | tail _ hj ih => exact ⟨ih.1.tail ((h _ ih.1 ih.2 _).2 hj), ih.2.tail hj⟩
    exact both.1

structure Agree (d d' : Design) (touched : Pin → Prop) : Prop where
  on : ∀ ⦃p⦄, ¬touched p → ∀ x, d.On p x ↔ d'.On p x
  faces : ∀ ⦃p q⦄, ¬touched p → ¬touched q → (d.Faces p q ↔ d'.Faces p q)

namespace Agree

variable {touched : Pin → Prop}

theorem symm (h : d.Agree d' touched) : d'.Agree d touched :=
  ⟨fun _ hp x => (h.on hp x).symm, fun _ _ hp hq => (h.faces hp hq).symm⟩

theorem joins (h : d.Agree d' touched)
    (hread : ∀ p, touched p → p.isHierarchical = true → ¬d.Reads a p) (hx : d.Joined a x)
    (hj : d.Joins x y) : d'.Joins x y := by
  obtain ⟨p, q, hp, hf, hq⟩ := hj
  have hreadp : d.Reads a p := ⟨x, hx, hp⟩
  have hnp : ¬touched p := fun ht => hread p ht hf.hierarchical hreadp
  have hnq : ¬touched q := fun ht => hread q ht hf.symm.hierarchical (hreadp.of_faces hf hq)
  exact ⟨p, q, (h.on hnp x).1 hp, (h.faces hnp hnq).1 hf, (h.on hnq y).1 hq⟩

theorem joined_iff (h : d.Agree d' touched)
    (hread : ∀ p, touched p → p.isHierarchical = true → ¬d.Reads a p)
    (hread' : ∀ p, touched p → p.isHierarchical = true → ¬d'.Reads a p) :
    d.Joined a b ↔ d'.Joined a b :=
  joined_congr fun _ hx hx' _ => ⟨h.joins hread hx, h.symm.joins hread' hx'⟩

theorem reads_iff (h : d.Agree d' touched)
    (hread : ∀ p, touched p → p.isHierarchical = true → ¬d.Reads a p)
    (hread' : ∀ p, touched p → p.isHierarchical = true → ¬d'.Reads a p) (hp : ¬touched p) :
    d.Reads a p ↔ d'.Reads a p := by
  simp only [Reads, h.joined_iff hread hread', h.on hp]

end Agree
end DesignView.Design
