import DesignView.Physical.Records
import DesignView.Proofs.Container.View
import DesignView.Proofs.Physical.TwoEnds

/-!
Connecting in records. The fields of the terminals and the lists of the nets hold the two ends of
attachments; what an edit writes into the records is what it does to the two ends.
-/

namespace DesignView

namespace Slot

variable {σ α β : Type} {x : Slot σ α} {y : Slot σ β}

theorem get_modify (x : Slot σ α) (f : α → α) (s : σ) : x.get (x.modify f s) = f (x.get s) :=
  x.get_put _ s

theorem modify_modify (x : Slot σ α) (f g : α → α) (s : σ) :
    x.modify f (x.modify g s) = x.modify (fun a => f (g a)) s := by
  rw [modify, get_modify]
  exact x.put_put _ _ s

theorem modify_put (x : Slot σ α) (f : α → α) (a : α) (s : σ) :
    x.modify f (x.put a s) = x.put (f a) s := by
  rw [modify, x.get_put, x.put_put]

namespace Apart

theorem get_modify (h : x.Apart y) (f : β → β) (s : σ) : x.get (y.modify f s) = x.get s :=
  h.get_put _ s

theorem get_modify' (h : x.Apart y) (f : α → α) (s : σ) : y.get (x.modify f s) = y.get s :=
  h.get_put' _ s

theorem modify_comm (h : x.Apart y) (f : α → α) (g : β → β) (s : σ) :
    x.modify f (y.modify g s) = y.modify g (x.modify f s) := by
  rw [modify, h.get_modify, modify, h.comm, modify, modify, h.get_put']

end Apart
end Slot

namespace Records.Link

variable {t n : Kind} {τ ν : Type} (l : Link t n τ ν) (e : TwoEnds t n) (b : Block)

/-- Writes both ends of the attachments into the records. -/
def fill (e : TwoEnds t n) (b : Block) : Block :=
  l.nets.modify (·.view fun y a => l.members.put (e.terms y) a)
    (l.terms.modify (·.view fun x a => l.net.put (e.net x) a) b)

theorem terms_fill :
    l.terms.get (l.fill e b) = (l.terms.get b).view fun x a => l.net.put (e.net x) a := by
  rw [fill, l.apart.get_modify, Slot.get_modify]

theorem nets_fill :
    l.nets.get (l.fill e b) = (l.nets.get b).view fun y a => l.members.put (e.terms y) a := by
  rw [fill, Slot.get_modify, l.apart.get_modify']

theorem modify_term_fill (x : Id t) (net? : Option (Id n)) :
    l.terms.modify (·.modify x (l.net.put net?)) (l.fill e b) = l.fill (e.setNet x net?) b := by
  rw [fill, l.apart.modify_comm, Slot.modify_modify, fill]
  simp only [Table.modify_view, TwoEnds.setNet]
  congr 2
  funext ts
  congr 1
  funext z a
  split
  · exact l.net.put_put ..
  · rfl

theorem modify_net_fill (y : Id n) (f : List (Id t) → List (Id t)) :
    l.nets.modify (·.modify y (l.members.modify f)) (l.fill e b) =
      l.fill (e.setTerms y (f (e.terms y))) b := by
  rw [fill, Slot.modify_modify, fill]
  simp only [Table.modify_view, Slot.modify_put, TwoEnds.setTerms]
  congr 1
  funext ns
  congr 1
  funext z a
  split
  · next hz => rw [hz]
  · rfl

theorem fill_setTerms_of_dead {y : Id n} (hy : y ∉ (l.nets.get b).ids) (xs : List (Id t)) :
    l.fill (e.setTerms y xs) b = l.fill e b := by
  have hnets : ((l.nets.get b).view fun z a => l.members.put ((e.setTerms y xs).terms z) a) =
      (l.nets.get b).view fun z a => l.members.put (e.terms z) a := by
    refine Table.view_congr fun z hz _ => ?_
    have hne : z ≠ y := fun heq => hy (heq ▸ hz)
    exact congrArg (l.members.put · _) (if_neg hne)
  simp only [fill, Slot.modify, l.apart.get_put', hnets]
  rfl

theorem disconnect_fill {x : Id t} (hx : ∀ y, e.net x = some y → x ∈ (l.terms.get b).ids) :
    l.disconnect x (l.fill e b) = l.fill (e.disconnect x) b := by
  rw [disconnect, terms_fill, Table.find?_view, TwoEnds.disconnect]
  cases hfind : (l.terms.get b).find? x with
  | none =>
    cases hnet : e.net x with
    | none => rfl
    | some y => exact absurd (hx y hnet) (Table.find?_eq_none_iff.1 hfind)
  | some a =>
    simp only [Option.map_some, l.net.get_put, modify_term_fill]
    cases hnet : e.net x with
    | none =>
      have hsame : e.setNet x none = e := by
        simp only [TwoEnds.setNet]
        congr 1
        funext z
        split
        · next hz => rw [hz, hnet]
        · rfl
      rw [hsame]
    | some y => exact l.modify_net_fill (e.setNet x none) b y (·.erase x)

theorem connect_fill {x : Id t} (hx : ∀ y, e.net x = some y → x ∈ (l.terms.get b).ids) (y : Id n) :
    l.connect x y (l.fill e b) =
      l.fill (e.connect x y ((l.terms.get b).contains x && (l.nets.get b).contains y)) b := by
  simp only [connect, l.disconnect_fill e b hx, terms_fill, nets_fill, Table.contains_view,
    modify_term_fill, modify_net_fill, TwoEnds.connect]
  split
  · rfl
  · rfl

theorem release_fill (xs : List (Id t)) :
    l.release xs (l.fill e b) = l.fill (xs.foldl (fun e x => e.setNet x none) e) b := by
  induction xs generalizing e with
  | nil => rfl
  | cons x xs ih =>
    rw [List.foldl_cons, ← ih, ← modify_term_fill]
    rfl

section Apart

variable {α : Type} {z : Slot Block α} {l} {b}

theorem modify_disconnect (ht : z.Apart l.terms) (hn : z.Apart l.nets) (f : α → α) (x : Id t) :
    z.modify f (l.disconnect x b) = l.disconnect x (z.modify f b) := by
  simp only [disconnect, ht.get_modify']
  split
  · rfl
  · split
    · exact ht.modify_comm ..
    · rw [hn.modify_comm, ht.modify_comm]

theorem modify_release (ht : z.Apart l.terms) (f : α → α) (xs : List (Id t)) :
    z.modify f (l.release xs b) = l.release xs (z.modify f b) := by
  induction xs generalizing b with
  | nil => rfl
  | cons x xs ih =>
    show z.modify f (l.release xs (l.terms.modify (·.modify x (l.net.put none)) b)) =
      l.release xs (l.terms.modify (·.modify x (l.net.put none)) (z.modify f b))
    rw [ih, ht.modify_comm]

end Apart

end Records.Link
end DesignView
