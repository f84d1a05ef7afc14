import DesignView.Physical.TwoEnds
import DesignView.Proofs.Physical.Reference

/-!
Both ends of an attachment tell the same. Each edit of the two ends does to them what the edit of
the attachments does, so whatever edits are made, a terminal names a net exactly if the net lists
it, and it is listed once.
-/

namespace DesignView

namespace Attachments

variable {t n : Kind} {a : Attachments t n} {x : Id t} {y z : Id n}

theorem members_detach (h : a.keys.Nodup) (x : Id t) (y : Id n) :
    (a.detach x).members y = (a.members y).erase x := by
  rw [(nodup_members h y).erase_eq_filter]
  simp only [members, detach, OrderedMap.erase, List.filter_map, List.filter_filter]
  refine congrArg _ (List.filter_congr fun e _ => ?_)
  rw [Function.comp_apply, bne, Bool.and_comm, decide_not, beq_eq_decide]

theorem members_attach (a : Attachments t n) (x : Id t) (y z : Id n) :
    (a.attach x y).members z = (a.detach x).members z ++ if z = y then [x] else [] := by
  have hnew : ¬(a.detach x).contains x = true := by
    rw [OrderedMap.contains_iff, ← OrderedMap.find?_eq_none_iff]
    exact (netOf_detach a x x).trans (if_pos rfl)
  simp only [attach, OrderedMap.insert, if_neg hnew, members, List.filter_append, List.map_append,
    List.filter_singleton]
  by_cases hz : y = z
  · simp [hz]
  · simp [hz, Ne.symm hz]

theorem members_clearNet (a : Attachments t n) (y z : Id n) :
    (a.clearNet y).members z = if z = y then [] else a.members z := by
  simp only [members, clearNet, OrderedMap.filter, List.filter_filter]
  split
  · next hz =>
    rw [List.map_eq_nil_iff, List.filter_eq_nil_iff]
    intro e _ he
    simp only [Bool.and_eq_true, decide_eq_true_eq] at he
    exact he.2 (he.1.trans hz)
  · next hz =>
    refine congrArg _ (List.filter_congr fun e _ => ?_)
    by_cases he : e.2 = z
    · simp [he, hz]
    · simp [he]

theorem ends_detach (h : a.keys.Nodup) (x : Id t) : (a.detach x).ends = a.ends.disconnect x := by
  have hnet : (a.detach x).netOf = fun z => if z = x then none else a.netOf z :=
    funext (netOf_detach a x)
  have hterms : (a.detach x).members = fun y => (a.members y).erase x :=
    funext (members_detach h x)
  simp only [ends, TwoEnds.disconnect, hnet, hterms]
  cases hx : a.netOf x with
  | none =>
    -- The terminal is on no list either.
    have hoff (y : Id n) : x ∉ a.members y := fun hmem => by
      rw [mem_members h, hx] at hmem
      cases hmem
    simp only [List.erase_of_not_mem (hoff _), TwoEnds.mk.injEq, and_true]
    funext z
    split
    · next hz => rw [hz, hx]
    · rfl
  | some w =>
    simp only [TwoEnds.setNet, TwoEnds.setTerms, TwoEnds.mk.injEq, true_and]
    funext y
    split
    · next hy => rw [hy]
    · next hy =>
      refine List.erase_of_not_mem fun hmem => hy ?_
      rw [mem_members h, hx] at hmem
      exact (Option.some.inj hmem).symm

theorem ends_attach (h : a.keys.Nodup) (x : Id t) (y : Id n) :
    (a.attach x y).ends = a.ends.connect x y true := by
  have hdetached : (a.detach x).keys.Nodup := OrderedMap.keys_nodup_erase h x
  have hoff : x ∉ (a.detach x).members y := by
    rw [mem_members hdetached, netOf_detach, if_pos rfl]
    exact nofun
  simp only [TwoEnds.connect, if_true, ← ends_detach h]
  have hlist : (if x ∈ (a.detach x).ends.terms y then (a.detach x).ends.terms y
      else (a.detach x).ends.terms y ++ [x]) = (a.detach x).members y ++ [x] := if_neg hoff
  rw [hlist]
  simp only [ends, TwoEnds.setNet, TwoEnds.setTerms, TwoEnds.mk.injEq]
  refine ⟨funext fun z => ?_, funext fun z => ?_⟩
  · rw [netOf_attach, netOf_detach]
    split <;> rfl
  · rw [members_attach]
    split
    · next hz => rw [hz]
    · exact List.append_nil _

theorem ends_move (h : a.keys.Nodup) (x : Id t) (y : Id n) (live : Bool) :
    (a.move x y live).ends = a.ends.connect x y live := by
  cases live with
  | true => exact ends_attach h x y
  | false => exact ends_detach h x

theorem ends_detachAll (h : a.keys.Nodup) (xs : List (Id t)) :
    (a.detachAll xs).ends = xs.foldl TwoEnds.disconnect a.ends := by
  induction xs generalizing a with
  | nil => rfl
  | cons x xs ih =>
    rw [List.foldl_cons, ← ends_detach h]
    exact ih (OrderedMap.keys_nodup_erase h x)

end Attachments

namespace TwoEnds

variable {t n : Kind}

theorem foldl_setNet (e : TwoEnds t n) (xs : List (Id t)) :
    xs.foldl (fun e x => e.setNet x none) e =
      { e with net := fun z => if z ∈ xs then none else e.net z } := by
  induction xs generalizing e with
  | nil => simp
  | cons x xs ih =>
    rw [List.foldl_cons, ih]
    simp only [setNet, mk.injEq, and_true]
    funext z
    by_cases hx : z = x <;> simp [hx]

end TwoEnds

namespace Attachments

variable {t n : Kind} {a : Attachments t n} {x : Id t} {y : Id n}

theorem ends_clearNet (h : a.keys.Nodup) (y : Id n) : (a.clearNet y).ends = a.ends.dropNet y := by
  simp only [TwoEnds.dropNet, TwoEnds.foldl_setNet, TwoEnds.setTerms, ends, TwoEnds.mk.injEq]
  refine ⟨funext fun z => ?_, funext (members_clearNet a y)⟩
  have hnet : (a.clearNet y).netOf z = (a.netOf z).filter fun w => w ≠ y :=
    OrderedMap.find?_filter h ..
  rw [hnet]
  by_cases hz : z ∈ a.members y
  · rw [if_pos hz, (mem_members h).1 hz]
    simp
  · rw [if_neg hz]
    cases hw : a.netOf z with
    | none => rfl
    | some w =>
      have hne : w ≠ y := fun heq => hz ((mem_members h).2 (heq ▸ hw))
      exact Option.filter_some_pos (decide_eq_true hne)

theorem nodup_apply (h : a.keys.Nodup) (edit : TwoEnds.Edit t n) : (a.apply edit).keys.Nodup := by
  cases edit with
  | connect x y live =>
    cases live with
    | true => exact OrderedMap.keys_nodup_insert (OrderedMap.keys_nodup_erase h x) x y
    | false => exact OrderedMap.keys_nodup_erase h x
  | disconnect xs =>
    exact List.foldlRecOn (motive := fun a : Attachments t n => a.keys.Nodup) xs detach h
      fun a ha x _ => OrderedMap.keys_nodup_erase ha x
  | dropNet y => exact OrderedMap.keys_nodup_filter h _

theorem ends_apply (h : a.keys.Nodup) (edit : TwoEnds.Edit t n) :
    (a.apply edit).ends = a.ends.apply edit := by
  cases edit with
  | connect x y live => exact ends_move h x y live
  | disconnect xs => exact ends_detachAll h xs
  | dropNet y => exact ends_clearNet h y

theorem ends_run (h : a.keys.Nodup) (edits : List (TwoEnds.Edit t n)) :
    (edits.foldl apply a).keys.Nodup ∧
      (edits.foldl apply a).ends = edits.foldl TwoEnds.apply a.ends := by
  induction edits generalizing a with
  | nil => exact ⟨h, rfl⟩
  | cons edit edits ih =>
    rw [List.foldl_cons, List.foldl_cons, ← ends_apply h]
    exact ih (nodup_apply h edit)

end Attachments

/-- Whatever edits are made from nothing, the two ends mirror each other. -/
theorem TwoEnds.mirror {t n : Kind} (edits : List (TwoEnds.Edit t n)) (x : Id t) (y : Id n) :
    ((edits.foldl apply {}).net x = some y ↔ x ∈ (edits.foldl apply {}).terms y) ∧
      ((edits.foldl apply {}).terms y).Nodup := by
  have hempty : (({} : Attachments t n)).keys.Nodup := List.nodup_nil
  obtain ⟨hnodup, hends⟩ := Attachments.ends_run hempty edits
  have hrun : edits.foldl apply {} = (edits.foldl Attachments.apply {}).ends := hends.symm
  rw [hrun]
  exact ⟨(Attachments.mem_members hnodup).symm, Attachments.nodup_members hnodup y⟩

end DesignView
