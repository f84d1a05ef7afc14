import DesignView.Text.Expression
import Mathlib.Data.List.Basic

/-!
The expression for a glob pattern. Escaping writes a row of items, one for each character of the
pattern. A place where an escaped character stands in the text of such a row is an item of its own,
whatever comes before it: the character behind a backslash belongs to the backslash, and no item
starts with a character that is escaped. Putting a wildcard in is therefore a change of items, and
what is found by them is what the pattern covers.
-/

namespace DesignView

def Wildcard.Covers (cs : List Char) : Wildcard → Prop
  | anyRun => '\n' ∉ cs
  | anyOne => cs.length = 1 ∧ '\n' ∉ cs
  | exactly c => cs = [c]

namespace Glob

instance (ws : List Wildcard) (cs : List Char) : Decidable (Matches ws cs) :=
  decidable_of_iff _ (isMatch_iff ws cs)

theorem matches_nil_iff {cs : List Char} : Matches [] cs ↔ cs = [] := by
  constructor
  · rintro ⟨⟩
    rfl
  · rintro rfl
    exact .done

theorem Matches.run {ws : List Wildcard} {xs ys : List Char} (hxs : '\n' ∉ xs)
    (h : Matches ws ys) : Matches (.anyRun :: ws) (xs ++ ys) := by
  induction xs with
  | nil => exact .endRun h
  | cons x xs ih =>
    obtain ⟨hx, hxs⟩ := not_or.1 (mt List.mem_cons.2 hxs)
    exact .stepRun (Ne.symm hx) (ih hxs)

theorem Matches.exists_run {ws : List Wildcard} {cs : List Char} (h : Matches (.anyRun :: ws) cs) :
    ∃ xs ys, cs = xs ++ ys ∧ '\n' ∉ xs ∧ Matches ws ys := by
  induction cs with
  | nil =>
    cases h with
    | endRun h => exact ⟨[], [], rfl, List.not_mem_nil, h⟩
  | cons c cs ih =>
    cases h with
    | endRun h => exact ⟨[], c :: cs, rfl, List.not_mem_nil, h⟩
    | stepRun hc h =>
      obtain ⟨xs, ys, rfl, hxs, h⟩ := ih h
      exact ⟨c :: xs, ys, rfl, List.not_mem_cons_of_ne_of_not_mem (Ne.symm hc) hxs, h⟩

theorem matches_cons_iff {w : Wildcard} {ws : List Wildcard} {cs : List Char} :
    Matches (w :: ws) cs ↔ ∃ xs ys, cs = xs ++ ys ∧ w.Covers xs ∧ Matches ws ys := by
  constructor
  · intro h
    cases w with
    | anyRun => exact h.exists_run
    | anyOne =>
      cases h with
      | one hc h => exact ⟨[_], _, rfl, ⟨rfl, by simpa [eq_comm] using hc⟩, h⟩
    | exactly c =>
      cases h with
      | exact h => exact ⟨[c], _, rfl, rfl, h⟩
  · rintro ⟨xs, ys, rfl, hw, h⟩
    cases w with
    | anyRun => exact h.run hw
    | anyOne =>
      obtain ⟨hlength, hline⟩ := hw
      obtain ⟨c, rfl⟩ := List.length_eq_one_iff.1 hlength
      exact .one (by simpa [eq_comm] using hline) h
    | exactly c =>
      obtain rfl : xs = [c] := hw
      exact .exact h

end Glob

namespace Expression

variable {e : Engine} {items : List Item} {c x : Char} {cs : List Char}

theorem replaceFrom_append (old new xs cs : List Char) :
    replaceFrom old new xs.length (xs ++ cs) = replace old new cs := by
  induction xs with
  | nil => rfl
  | cons x xs ih => exact ih

theorem replace_pair_cons (x : Char) (new cs : List Char) :
    replace ['\\', x] new ('\\' :: x :: cs) = new ++ replace ['\\', x] new cs := by
  have hstands : (['\\', x] : List Char).isPrefixOf ('\\' :: x :: cs) = true := by simp
  rw [replace, replaceFrom, if_pos hstands]
  exact congrArg (new ++ ·) (replaceFrom_append _ _ [x] cs)

theorem replace_pair_cons_of_ne {new : List Char} (h : c = '\\' → cs.head? ≠ some x) :
    replace ['\\', x] new (c :: cs) = c :: replace ['\\', x] new cs := by
  have hnot : ¬ (['\\', x] : List Char).isPrefixOf (c :: cs) := by
    intro hstands
    obtain ⟨hc, rest, rfl⟩ := List.cons_prefix_cons.1 (List.isPrefixOf_iff_prefix.1 hstands)
    exact h hc.symm rfl
  rw [replace, replaceFrom, if_neg hnot]
  rfl

@[simp] theorem text_cons (i : Item) (items : List Item) :
    text (i :: items) = i.text ++ text items := rfl

structure Inner (e : Engine) (x : Char) : Prop where
  escaped : e.isMeta x = true
  inner : x ∉ ['\\', '^', '$', '.']

def Item.instead (i : Item) (x : Char) (new : Item) : Item := if i = .escaped x then new else i

theorem head?_text_ne (hx : Inner e x) (h : ∀ i ∈ items, e.Admits i) :
    (text items).head? ≠ some x := by
  obtain ⟨hmeta, hinner⟩ := hx
  simp only [List.mem_cons, List.not_mem_nil, or_false, not_or] at hinner
  obtain ⟨hbackslash, hstart, hstop, hdot⟩ := hinner
  cases items with
  | nil => simp [text]
  | cons i items =>
    have hi := h i List.mem_cons_self
    cases i with
    | literal c =>
      rintro ⟨⟩
      exact absurd hmeta (by simpa [Engine.Admits] using hi)
    | start | stop | anyOne | anyRun | escaped => simp [Item.text, *, eq_comm]

theorem replace_text (hx : Inner e x) (h : ∀ i ∈ items, e.Admits i) (new : Item) :
    replace ['\\', x] new.text (text items) = text (items.map (·.instead x new)) := by
  induction items with
  | nil => rfl
  | cons i items ih =>
    have hrest : ∀ i ∈ items, e.Admits i := fun i hi => h i (List.mem_cons_of_mem _ hi)
    have hnext := head?_text_ne hx hrest
    rw [List.map_cons, text_cons, text_cons, ← ih hrest]
    by_cases hi : i = .escaped x
    · rw [hi, Item.instead, if_pos rfl]
      exact replace_pair_cons ..
    · rw [Item.instead, if_neg hi]
      -- Only a character that no other of its item follows could have `x` behind it, and no item
      -- starts with `x`.
      have hlast (c : Char) : replace ['\\', x] new.text (c :: text items) =
          c :: replace ['\\', x] new.text (text items) := replace_pair_cons_of_ne fun _ => hnext
      cases i with
      | start | stop | anyOne | literal c => exact hlast _
      | anyRun =>
        exact (replace_pair_cons_of_ne (by simp)).trans (congrArg _ (hlast '*'))
      | escaped c =>
        refine (replace_pair_cons_of_ne fun _ => ?_).trans (congrArg _ (hlast c))
        rintro ⟨⟩
        exact hi rfl

namespace Engine

def quote (e : Engine) (c : Char) : Item := if e.isMeta c then .escaped c else .literal c

def item (e : Engine) : Wildcard → Item
  | .anyRun => .anyRun
  | .anyOne => .anyOne
  | .exactly c => e.quote c

theorem admits_quote (e : Engine) (c : Char) : e.Admits (e.quote c) := by
  unfold quote
  split
  · assumption
  · exact Bool.eq_false_iff.2 ‹_›

theorem instead_quote (hx : e.isMeta x = true) (new : Item) :
    (e.quote c).instead x new = if c = x then new else e.quote c := by
  unfold Item.instead quote
  split
  · simp
  · have hne : c ≠ x := by
      rintro rfl
      contradiction
    simp [hne]

theorem admits_item (e : Engine) (w : Wildcard) : e.Admits (e.item w) := by
  cases w with
  | anyRun | anyOne => trivial
  | exactly c => exact e.admits_quote c

namespace Conforms

theorem inner (he : e.Conforms) (hx : x = '*' ∨ x = '?') : Inner e x := by
  constructor
  · apply he.special
    rcases hx with rfl | rfl <;> decide
  · rcases hx with rfl | rfl <;> decide

theorem escape_eq (he : e.Conforms) (pattern : List Char) :
    e.escape pattern = text (pattern.map e.quote) := by
  rw [he.escapes, text, List.flatMap_map]
  congr 1
  funext c
  unfold quote
  split <;> rfl

theorem instead_instead_quote (he : e.Conforms) (c : Char) :
    ((e.quote c).instead '*' .anyRun).instead '?' .anyOne = e.item (Glob.ofChar c) := by
  rw [instead_quote (he.inner (.inl rfl)).escaped]
  by_cases hrun : c = '*'
  · rw [if_pos hrun, hrun]
    rfl
  · rw [if_neg hrun, instead_quote (he.inner (.inr rfl)).escaped]
    by_cases hone : c = '?'
    · rw [if_pos hone, hone]
      rfl
    · have hself : Glob.ofChar c = .exactly c := by
        unfold Glob.ofChar
        split <;> first | contradiction | rfl
      rw [if_neg hone, hself]
      rfl

theorem ofGlob_eq (he : e.Conforms) (pattern : List Char) :
    e.ofGlob pattern = text (.start :: ((pattern.map Glob.ofChar).map e.item ++ [.stop])) := by
  have hquoted : ∀ i ∈ pattern.map e.quote, e.Admits i := by
    simp [e.admits_quote]
  have hruns : ∀ i ∈ (pattern.map e.quote).map (·.instead '*' .anyRun), e.Admits i := by
    intro i hi
    obtain ⟨q, hq, rfl⟩ := List.mem_map.1 hi
    unfold Item.instead
    split
    · trivial
    · exact hquoted q hq
  have h₁ := replace_text (he.inner (.inl rfl)) hquoted .anyRun
  have h₂ := replace_text (he.inner (.inr rfl)) hruns .anyOne
  have hitems : ((pattern.map e.quote).map (·.instead '*' .anyRun)).map (·.instead '?' .anyOne) =
      (pattern.map Glob.ofChar).map e.item := by
    simp only [List.map_map, Function.comp_def, he.instead_instead_quote]
  rw [hitems] at h₂
  simp only [Item.text] at h₁ h₂
  rw [ofGlob, he.escape_eq, h₁, h₂, text_cons]
  simp [text, Item.text]

end Conforms
end Engine

theorem covers_item {before matched after : List Char} (w : Wildcard) :
    (e.item w).Covers before matched after ↔ w.Covers matched := by
  cases w with
  | anyRun | anyOne => rfl
  | exactly c =>
    show (e.quote c).Covers before matched after ↔ matched = [c]
    unfold Engine.quote
    split <;> rfl

/-- Up to the end of a text, the items of a pattern cover what the pattern covers. -/
theorem covers_items {ws : List Wildcard} {before matched after : List Char} :
    Covers (ws.map e.item ++ [.stop]) before matched after ↔
      Glob.Matches ws matched ∧ after = [] := by
  induction ws generalizing before matched with
  | nil =>
    simp [Covers, Item.Covers, Glob.matches_nil_iff]
  | cons w ws ih =>
    simp only [List.map_cons, List.cons_append, Covers, covers_item, ih, Glob.matches_cons_iff]
    constructor
    · rintro ⟨xs, ys, hcut, hw, hws, hafter⟩
      exact ⟨⟨xs, ys, hcut, hw, hws⟩, hafter⟩
    · rintro ⟨⟨xs, ys, hcut, hw, hws⟩, hafter⟩
      exact ⟨xs, ys, hcut, hw, hws, hafter⟩

theorem found_items {ws : List Wildcard} :
    Found (.start :: (ws.map e.item ++ [.stop])) cs ↔ Glob.Matches ws cs := by
  constructor
  · rintro ⟨before, matched, after, rfl, xs, ys, rfl, ⟨rfl, rfl⟩, hitems⟩
    obtain ⟨hmatches, rfl⟩ := covers_items.1 hitems
    simpa using hmatches
  · intro h
    exact ⟨[], cs, [], by simp, [], cs, rfl, ⟨rfl, rfl⟩, covers_items.2 ⟨h, rfl⟩⟩

theorem Engine.Conforms.exists_test (he : e.Conforms) {pattern : List Char}
    (hfits : e.Fits (e.ofGlob pattern)) :
    ∃ test, e.compile? (e.ofGlob pattern) = some test ∧
      ∀ cs, test cs = Glob.isMatch (pattern.map Glob.ofChar) cs := by
  have hadmits : ∀ i ∈ .start :: ((pattern.map Glob.ofChar).map e.item ++ [.stop]),
      e.Admits i := by
    intro i hi
    rw [List.mem_cons, List.mem_append, List.mem_singleton] at hi
    rcases hi with rfl | hi | rfl
    · trivial
    · obtain ⟨w, -, rfl⟩ := List.mem_map.1 hi
      exact e.admits_item w
    · trivial
  have htext := he.ofGlob_eq pattern
  obtain ⟨test, htest⟩ := Option.isSome_iff_exists.1 (he.compiles _ hadmits (htext ▸ hfits))
  refine ⟨test, htext ▸ htest, fun cs => ?_⟩
  rw [Bool.eq_iff_iff, he.finds _ test hadmits htest, found_items, Glob.isMatch_iff]

theorem read?_literal (hc : isReserved c = false) :
    read? (c :: cs) = (read? cs).map (.literal c :: ·) := by
  have hne (x : Char) (hx : isReserved x = true) : c ≠ x := by
    rintro rfl
    exact absurd hx (by simp [hc])
  -- The equation for a character without a rule of its own.
  rw [read?]
  · simp [hc]
  · exact hne '^' rfl
  · exact hne '$' rfl
  · exact fun _ hdot => absurd hdot (hne '.' rfl)
  · exact hne '.' rfl
  · exact fun _ _ hbackslash => absurd hbackslash (hne '\\' rfl)

theorem read?_item {i : Item} (hi : Engine.exhaustive.Admits i) (hnext : cs.head? ≠ some '*') :
    read? (i.text ++ cs) = (read? cs).map (i :: ·) := by
  cases i with
  | start | stop | anyRun => rfl
  | anyOne =>
    show read? ('.' :: cs) = _
    rw [read?]
    rintro cs rfl
    exact hnext rfl
  | literal c => exact read?_literal hi
  | escaped c => exact if_pos (show isReserved c = true from hi)

theorem read?_text (h : ∀ i ∈ items, Engine.exhaustive.Admits i) :
    read? (text items) = some items := by
  induction items with
  | nil => rfl
  | cons i items ih =>
    have hrest : ∀ i ∈ items, Engine.exhaustive.Admits i :=
      fun i hi => h i (List.mem_cons_of_mem _ hi)
    have hnext : (text items).head? ≠ some '*' := head?_text_ne ⟨rfl, by decide⟩ hrest
    rw [text_cons, read?_item (h i List.mem_cons_self) hnext, ih hrest]
    rfl

theorem exhaustive_conforms : Engine.exhaustive.Conforms where
  special c hc := by
    simp only [List.mem_cons, List.not_mem_nil, or_false] at hc
    rcases hc with rfl | rfl | rfl | rfl | rfl | rfl <;> rfl
  escapes _ := rfl
  compiles items h _ := by
    simp [Engine.exhaustive, read?_text h]
  finds items test h htest cs := by
    have htest := htest
    simp only [Engine.exhaustive, read?_text h, Option.map_some, Option.some.injEq] at htest
    rw [← htest, decide_eq_true_iff]

end Expression
end DesignView
