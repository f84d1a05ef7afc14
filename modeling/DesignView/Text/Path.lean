/-!
Hierarchical paths: segments joined by a divider character. Joining undoes splitting at the divider
(`join_split`), and splitting undoes joining when no segment holds the divider (`split_join`).
-/

namespace DesignView.Path

def join (divider : Char) : List String → String
  | [] => ""
  | [s] => s
  | s :: rest => s ++ String.singleton divider ++ join divider rest

def extend (divider : Char) (above name : String) : String :=
  above ++ String.singleton divider ++ name

def splitChars (divider : Char) : List Char → List (List Char)
  | [] => [[]]
  | c :: cs =>
    match splitChars divider cs with
    | [] => [[c]]
    | seg :: rest => if c = divider then [] :: seg :: rest else (c :: seg) :: rest

/-- The segments between the dividers of a path; a path without a divider is its own segment. -/
def split (divider : Char) (path : String) : List String :=
  (splitChars divider path.toList).map String.ofList

theorem splitChars_ne_nil (divider : Char) (cs : List Char) : splitChars divider cs ≠ [] := by
  cases cs with
  | nil => simp [splitChars]
  | cons c cs =>
    rw [splitChars]
    split
    · simp
    · split <;> simp

theorem splitChars_of_notMem {divider : Char} {cs : List Char} (h : divider ∉ cs) :
    splitChars divider cs = [cs] := by
  induction cs with
  | nil => rfl
  | cons c cs ih =>
    have hc : c ≠ divider := fun e => h (e ▸ List.mem_cons_self)
    rw [splitChars, ih (fun hm => h (List.mem_cons_of_mem _ hm))]
    simp [hc]

theorem splitChars_append {divider : Char} {seg : List Char} (h : divider ∉ seg) (cs : List Char) :
    splitChars divider (seg ++ divider :: cs) = seg :: splitChars divider cs := by
  induction seg with
  | nil =>
    rw [List.nil_append, splitChars]
    split
    · next e => exact absurd e (splitChars_ne_nil _ _)
    · next e => simp [e]
  | cons c seg ih =>
    have hc : c ≠ divider := fun e => h (e ▸ List.mem_cons_self)
    rw [List.cons_append, splitChars, ih (fun hm => h (List.mem_cons_of_mem _ hm))]
    simp [hc]

theorem split_join {divider : Char} {segs : List String} (hne : segs ≠ [])
    (h : ∀ s ∈ segs, divider ∉ s.toList) : split divider (join divider segs) = segs := by
  induction segs with
  | nil => exact absurd rfl hne
  | cons s rest ih =>
    have hs := h s List.mem_cons_self
    cases rest with
    | nil => simp [split, join, splitChars_of_notMem hs]
    | cons t rest =>
      have := ih (by simp) fun u hu => h u (List.mem_cons_of_mem _ hu)
      simp only [split] at this ⊢
      simp [join, String.toList_append, splitChars_append hs, this]

theorem join_append_head (divider : Char) (front s : String) (rest : List String) :
    join divider ((front ++ s) :: rest) = front ++ join divider (s :: rest) := by
  cases rest with
  | nil => rfl
  | cons t rest => simp only [join, String.append_assoc]

theorem join_split (divider : Char) (path : String) : join divider (split divider path) = path := by
  suffices hchars : ∀ cs : List Char,
      join divider ((splitChars divider cs).map String.ofList) = String.ofList cs by
    rw [split, hchars, String.ofList_toList]
  intro cs
  induction cs with
  | nil => rfl
  | cons c cs ih =>
    rw [splitChars, String.ofList_cons, ← ih]
    cases hsplit : splitChars divider cs with
    | nil => exact absurd hsplit (splitChars_ne_nil divider cs)
    | cons seg rest =>
      dsimp only
      by_cases hc : c = divider
      · have hempty : ("" : String) ++ String.singleton divider = String.singleton divider :=
          String.empty_append
        rw [if_pos hc, hc, ← hempty]
        rfl
      · rw [if_neg hc, List.map_cons, List.map_cons, String.ofList_cons, join_append_head]

end DesignView.Path
