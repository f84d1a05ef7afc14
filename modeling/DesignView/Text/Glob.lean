/-!
Glob patterns. A star stands for any run of characters of one line, a question mark for one
character of a line, and every other character for itself; a pattern has to cover the whole text
(`Matches`).
-/

namespace DesignView

inductive Wildcard where
  | anyRun
  | anyOne
  | exactly (c : Char)
  deriving DecidableEq

namespace Glob

def ofChar : Char → Wildcard
  | '*' => .anyRun
  | '?' => .anyOne
  | c => .exactly c

def ofString (pattern : String) : List Wildcard := pattern.toList.map ofChar

inductive Matches : List Wildcard → List Char → Prop where
  | done : Matches [] []
  | endRun {ws cs} : Matches ws cs → Matches (.anyRun :: ws) cs
  | stepRun {ws c cs} : c ≠ '\n' → Matches (.anyRun :: ws) cs → Matches (.anyRun :: ws) (c :: cs)
  | one {ws c cs} : c ≠ '\n' → Matches ws cs → Matches (.anyOne :: ws) (c :: cs)
  | exact {ws c cs} : Matches ws cs → Matches (.exactly c :: ws) (c :: cs)

/-- For a text, which of its suffixes a pattern covers, longest suffix first. -/
abbrev Coverage := List Bool

def coverEmpty : List Char → Coverage
  | [] => [true]
  | _ :: cs => false :: coverEmpty cs

def cover (w : Wildcard) : List Char → Coverage → Coverage
  | [], next => [w = .anyRun && next.headD false]
  | c :: cs, next =>
    let rest := cover w cs next.tail
    let here :=
      match w with
      | .anyRun => next.headD false || (c ≠ '\n' && rest.headD false)
      | .anyOne => c ≠ '\n' && next.tail.headD false
      | .exactly x => c = x && next.tail.headD false
    here :: rest

/-- The coverage of a pattern. The work grows with the product of the lengths of pattern and text.
-/
def coverage : List Wildcard → List Char → Coverage
  | [], cs => coverEmpty cs
  | w :: ws, cs => cover w cs (coverage ws cs)

def isMatch (pattern : List Wildcard) (cs : List Char) : Bool := (coverage pattern cs).headD false

theorem tail_coverage (pattern : List Wildcard) (c : Char) (cs : List Char) :
    (coverage pattern (c :: cs)).tail = coverage pattern cs := by
  induction pattern with
  | nil => rfl
  | cons w ws ih => simp only [coverage, cover, List.tail_cons, ih]

theorem isMatch_nil (w : Wildcard) (ws : List Wildcard) :
    isMatch (w :: ws) [] = (w = .anyRun && isMatch ws []) := rfl

theorem isMatch_anyRun (ws : List Wildcard) (c : Char) (cs : List Char) :
    isMatch (.anyRun :: ws) (c :: cs) =
      (isMatch ws (c :: cs) || (c ≠ '\n' && isMatch (.anyRun :: ws) cs)) := by
  simp only [isMatch, coverage, cover, tail_coverage, List.headD_cons]

theorem isMatch_anyOne (ws : List Wildcard) (c : Char) (cs : List Char) :
    isMatch (.anyOne :: ws) (c :: cs) = (c ≠ '\n' && isMatch ws cs) := by
  simp only [isMatch, coverage, cover, tail_coverage, List.headD_cons]

theorem isMatch_exactly (x : Char) (ws : List Wildcard) (c : Char) (cs : List Char) :
    isMatch (.exactly x :: ws) (c :: cs) = (c = x && isMatch ws cs) := by
  simp only [isMatch, coverage, cover, tail_coverage, List.headD_cons]

theorem isMatch_iff (pattern : List Wildcard) (cs : List Char) :
    isMatch pattern cs = true ↔ Matches pattern cs := by
  induction pattern generalizing cs with
  | nil =>
    cases cs with
    | nil => exact ⟨fun _ => .done, fun _ => rfl⟩
    | cons c cs => exact ⟨fun h => by simp [isMatch, coverage, coverEmpty] at h, nofun⟩
  | cons w ws ih =>
    induction cs with
    | nil =>
      rw [isMatch_nil, Bool.and_eq_true, decide_eq_true_eq, ih]
      constructor
      · rintro ⟨rfl, h⟩
        exact .endRun h
      · intro h
        cases h with
        | endRun h => exact ⟨rfl, h⟩
    | cons c cs ihc =>
      cases w with
      | anyRun =>
        rw [isMatch_anyRun, Bool.or_eq_true, Bool.and_eq_true, decide_eq_true_eq, ih, ihc]
        constructor
        · rintro (h | ⟨hc, h⟩)
          · exact .endRun h
          · exact .stepRun hc h
        · intro h
          cases h with
          | endRun h => exact .inl h
          | stepRun hc h => exact .inr ⟨hc, h⟩
      | anyOne =>
        rw [isMatch_anyOne, Bool.and_eq_true, decide_eq_true_eq, ih]
        constructor
        · rintro ⟨hc, h⟩
          exact .one hc h
        · intro h
          cases h with
          | one hc h => exact ⟨hc, h⟩
      | exactly x =>
        rw [isMatch_exactly, Bool.and_eq_true, decide_eq_true_eq, ih]
        constructor
        · rintro ⟨rfl, h⟩
          exact .exact h
        · intro h
          cases h with
          | exact h => exact ⟨rfl, h⟩

end Glob
end DesignView
