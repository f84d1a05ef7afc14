/-!
Patterns of characters, matched by backtracking. The ways to match the start of a text are listed in
order of preference: a run takes as many characters as it can and gives them back one by one, and of
two alternatives the left one goes first. A whole text is matched in the first way that leaves
nothing of it.
-/

namespace DesignView

inductive Pattern where
  | one (set : Char → Bool)
  | run (set : Char → Bool)
  | seq (first second : Pattern)
  | either (left right : Pattern)
  | group (pattern : Pattern)

namespace Pattern

structure Way where
  matched : List Char
  captures : List (List Char) := []
  rest : List Char

/-- The runs at the start of a text, the longest one first. -/
def runs (set : Char → Bool) : List Char → List Way
  | [] => []
  | c :: cs =>
    if set c then
      (runs set cs).map (fun w => { w with matched := c :: w.matched }) ++
        [{ matched := [c], rest := cs }]
    else []

def ways : Pattern → List Char → List Way
  | one _, [] => []
  | one set, c :: cs => if set c then [{ matched := [c], rest := cs }] else []
  | run set, cs => runs set cs
  | seq first second, cs => (first.ways cs).flatMap fun w =>
    (second.ways w.rest).map fun v => ⟨w.matched ++ v.matched, w.captures ++ v.captures, v.rest⟩
  | either left right, cs => left.ways cs ++ right.ways cs
  | group pattern, cs =>
    (pattern.ways cs).map fun w => { w with captures := w.matched :: w.captures }

def captures (pattern : Pattern) (text : List Char) : Option (List (List Char)) :=
  ((pattern.ways text).find? fun w => w.rest = []).map (·.captures)

end Pattern
end DesignView
