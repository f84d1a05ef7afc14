import DesignView.Text.Glob

/-!
Expressions that are looked for in a text, as they are written. An expression is a row of items: the
two ends of the text, one character of a line or a run of them, and characters that stand for
themselves, escaped where they are read otherwise. It is found where its items cover a part of the
text one after the other. A glob pattern is searched for by way of such an expression.
-/

namespace DesignView

namespace Expression

inductive Item where
  | start
  | stop
  | anyOne
  | anyRun
  | literal (c : Char)
  | escaped (c : Char)
  deriving DecidableEq

def Item.text : Item → List Char
  | start => ['^']
  | stop => ['$']
  | anyOne => ['.']
  | anyRun => ['.', '*']
  | literal c => [c]
  | escaped c => ['\\', c]

def text (items : List Item) : List Char := items.flatMap Item.text

def Item.Covers (before matched after : List Char) : Item → Prop
  | start => before = [] ∧ matched = []
  | stop => matched = [] ∧ after = []
  | anyOne => matched.length = 1 ∧ '\n' ∉ matched
  | anyRun => '\n' ∉ matched
  | literal c | escaped c => matched = [c]

def Covers : List Item → (before matched after : List Char) → Prop
  | [], _, matched, _ => matched = []
  | i :: is, before, matched, after => ∃ m₁ m₂, matched = m₁ ++ m₂ ∧
      i.Covers before m₁ (m₂ ++ after) ∧ Covers is (before ++ m₁) m₂ after

def Found (items : List Item) (cs : List Char) : Prop :=
  ∃ before matched after, cs = before ++ matched ++ after ∧ Covers items before matched after

def replaceFrom (old new : List Char) : Nat → List Char → List Char
  | _, [] => []
  | inside + 1, _ :: cs => replaceFrom old new inside cs
  | 0, c :: cs =>
    if old.isPrefixOf (c :: cs) then new ++ replaceFrom old new (old.length - 1) cs
    else c :: replaceFrom old new 0 cs

def replace (old new cs : List Char) : List Char := replaceFrom old new 0 cs

/-- A library of expressions. It has characters that it reads otherwise than for themselves, writes
an expression for a given text, and makes a test of an expression that is not too large. -/
structure Engine where
  isMeta : Char → Bool
  escape : List Char → List Char
  compile? : List Char → Option (List Char → Bool)
  Fits : List Char → Prop

namespace Engine

/-- Whether an item is written so that it is read as meant. -/
def Admits (e : Engine) : Item → Prop
  | .literal c => e.isMeta c = false
  | .escaped c => e.isMeta c = true
  | .start | .stop | .anyOne | .anyRun => True

/-- What a library of expressions documents. -/
structure Conforms (e : Engine) : Prop where
  special : ∀ c ∈ ['\\', '^', '$', '.', '*', '?'], e.isMeta c = true
  escapes : ∀ cs, e.escape cs = cs.flatMap fun c => if e.isMeta c then ['\\', c] else [c]
  compiles : ∀ items, (∀ i ∈ items, e.Admits i) → e.Fits (text items) →
    (e.compile? (text items)).isSome
  finds : ∀ items test, (∀ i ∈ items, e.Admits i) → e.compile? (text items) = some test →
    ∀ cs, test cs = true ↔ Found items cs

/-- The expression for a glob pattern: all of it is escaped, then the wildcards are put in for what
they were escaped to, and the ends of the text are put around it. -/
def ofGlob (e : Engine) (pattern : List Char) : List Char :=
  let runs := replace ['\\', '*'] ['.', '*'] (e.escape pattern)
  '^' :: replace ['\\', '?'] ['.'] runs ++ ['$']

end Engine

def splits : List Char → List (List Char × List Char)
  | [] => [([], [])]
  | c :: cs => ([], c :: cs) :: (splits cs).map fun s => (c :: s.1, s.2)

theorem mem_splits {xs ys cs : List Char} : (xs, ys) ∈ splits cs ↔ cs = xs ++ ys := by
  induction cs generalizing xs with
  | nil => simp [splits, eq_comm]
  | cons c cs ih =>
    cases xs with
    | nil => simp [splits, eq_comm]
    | cons x xs => simpa [splits, ih, ← and_assoc] using and_comm

theorem exists_split_iff (cs : List Char) {p : List Char → List Char → Prop} :
    (∃ s ∈ splits cs, p s.1 s.2) ↔ ∃ xs ys, cs = xs ++ ys ∧ p xs ys := by
  simp only [Prod.exists, mem_splits]

instance Item.decidableCovers (before matched after : List Char) :
    (i : Item) → Decidable (i.Covers before matched after)
  | .start | .stop | .anyOne => inferInstanceAs (Decidable (_ ∧ _))
  | .anyRun => inferInstanceAs (Decidable (¬ _))
  | .literal _ | .escaped _ => inferInstanceAs (Decidable (_ = _))

instance decidableCovers : (items : List Item) → (before matched after : List Char) →
    Decidable (Covers items before matched after)
  | [], _, matched, _ => inferInstanceAs (Decidable (matched = []))
  | _ :: is, _, matched, _ =>
    have := decidableCovers is
    decidable_of_iff _ (exists_split_iff matched)

instance (items : List Item) (cs : List Char) : Decidable (Found items cs) :=
  decidable_of_iff
    (∃ s ∈ splits cs, ∃ t ∈ splits s.2, Covers items s.1 t.1 t.2) <| by
      simp only [Found, Prod.exists, mem_splits]
      constructor
      · rintro ⟨before, rest, rfl, matched, after, rfl, h⟩
        exact ⟨before, matched, after, (List.append_assoc ..).symm, h⟩
      · rintro ⟨before, matched, after, rfl, h⟩
        exact ⟨before, _, List.append_assoc .., matched, after, rfl, h⟩

def isReserved (c : Char) : Bool := c ∈ "\\.+*?()|[]\x7b\x7d^$#&-~".toList

def read? : List Char → Option (List Item)
  | [] => some []
  | '^' :: cs => (read? cs).map (.start :: ·)
  | '$' :: cs => (read? cs).map (.stop :: ·)
  | '.' :: '*' :: cs => (read? cs).map (.anyRun :: ·)
  | '.' :: cs => (read? cs).map (.anyOne :: ·)
  | '\\' :: c :: cs => if isReserved c then (read? cs).map (.escaped c :: ·) else none
  | c :: cs => if isReserved c then none else (read? cs).map (.literal c :: ·)

def Engine.exhaustive : Engine where
  isMeta := isReserved
  escape cs := cs.flatMap fun c => if isReserved c then ['\\', c] else [c]
  compile? cs := (read? cs).map fun items cs => Found items cs
  Fits _ := True

end Expression
end DesignView
