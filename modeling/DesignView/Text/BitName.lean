/-!
Names of bus bits. A bit name is the name of its bus followed by an index in square or angle
brackets; the bus is not empty and holds no line break, and the index is a number of ASCII digits
below `2 ^ 63`.
-/

namespace DesignView

inductive Bracket where
  | square | angle
  deriving DecidableEq

namespace Bracket

def opening : Bracket → Char
  | square => '['
  | angle => '<'

def closing : Bracket → Char
  | square => ']'
  | angle => '>'

def ofClosing? (c : Char) : Option Bracket :=
  if c = square.closing then some square else if c = angle.closing then some angle else none

end Bracket

namespace BitName

def decimal (digits : List Char) : Nat := digits.foldl (fun n c => 10 * n + (c.toNat - 48)) 0

def maxIndex : Nat := 9223372036854775807

def splitChars (cs : List Char) : Option (List Char × Nat) := do
  let close :: rest := cs.reverse | none
  let bracket ← Bracket.ofClosing? close
  let digits := (rest.takeWhile Char.isDigit).reverse
  let opening :: bus := rest.dropWhile Char.isDigit | none
  if opening = bracket.opening ∧ digits ≠ [] ∧ bus ≠ [] ∧ '\n' ∉ bus ∧
      decimal digits ≤ maxIndex then
    some (bus.reverse, decimal digits)
  else none

/-- The bus and the index of a bit name, or `none` if the name is no bit name. -/
def parse? (name : String) : Option (String × Nat) :=
  (splitChars name.toList).map fun (bus, index) => (String.ofList bus, index)

def write (bracket : Bracket) (bus : String) (index : Nat) : String :=
  bus ++ String.singleton bracket.opening ++ toString index ++ String.singleton bracket.closing

end BitName
end DesignView
