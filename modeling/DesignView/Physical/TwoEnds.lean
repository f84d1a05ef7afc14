import DesignView.Physical.Attachment

/-!
Attachments as they are written at both ends. Every terminal has a field for its net, and every net
has a list of the terminals on it. An edit writes one end after the other, and nothing but these
writes keeps the ends together.
-/

namespace DesignView

structure TwoEnds (t n : Kind) where
  net : Id t → Option (Id n) := fun _ => none
  terms : Id n → List (Id t) := fun _ => []

namespace TwoEnds

variable {t n : Kind}

def setNet (e : TwoEnds t n) (x : Id t) (net? : Option (Id n)) : TwoEnds t n :=
  { e with net := fun z => if z = x then net? else e.net z }

def setTerms (e : TwoEnds t n) (y : Id n) (xs : List (Id t)) : TwoEnds t n :=
  { e with terms := fun w => if w = y then xs else e.terms w }

def disconnect (e : TwoEnds t n) (x : Id t) : TwoEnds t n :=
  match e.net x with
  | none => e
  | some y => (e.setNet x none).setTerms y ((e.terms y).erase x)

/-- Takes a terminal off its net, and if both ends exist puts it on the other one, at the end of the
list unless it is there. -/
def connect (e : TwoEnds t n) (x : Id t) (y : Id n) (live : Bool) : TwoEnds t n :=
  let e := e.disconnect x
  if live then
    (e.setNet x (some y)).setTerms y (if x ∈ e.terms y then e.terms y else e.terms y ++ [x])
  else e

def dropNet (e : TwoEnds t n) (y : Id n) : TwoEnds t n :=
  ((e.terms y).foldl (fun e x => e.setNet x none) e).setTerms y []

inductive Edit (t n : Kind)
  | connect (x : Id t) (y : Id n) (live : Bool)
  | disconnect (xs : List (Id t))
  | dropNet (y : Id n)

def apply (e : TwoEnds t n) : Edit t n → TwoEnds t n
  | .connect x y live => e.connect x y live
  | .disconnect xs => xs.foldl disconnect e
  | .dropNet y => e.dropNet y

end TwoEnds

namespace Attachments

variable {t n : Kind}

def apply (a : Attachments t n) : TwoEnds.Edit t n → Attachments t n
  | .connect x y live => a.move x y live
  | .disconnect xs => a.detachAll xs
  | .dropNet y => a.clearNet y

def ends (a : Attachments t n) : TwoEnds t n := ⟨a.netOf, a.members⟩

end Attachments
end DesignView
