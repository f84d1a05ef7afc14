import DesignView.Container.OrderedMap
import DesignView.Object

/-!
Attachments of terminals to nets. A terminal is on at most one net of a kind, and a net lists its
terminals in the order in which they were attached; attaching a terminal anew puts it at the end.
-/

namespace DesignView

/-- Which net each terminal of one kind is on, oldest attachment first. -/
abbrev Attachments (t n : Kind) := OrderedMap (Id t) (Id n)

namespace Attachments

variable {t n : Kind}

def netOf (a : Attachments t n) (x : Id t) : Option (Id n) := a.find? x

def members (a : Attachments t n) (y : Id n) : List (Id t) :=
  (a.entries.filter fun e => e.2 = y).map (·.1)

def detach (a : Attachments t n) (x : Id t) : Attachments t n := a.erase x

def detachAll (a : Attachments t n) (xs : List (Id t)) : Attachments t n := xs.foldl detach a

def attach (a : Attachments t n) (x : Id t) (y : Id n) : Attachments t n := (a.detach x).insert x y

def clearNet (a : Attachments t n) (y : Id n) : Attachments t n := a.filter fun _ z => z ≠ y

/-- Takes `x` off its net and, if `live` says that both ends exist, attaches it to `y`. -/
def move (a : Attachments t n) (x : Id t) (y : Id n) (live : Bool) : Attachments t n :=
  if live then a.attach x y else a.detach x

end Attachments
end DesignView
