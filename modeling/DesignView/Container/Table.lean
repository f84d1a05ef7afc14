import DesignView.Container.OrderedMap
import DesignView.Object

/-!
Tables that number the objects of one kind. A number given up by an erased object is handed out
again, smallest first, so that an insertion always takes the smallest number that is not in use.
-/

namespace DesignView

/-- The objects of kind `k`, in the order of their latest insertion. -/
structure Table (k : Kind) (α : Type) where
  objects : OrderedMap (Id k) α := {}
  free : List Nat := []
  last : Nat := 0

def insertAscending (n : Nat) : List Nat → List Nat
  | [] => [n]
  | m :: ms => if n ≤ m then n :: m :: ms else m :: insertAscending n ms

namespace Table

variable {k : Kind} {α : Type}

def entries (t : Table k α) : List (Id k × α) := t.objects.entries

def ids (t : Table k α) : List (Id k) := t.objects.keys

def size (t : Table k α) : Nat := t.objects.size

def find? (t : Table k α) (id : Id k) : Option α := t.objects.find? id

def contains (t : Table k α) (id : Id k) : Bool := t.objects.contains id

def select (t : Table k α) (p : α → Bool) : List (Id k × α) := t.entries.filter fun e => p e.2

def idsWhere (t : Table k α) (p : α → Bool) : List (Id k) := (t.select p).map (·.1)

def firstWhere? (t : Table k α) (p : α → Bool) : Option (Id k) := t.objects.firstKey? p

def modify (t : Table k α) (id : Id k) (f : α → α) : Table k α :=
  { t with objects := t.objects.modify id f }

def modifyWhere (t : Table k α) (p : α → Bool) (f : α → α) : Table k α :=
  { t with objects := ⟨t.entries.map fun e => if p e.2 then (e.1, f e.2) else e⟩ }

/-- Stores `a` under the smallest free number, or under the next new one if none is free. -/
def insert (t : Table k α) (a : α) : Id k × Table k α :=
  match t.free with
  | n :: rest => (⟨n⟩, { t with objects := t.objects.insert ⟨n⟩ a, free := rest })
  | [] =>
    (⟨t.last + 1⟩, { t with objects := t.objects.insert ⟨t.last + 1⟩ a, last := t.last + 1 })

def erase (t : Table k α) (id : Id k) : Table k α :=
  if t.contains id then
    { t with objects := t.objects.erase id, free := insertAscending id.seq t.free }
  else t

def eraseAll (t : Table k α) (ids : List (Id k)) : Table k α := ids.foldl erase t

end Table
end DesignView
