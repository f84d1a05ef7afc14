import DesignView.Network.Basic

/-!
Numbers for handles. With the hierarchy shown, a number holds the sequence number of the native
object above four bits that tell its kind. Without it, pins have one such bit, which tells
boundary terminals from instance terminals, and other objects keep their sequence numbers. The top
instance is zero.
-/

namespace DesignView

def maxNumber : Nat := Nat.pow 2 64 - 1

def tagRange : Nat := Nat.pow 2 4

def topNumber : Nat := 0

namespace Kind

def tag? : Kind → Option Nat
  | inst => some 1
  | iterm => some 2
  | bterm => some 3
  | net => some 4
  | modInst => some 5
  | modITerm => some 6
  | modBTerm => some 7
  | modNet => some 8
  | module => some 9
  | lib | master | mterm | block => none

def ofTag? : Nat → Option Kind
  | 1 => some inst
  | 2 => some iterm
  | 3 => some bterm
  | 4 => some net
  | 5 => some modInst
  | 6 => some modITerm
  | 7 => some modBTerm
  | 8 => some modNet
  | 9 => some module
  | _ => none

def ofNumber? (number : Nat) : Option Kind := ofTag? (number % tagRange)

end Kind

namespace Object

def tagged (o : Object) : Except Fault Nat :=
  match o.kind.tag? with
  | none => .error (.misclassified o .asNetworkObject)
  | some tag =>
    if o.seq ≤ maxNumber / tagRange then .ok (o.seq * tagRange + tag) else .error (.oversized o)

def withBit (o : Object) (bit : Bool) : Except Fault Nat :=
  if o.seq ≤ maxNumber / 2 then .ok (o.seq * 2 + bit.toNat) else .error (.oversized o)

def plain (o : Object) : Except Fault Nat :=
  match o.kind with
  | .inst | .net | .bterm | .iterm => .ok o.seq
  | .modInst | .modITerm | .modBTerm | .modNet | .module => .error (.hierarchyDisabled o)
  | .lib | .master | .mterm | .block => .error (.misclassified o .asNetworkObject)

end Object

namespace Network

def numberOfObject (n : Network) (o : Object) : Except Fault Nat :=
  if n.hierarchy then o.tagged else o.plain

def numberOfInstance (n : Network) (i : Instance) : Except Fault Nat :=
  match i.object? with
  | none => .ok topNumber
  | some o => n.numberOfObject o

def numberOfPin (n : Network) (p : Pin) : Except Fault Nat :=
  if n.hierarchy then p.object.tagged
  else
    match p with
    | .flat id => id.object.withBit false
    | .boundary id => id.object.withBit true
    | .module _ | .moduleBoundary _ => .error (.hierarchyDisabled p.object)

/-- The number of a handle, distinct among the instances, among the pins, among the nets and among
the terms; with the hierarchy shown, distinct among all of them but for a term and the pin that it
is. -/
def number (n : Network) : Handle → Except Fault Nat
  | .instance i => n.numberOfInstance i
  | .pin p => n.numberOfPin p
  | .net x => n.numberOfObject x.object
  | .term t => n.numberOfObject t.object

def numberOfModule (_ : Network) (id : ModuleId) : Except Fault Nat := id.object.tagged

end Network
end DesignView
