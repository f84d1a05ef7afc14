import DesignView.Network.Reach

/-!
Drivers of nets. The drivers of a net are found by a sweep when they are first asked for, and are
then kept: an edit takes a pin out of the kept answers before it leaves its nets and puts it back
after it joins new ones. A hierarchical pin joins nets to each other, so the answers of all nets
around it are dropped instead.
-/

namespace DesignView.Network

/-- Whether a pin drives its net: a boundary terminal that brings a signal in, or a leaf terminal
that puts one out. -/
def isDriver (n : Network) (p : Pin) : Except Fault Bool :=
  match p with
  | .boundary _ => do return (← n.direction p).isAnyInput
  | .flat _ => do return (← n.direction p).isAnyOutput
  | .module _ | .moduleBoundary _ => return false

def isSignalDriver (n : Network) (p : Pin) : Except Fault Bool := do
  if ← n.isSignal p then n.isDriver p else return false

def hasDrivers (n : Network) (net : Net) : Bool := n.drivers.contains net

/-- The pins that drive a net, across module boundaries. The answer is kept. -/
def driversOf (n : Network) (net : Net) : Except Fault (List Pin × Network) :=
  match n.drivers.find? net with
  | some pins => return (pins, n)
  | none => do
    let pins := (← n.sweepFrom n.isSignalDriver net []).2
    return (pins, { n with drivers := n.drivers.insert net pins })

def forgetDrivers (n : Network) : Network := { n with drivers := {} }

def dropDrivers (n : Network) (nets : List Net) : Network :=
  { n with drivers := nets.foldl OrderedMap.erase n.drivers }

def removeDriver (n : Network) (p : Pin) (nets : List Net) : Network :=
  { n with drivers := nets.foldl (fun m net => m.modify net fun pins => pins.erase p) n.drivers }

def addDriver (n : Network) (p : Pin) (nets : List Net) : Network :=
  { n with drivers := nets.foldl (fun m net => m.modify net fun pins =>
      if p ∈ pins then pins else pins ++ [p]) n.drivers }

def beforeDetach (n : Network) (p : Pin) : Except Fault Network := do
  let nets ← n.reachableNets p
  return if p.isHierarchical then n.dropDrivers nets else n.removeDriver p nets

def afterAttach (n : Network) (p : Pin) : Except Fault Network := do
  if p.isHierarchical then
    return n.dropDrivers (← n.reachableNets p)
  else if ← n.isDriver p then
    return n.addDriver p (← n.reachableNets p)
  else return n

def beforeDelete (n : Network) (net : Net) : Except Fault Network := do
  return n.dropDrivers (← n.connectedNets net)

end DesignView.Network
