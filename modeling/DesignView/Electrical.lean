/-!
How terminals, nets and ports are classified electrically. Terminals carry a signal type and an IO
type; ports carry one direction. Power and ground outrank the IO type when types become a direction.
-/

namespace DesignView

inductive SigType where
  | signal | power | ground | clock | analog
  deriving DecidableEq

namespace SigType

def all : List SigType := [signal, power, ground, clock, analog]

def name : SigType → String
  | signal => "Signal"
  | power => "Power"
  | ground => "Ground"
  | clock => "Clock"
  | analog => "Analog"

def isSupply : SigType → Bool
  | power | ground => true
  | signal | clock | analog => false

end SigType

inductive IoType where
  | input | output | inout | feedthru
  deriving DecidableEq

namespace IoType

def all : List IoType := [input, output, inout, feedthru]

def name : IoType → String
  | input => "Input"
  | output => "Output"
  | inout => "Inout"
  | feedthru => "Feedthru"

end IoType

inductive SupplyKind where
  | power | ground
  deriving DecidableEq

namespace SupplyKind

def all : List SupplyKind := [power, ground]

def name : SupplyKind → String
  | power => "Power"
  | ground => "Ground"

end SupplyKind

inductive PortDirection where
  | input | output | tristate | bidirect | internal | ground | power | unknown
  deriving DecidableEq

namespace PortDirection

def all : List PortDirection :=
  [input, output, tristate, bidirect, internal, ground, power, unknown]

def name : PortDirection → String
  | input => "input"
  | output => "output"
  | tristate => "tristate"
  | bidirect => "bidirect"
  | internal => "internal"
  | ground => "ground"
  | power => "power"
  | unknown => "unknown"

def isAnyInput : PortDirection → Bool
  | input | bidirect => true
  | _ => false

def isAnyOutput : PortDirection → Bool
  | output | tristate | bidirect => true
  | _ => false

def isSupply : PortDirection → Bool
  | power | ground => true
  | _ => false

def ofTypes : SigType → IoType → PortDirection
  | .power, _ => power
  | .ground, _ => ground
  | _, .input => input
  | _, .output => output
  | _, .inout => bidirect
  | _, .feedthru => bidirect

/-- The terminal types that stand for a direction; tristate, internal and unknown have none. -/
def types? : PortDirection → Option (SigType × IoType)
  | input => some (.signal, .input)
  | output => some (.signal, .output)
  | bidirect => some (.signal, .inout)
  | power => some (.power, .inout)
  | ground => some (.ground, .inout)
  | tristate | internal | unknown => none

def common : List PortDirection → PortDirection
  | [] => unknown
  | d :: ds => if ds.all (· = d) then d else unknown

end PortDirection
end DesignView
