import DesignView.Network.Drive

/-!
Wiring: connecting pins to nets and taking them off. Pins of the module hierarchy can only be on
module nets. Connecting a port makes the terminal that it needs, at the top also with the types
that go with the direction of the port.
-/

namespace DesignView

def Design.attach? (d : Design) : Pin → Net → Option Design
  | .flat t, .flat net => some (d.attachITerm t net)
  | .flat t, .module net => some (d.attachITermToModNet t net)
  | .boundary t, .flat net => some (d.attachBTerm t net)
  | .boundary t, .module net => some (d.attachBTermToModNet t net)
  | .module t, .module net => some (d.attachModITerm t net)
  | .moduleBoundary t, .module net => some (d.attachModBTerm t net)
  | .module _, .flat _ | .moduleBoundary _, .flat _ => none

def Design.detach (d : Design) : Pin → Design
  | .flat t => d.detachITerm t
  | .boundary t => d.detachBTerm t
  | .module t => d.detachModITerm t
  | .moduleBoundary t => d.detachModBTerm t

namespace Network

/-- Connects a pin to a net, in place of its net of the same kind. Returns whether the connection
was accepted; if it is refused, the pin is left as it is. -/
def connectPin (n : Network) (p : Pin) (net : Net) : Except Fault (Bool × Network) :=
  match p, net with
  | .module _, .flat _ | .moduleBoundary _, .flat _ =>
    return (false, n.warn s!"hierarchical pin {p.text} cannot connect to flat net {net.text}")
  | _, _ => do
    let n ← n.beforeDetach p
    match (← n.design).attach? p net with
    | none => return (false, n)
    | some d => return (true, ← (n.withDesign d).afterAttach p)

def disconnect (n : Network) (p : Pin) : Except Fault Network := do
  let n ← n.beforeDetach p
  return n.withDesign ((← n.design).detach p)

def moduleTerminal (n : Network) (modInst : ModInstId) (name : String) :
    Except Fault (Option ModITermId × Network) := do
  let d ← n.design
  match ← d.modITermOf modInst name with
  | some id => return (some id, n)
  | none =>
    match d.createModITerm modInst name with
    | .ok (id, d) => return (some id, n.withDesign d)
    | .error refusal => return (none, n.warn refusal.message)

def boundaryTerminal (n : Network) (name : String) : Except Fault (Option BTermId × Network) := do
  let d ← n.design
  match d.btermNamed? name with
  | some id => return (some id, n)
  | none =>
    match d.createBTerm name none with
    | .ok (id, d) => return (some id, n.withDesign d)
    | .error refusal => return (none, n.warn refusal.message)

def setTopPort (n : Network) (name : String) (direction : PortDirection) : Network :=
  match n.catalog.topCell? with
  | none => n
  | some top =>
    match n.catalog.portNamed? top name with
    | some port => { n with catalog := n.catalog.setDirection port direction }
    | none => { n with catalog := (n.catalog.addPort top name .design direction).2 }

def topTerminal (n : Network) (name : String) (direction : PortDirection) :
    Except Fault (Option BTermId × Network) := do
  match ← n.boundaryTerminal name with
  | (none, n) => return (none, n)
  | (some id, n) =>
    match direction.types? with
    | none => throw (.unmappable direction)
    | some (sig, io) =>
      let n := n.withDesign ((← n.design).setBTermTypes id sig io)
      return (some id, n.setTopPort name direction)

def connectFound (n : Network) (p : Pin) (net : Net) : Except Fault (Option Pin × Network) := do
  let (accepted, n) ← n.connectPin p net
  return (if accepted then some p else none, n)

/-- The terminal of a leaf instance for a port: that of the master terminal that the port stands
for, or else the one of its name. -/
def leafTerminal (d : Design) (inst : InstId) (p : Port) : Except Fault (Option ITermId) :=
  match p.source with
  | .physical mterm => d.itermFor inst mterm
  | .moduleBoundary _ | .design | .group => d.itermOf inst p.name

def connect (n : Network) (i : Instance) (port : PortId) (net : Net) :
    Except Fault (Option Pin × Network) :=
  match n.catalog.port? port with
  | none => return (none, n)
  | some p =>
    match i with
    | .top => do
      match ← n.topTerminal p.name p.direction with
      | (none, n) => return (none, n)
      | (some id, n) => n.connectFound (.boundary id) net
    | .flat id => do
      match ← leafTerminal (← n.design) id p with
      | none => return (none, n)
      | some t => n.connectFound (.flat t) net
    | .module id => do
      match ← n.moduleTerminal id p.name with
      | (none, n) => return (none, n)
      | (some t, n) => n.connectFound (.module t) net

def connectTiming (n : Network) (i : Instance) (ref : TimingPortRef) (net : Net) :
    Except Fault (Option Pin × Network) := do
  if i.isTop then
    match n.timingPort? ref with
    | none => return (none, n)
    | some direction =>
      match ← n.topTerminal ref.port direction with
      | (none, n) => return (none, n)
      | (some id, n) => n.connectFound (.boundary id) net
  else
    match (← n.cellOf i).bind fun cell => n.catalog.portNamed? cell ref.port with
    | none => return (none, n)
    | some port => n.connect i port net

def connectMade (n : Network) (p : Pin) (net? : Option Net) :
    Except Fault (Option Pin × Network) :=
  match net? with
  | none => return (some p, n)
  | some net => do return (some p, (← n.connectPin p net).2)

/-- Finds or makes the pin of an instance for a port, and connects it if a net is given. Pins of
the top are only made by connecting its ports. -/
def makePin (n : Network) (i : Instance) (port : PortId) (net? : Option Net) :
    Except Fault (Option Pin × Network) :=
  match i with
  | .top =>
    return (none, n.logError "pins of the top instance are made by connecting its ports")
  | .flat _ => do
    match ← n.pinForPort? i port with
    | none => return (none, n)
    | some p => n.connectMade p net?
  | .module id =>
    match n.catalog.port? port with
    | none => return (none, n)
    | some p => do
      match ← n.moduleTerminal id p.name with
      | (none, n) => return (none, n)
      | (some t, n) => n.connectMade (.module t) net?

end Network
end DesignView
