import DesignView.Fault

/-!
Handles: the instances, pins, nets and terms of a network. A handle is closed over the kinds of
native objects that it may stand for; the top instance stands for none.
-/

namespace DesignView

inductive Instance where
  | top
  | flat (id : InstId)
  | module (id : ModInstId)
  deriving DecidableEq

/-- A connection point: a terminal of a leaf instance, of the design boundary, of a module instance
(facing its parent), or of a module boundary (facing what is inside). -/
inductive Pin where
  | flat (id : ITermId)
  | boundary (id : BTermId)
  | module (id : ModITermId)
  | moduleBoundary (id : ModBTermId)
  deriving DecidableEq

inductive Net where
  | flat (id : NetId)
  | module (id : ModNetId)
  deriving DecidableEq

inductive Term where
  | boundary (id : BTermId)
  | moduleBoundary (id : ModBTermId)
  deriving DecidableEq

inductive Handle where
  | instance (i : Instance)
  | pin (p : Pin)
  | net (n : Net)
  | term (t : Term)

namespace Instance

def ofObject (o : Object) : Except Fault Instance :=
  match o.kind with
  | .inst => .ok (.flat ⟨o.seq⟩)
  | .modInst => .ok (.module ⟨o.seq⟩)
  | _ => .error (.misclassified o .asInstance)

def object? : Instance → Option Object
  | top => none
  | flat id => some id.object
  | module id => some id.object

def text : Instance → String
  | top => "top"
  | flat id => id.text
  | module id => id.text

def isTop : Instance → Bool
  | top => true
  | _ => false

def isLeaf : Instance → Bool
  | flat _ => true
  | _ => false

def flat? : Instance → Option InstId
  | flat id => some id
  | _ => none

def module? : Instance → Option ModInstId
  | module id => some id
  | _ => none

end Instance

namespace Pin

def ofObject (o : Object) : Except Fault Pin :=
  match o.kind with
  | .iterm => .ok (.flat ⟨o.seq⟩)
  | .bterm => .ok (.boundary ⟨o.seq⟩)
  | .modITerm => .ok (.module ⟨o.seq⟩)
  | .modBTerm => .ok (.moduleBoundary ⟨o.seq⟩)
  | _ => .error (.misclassified o .asPin)

def object : Pin → Object
  | flat id => id.object
  | boundary id => id.object
  | module id => id.object
  | moduleBoundary id => id.object

def text (p : Pin) : String := p.object.text

def isHierarchical : Pin → Bool
  | module _ | moduleBoundary _ => true
  | flat _ | boundary _ => false

def isTopLevel : Pin → Bool
  | boundary _ => true
  | _ => false

def flat? : Pin → Option ITermId
  | flat id => some id
  | _ => none

def boundary? : Pin → Option BTermId
  | boundary id => some id
  | _ => none

def module? : Pin → Option ModITermId
  | module id => some id
  | _ => none

def moduleBoundary? : Pin → Option ModBTermId
  | moduleBoundary id => some id
  | _ => none

end Pin

namespace Net

def ofObject (o : Object) : Except Fault Net :=
  match o.kind with
  | .net => .ok (.flat ⟨o.seq⟩)
  | .modNet => .ok (.module ⟨o.seq⟩)
  | _ => .error (.misclassified o .asNet)

def object : Net → Object
  | flat id => id.object
  | module id => id.object

def text (n : Net) : String := n.object.text

def flat? : Net → Option NetId
  | flat id => some id
  | module _ => none

def module? : Net → Option ModNetId
  | module id => some id
  | flat _ => none

end Net

namespace Term

def ofObject (o : Object) : Except Fault Term :=
  match o.kind with
  | .bterm => .ok (.boundary ⟨o.seq⟩)
  | .modBTerm => .ok (.moduleBoundary ⟨o.seq⟩)
  | _ => .error (.misclassified o .asTerm)

def object : Term → Object
  | boundary id => id.object
  | moduleBoundary id => id.object

def boundary? : Term → Option BTermId
  | boundary id => some id
  | moduleBoundary _ => none

def moduleBoundary? : Term → Option ModBTermId
  | moduleBoundary id => some id
  | boundary _ => none

def pin : Term → Pin
  | boundary id => .boundary id
  | moduleBoundary id => .moduleBoundary id

end Term
end DesignView
