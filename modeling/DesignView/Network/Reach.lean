import DesignView.Network.Scope

/-!
Connectivity. A flat net joins the terminals on it. A module net also reaches through the
terminals of module instances into the modules below, and through the boundary terminals of its
module out to the net above. `Network.sweep` walks all nets that are reached from one net, each
once.
-/

namespace DesignView.Network

/-- The net of a pin. With the hierarchy shown, a module net comes before a flat net. -/
def netOf (n : Network) (p : Pin) : Except Fault (Option Net) :=
  match n.design? with
  | none => return none
  | some d =>
    let first (module? : Option ModNetId) (flat? : Option NetId) : Option Net :=
      match if n.hierarchy then module? else none with
      | some id => some (.module id)
      | none => flat?.map .flat
    match p with
    | .flat id => do
      let _ ← d.iterm id
      return first (d.itermModNets.netOf id) (d.itermNets.netOf id)
    | .boundary id => do
      let _ ← d.bterm id
      return first (d.btermModNets.netOf id) (d.btermNets.netOf id)
    | .module id => do
      let _ ← d.modITerm id
      return (d.modITermNets.netOf id).map .module
    | .moduleBoundary id => do
      let _ ← d.modBTerm id
      return (d.modBTermNets.netOf id).map .module

def netOfTerm (n : Network) (t : Term) : Except Fault (Option Net) := n.netOf t.pin

def memberships (n : Network) (p : Pin) : Except Fault (List Net) :=
  match n.design? with
  | none => return []
  | some d =>
    let both (flat? : Option NetId) (module? : Option ModNetId) : List Net :=
      flat?.toList.map .flat ++ module?.toList.map .module
    match p with
    | .flat id => do
      let _ ← d.iterm id
      return both (d.itermNets.netOf id) (d.itermModNets.netOf id)
    | .boundary id => do
      let _ ← d.bterm id
      return both (d.btermNets.netOf id) (d.btermModNets.netOf id)
    | .module id => do
      let _ ← d.modITerm id
      return both none (d.modITermNets.netOf id)
    | .moduleBoundary id => do
      let _ ← d.modBTerm id
      return both none (d.modBTermNets.netOf id)

def listedOn (n : Network) (net : Net) : List Pin :=
  match n.design? with
  | none => []
  | some d =>
    match net with
    | .flat id => (d.itermNets.members id).map .flat ++ (d.btermNets.members id).map .boundary
    | .module id =>
      (d.itermModNets.members id).map .flat ++ (d.btermModNets.members id).map .boundary ++
        (d.modBTermNets.members id).map .moduleBoundary ++
        (d.modITermNets.members id).map .module

def nets (n : Network) : List Net :=
  match n.design? with
  | none => []
  | some d => d.nets.ids.map .flat ++ d.modNets.ids.map .module

/-- The pin on the other side of a module boundary from a hierarchical pin. -/
def facing (n : Network) : Pin → Except Fault (Option Pin)
  | .module id => do return (← n.innerOf id).map .moduleBoundary
  | .moduleBoundary id => do return (← n.outerOf id).map .module
  | .flat _ | .boundary _ => return none

structure Sweep where
  met : List Pin := []
  kept : List Pin := []
  work : List Net := []

def Sweep.meet (s : Sweep) (test : Pin → Except Fault Bool) (p : Pin) : Except Fault Sweep :=
  if p ∈ s.met then return s
  else do
    let keep ← test p
    return { s with met := s.met ++ [p], kept := if keep then s.kept ++ [p] else s.kept }

def cross (n : Network) (test : Pin → Except Fault Bool) (s : Sweep) (p : Pin) :
    Except Fault Sweep := do
  let s ← s.meet test p
  match ← n.facing p with
  | none => return s
  | some q =>
    let s ← s.meet test q
    return { s with work := (← n.netOf q).toList ++ s.work }

def unvisited (n : Network) (visited : List Net) : Nat := n.nets.countP fun net => net ∉ visited

theorem unvisited_append_le (n : Network) (visited : List Net) (net : Net) :
    n.unvisited (visited ++ [net]) ≤ n.unvisited visited := by
  refine List.countP_mono_left fun x _ hx => ?_
  simp only [List.mem_append, not_or, decide_eq_true_eq] at hx ⊢
  exact hx.1

theorem unvisited_append_lt (n : Network) {visited : List Net} {net : Net} (h : net ∈ n.nets)
    (hv : net ∉ visited) : n.unvisited (visited ++ [net]) < n.unvisited visited := by
  obtain ⟨before, after, e⟩ := List.append_of_mem h
  have le (xs : List Net) : (xs.countP fun x => x ∉ visited ++ [net]) ≤
      xs.countP fun x => x ∉ visited := by
    refine List.countP_mono_left fun x _ hx => ?_
    simp only [List.mem_append, not_or, decide_eq_true_eq] at hx ⊢
    exact hx.1
  have hb := le before
  have ha := le after
  have hin : decide (net ∉ visited ++ [net]) = false := by simp
  have hout : decide (net ∉ visited) = true := by simpa using hv
  simp only [unvisited, e, List.countP_append, List.countP_cons, hin, hout]
  simp only [Bool.false_eq_true, if_false, if_true]
  omega

/-- Walks the nets in the work list, and all nets found on the way, that are not in `visited`.
Returns the visited nets, in the order in which they were walked, and the pins that passed the
test. -/
def sweep (n : Network) (test : Pin → Except Fault Bool) :
    Sweep → List Net → Except Fault (List Net × List Pin)
  | ⟨_, kept, []⟩, visited => .ok (visited, kept)
  | ⟨met, kept, net :: rest⟩, visited =>
    if net ∈ visited then n.sweep test ⟨met, kept, rest⟩ visited
    else if net ∉ n.nets then n.sweep test ⟨met, kept, rest⟩ (visited ++ [net])
    else
      match (n.listedOn net).foldlM (n.cross test) ⟨met, kept, rest⟩ with
      | .error fault => .error fault
      | .ok s => n.sweep test s (visited ++ [net])
  termination_by s visited => (n.unvisited visited, s.work.length)
  decreasing_by
    · exact .right _ (by simp)
    · rcases Nat.lt_or_eq_of_le (n.unvisited_append_le visited net) with hlt | heq
      · exact .left _ _ hlt
      · rw [heq]
        exact .right _ (by simp)
    · exact .left _ _ (n.unvisited_append_lt (Decidable.not_not.1 ‹_›) ‹_›)

def sweepFrom (n : Network) (test : Pin → Except Fault Bool) (net : Net) (visited : List Net) :
    Except Fault (List Net × List Pin) :=
  match n.design? with
  | none => .ok (visited, [])
  | some _ => n.sweep test { work := [net] } visited

def isSignal (n : Network) (p : Pin) : Except Fault Bool := do
  return !(← n.isSupply p)

/-- The non-supply pins reached from a net without entering the nets in `visited`, together with
`visited` and the nets that were walked. -/
def connectedFrom (n : Network) (net : Net) (visited : List Net) :
    Except Fault (List Net × List Pin) :=
  n.sweepFrom n.isSignal net visited

def connectedPins (n : Network) (net : Net) : Except Fault (List Pin) := do
  return (← n.connectedFrom net []).2

def addConnectedNets (n : Network) (visited : List Net) (net : Net) : Except Fault (List Net) := do
  return (← n.sweepFrom (fun _ => .ok false) net visited).1

def connectedNets (n : Network) (net : Net) : Except Fault (List Net) := n.addConnectedNets [] net

def reachableNets (n : Network) (p : Pin) : Except Fault (List Net) := do
  (← n.memberships p).foldlM n.addConnectedNets []

def pinsOn (n : Network) (net : Net) : Except Fault (List Pin) := keepM n.isSignal (n.listedOn net)

def termsOn (n : Network) (net : Net) : List Term :=
  (n.listedOn net).filterMap fun p =>
    match p with
    | .boundary id => some (.boundary id)
    | .moduleBoundary id => some (.moduleBoundary id)
    | .flat _ | .module _ => none

/-- Whether a flat net has a signal type, or a module net has a leaf or boundary pin of that type.
-/
def carries (n : Network) (net : Net) (sig : SigType) : Except Fault Bool :=
  match net with
  | .flat id => return (n.design?.bind fun d => d.nets.find? id).any fun x => x.sig = sig
  | .module _ =>
    ((n.listedOn net).filter fun p => !p.isHierarchical).anyM fun p => do
      return (← n.typesOf p).any fun t => t.1 = sig

def isPower (n : Network) (net : Net) : Except Fault Bool := n.carries net .power

def isGround (n : Network) (net : Net) : Except Fault Bool := n.carries net .ground

def isSpecial (n : Network) (net : Net) : Bool :=
  match net with
  | .flat id => (n.design?.bind fun d => d.nets.find? id).any (·.special)
  | .module _ => false

def highestNet (_ : Network) (net : Net) : Net := net

/-- The constant value of a net: of a flat net as found when the design was loaded, of a module
net by the pins that are on it now. -/
def constantOf (n : Network) (net : Net) : Except Fault (Option LogicValue) :=
  match net with
  | .flat id => return n.constants.find? id
  | .module _ => do
    if ← n.isPower net then return some .one
    else if ← n.isGround net then return some .zero
    else return none

def constantNets (n : Network) (value : LogicValue) : List Net :=
  (n.constants.entries.filter fun e => e.2 = value).map (.flat ·.1)

end DesignView.Network
