import DesignView.Catalog.Assemble
import DesignView.Text.BitName

/-!
Grouping of ports. Scalar ports whose names are bit names of one bus become the bits of a bus
port; a bit that repeats an index of its bus stays scalar. Top-level ports of a cell can be
bundled by hand.
-/

namespace DesignView.Catalog

def bitsByBus (c : Catalog) (cell : CellId) : OrderedMap String (List (Nat × PortId)) :=
  (c.topPorts cell).foldl (fun buses id =>
    match c.port? id with
    | none => buses
    | some p =>
      if p.shape ≠ .scalar then buses
      else
        match BitName.parse? p.name with
        | none => buses
        | some (bus, index) => buses.insert bus ((buses.find? bus).getD [] ++ [(index, id)])) {}

def firstBits (bits : List (Nat × PortId)) : List (Nat × PortId) :=
  bits.foldl (fun kept b => if kept.any fun k => k.1 = b.1 then kept else kept ++ [b]) []

def sortBits (msbFirst : Bool) (bits : List (Nat × PortId)) : List (Nat × PortId) :=
  bits.mergeSort fun a b => if msbFirst then b.1 ≤ a.1 else a.1 ≤ b.1

/-- Makes the bus `name` of the given bits, unless the cell has a port of that name. The second
component lists the bits that repeat an index. -/
def groupBus (c : Catalog) (cell : CellId) (msbFirst : Bool) (name : String)
    (bits : List (Nat × PortId)) : Catalog × List PortId :=
  if (c.portNamed? cell name).isSome then (c, [])
  else
    let kept := firstBits bits
    let repeated := (bits.filter (· ∉ kept)).map (·.2)
    let sorted := sortBits msbFirst kept
    match sorted.head?, sorted.getLast? with
    | some first, some last =>
      let (bus, c) := c.addGroup cell name (.bus first.1 last.1 (sorted.map (·.2)))
      (sorted.foldl (fun c b => c.setShape b.2 (.busBit bus b.1)) c, repeated)
    | _, _ => (c, repeated)

/-- Makes the buses of a cell. `msbFirst` tells for a bus whether its highest index comes first. The
second component lists the bits that repeat an index of their bus. -/
def groupBuses (c : Catalog) (cell : CellId) (msbFirst : String → Bool) : Catalog × List PortId :=
  (c.bitsByBus cell).entries.foldl (fun (c, repeated) e =>
    let (c, more) := c.groupBus cell (msbFirst e.1) e.1 e.2
    (c, repeated ++ more)) (c, [])

/-- Bundles top-level ports of a cell. There is no bundle of no ports, of a port that is not at
the top level, or under a name that the cell already has. -/
def bundle (c : Catalog) (cell : CellId) (name : String) (members : List PortId) :
    Except Fault (Option PortId × Catalog) := do
  if members = [] ∨ (c.portNamed? cell name).isSome then return (none, c)
  let x ← c.cell cell
  if members.all (· ∈ x.ports) then
    let (id, c) := c.addGroup cell name (.bundle members)
    return (some id, c)
  else return (none, c)

end DesignView.Catalog
