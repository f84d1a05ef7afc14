import DesignView.Container.OrderedMap
import DesignView.Electrical

/-!
Timing libraries: named collections of cells, each with logic ports and, apart from them, supply
pins. A name is used once among the ports and supply pins of a cell, and once among the cells of a
library.
-/

namespace DesignView

structure TimingCell where
  name : String
  ports : OrderedMap String PortDirection := {}
  supplyPins : OrderedMap String SupplyKind := {}

structure TimingLibrary where
  name : String
  cells : OrderedMap String TimingCell := {}

inductive TimingRefusal where
  | duplicateCell (library cell : String)
  | duplicatePort (cell port : String)

def TimingRefusal.message : TimingRefusal → String
  | duplicateCell library cell => s!"duplicate cell `{cell}` in timing library `{library}`"
  | duplicatePort cell port => s!"duplicate port `{port}` on timing cell `{cell}`"

namespace TimingCell

def uses (c : TimingCell) (name : String) : Bool :=
  c.ports.contains name || c.supplyPins.contains name

def addPort (c : TimingCell) (name : String) (direction : PortDirection) :
    Except TimingRefusal TimingCell :=
  if c.uses name then .error (.duplicatePort c.name name)
  else .ok { c with ports := c.ports.insert name direction }

def addSupplyPin (c : TimingCell) (name : String) (kind : SupplyKind) :
    Except TimingRefusal TimingCell :=
  if c.uses name then .error (.duplicatePort c.name name)
  else .ok { c with supplyPins := c.supplyPins.insert name kind }

def port? (c : TimingCell) (name : String) : Option PortDirection := c.ports.find? name

def supplyPin? (c : TimingCell) (name : String) : Option SupplyKind := c.supplyPins.find? name

end TimingCell

namespace TimingLibrary

def addCell (l : TimingLibrary) (cell : TimingCell) : Except TimingRefusal TimingLibrary :=
  if l.cells.contains cell.name then .error (.duplicateCell l.name cell.name)
  else .ok { l with cells := l.cells.insert cell.name cell }

def cell? (l : TimingLibrary) (name : String) : Option TimingCell := l.cells.find? name

def size (l : TimingLibrary) : Nat := l.cells.size

def isEmpty (l : TimingLibrary) : Bool := l.cells.entries.isEmpty

end TimingLibrary
end DesignView
