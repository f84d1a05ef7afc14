import DesignView.Catalog.Key
import DesignView.Electrical
import DesignView.Object
import DesignView.Report.Journal

/-!
Faults: broken preconditions, after which the operation has no answer. A fault is written to the
journal as an error, except when an object is missing from the part of the database that holds the
physical libraries.
-/

namespace DesignView

inductive Expectation where
  | asInstance | asPin | asNet | asTerm | asNetworkObject

def Expectation.text : Expectation → String
  | .asInstance => "an instance"
  | .asPin => "a pin"
  | .asNet => "a net"
  | .asTerm => "a term"
  | .asNetworkObject => "a network object"

inductive Unsupported where
  | deleteLeafTerminal | replaceNonLeaf | replaceByNonPhysical | mergeNets | mergeTarget

def Unsupported.text : Unsupported → String
  | .deleteLeafTerminal => "delete_pin of a leaf terminal"
  | .replaceNonLeaf => "replace_cell of a non-leaf instance"
  | .replaceByNonPhysical => "replace_cell with a non-physical cell"
  | .mergeNets => "merge_into"
  | .mergeTarget => "merged_into"

inductive Fault where
  | notInDatabase (object : Object)
  | notInDesign (object : Object)
  | noLibrary (id : LibraryId)
  | noCell (id : CellId)
  | noPort (id : PortId)
  | noDesign
  | oversized (object : Object)
  | misclassified (object : Object) (expected : Expectation)
  | hierarchyDisabled (object : Object)
  | unsupported (request : Unsupported)
  | unmappable (direction : PortDirection)
  /-- The module instances above `id` form a cycle, so that its path has no end. -/
  | endlessPath (id : ModInstId)

namespace Fault

def message : Fault → String
  | notInDatabase object => object.text ++ " does not exist in database"
  | notInDesign object => object.text ++ " does not exist in block"
  | noLibrary id => "no " ++ id.text ++ " in network"
  | noCell id => "no " ++ id.text ++ " in network"
  | noPort id => "no " ++ id.text ++ " in network"
  | noDesign => "no design block is loaded"
  | oversized object =>
    s!"database id exceeds capacity: {object.kind.name} sequence number {object.seq}"
  | misclassified object expected =>
    object.text ++ " (" ++ object.kind.name ++ ") is not " ++ expected.text
  | hierarchyDisabled object =>
    object.text ++ " is part of the module hierarchy, which is disabled"
  | unsupported request => "unimplemented network function " ++ request.text
  | unmappable direction => "unhandled port direction " ++ direction.name
  | endlessPath id => "the path of " ++ id.text ++ " has no end"

def isJournaled : Fault → Bool
  | notInDatabase _ => false
  | _ => true

end Fault

def Journal.fault (j : Journal) (f : Fault) : Journal :=
  if f.isJournaled then j.error f.message else j

end DesignView
