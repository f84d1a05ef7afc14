/-!
Identifiers of what a network builds over its database: libraries, cells and ports are numbered from
one running count, timing libraries by the order in which they were loaded.
-/

namespace DesignView

structure LibraryId where
  num : Nat
  deriving DecidableEq

structure CellId where
  num : Nat
  deriving DecidableEq

structure PortId where
  num : Nat
  deriving DecidableEq

structure TimingId where
  index : Nat
  deriving DecidableEq

def LibraryId.text (id : LibraryId) : String := "library" ++ toString id.num

def CellId.text (id : CellId) : String := "cell" ++ toString id.num

def PortId.text (id : PortId) : String := "port" ++ toString id.num

def TimingId.text (id : TimingId) : String := "timinglib" ++ toString id.index

end DesignView
