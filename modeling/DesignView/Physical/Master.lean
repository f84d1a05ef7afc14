import DesignView.Electrical
import DesignView.Object

/-!
Physical libraries, the leaf cell masters in them, and the terminals of the masters.
-/

namespace DesignView

structure Lib where
  name : String

structure Master where
  name : String
  lib : LibId

structure MTerm where
  name : String
  master : MasterId
  sig : SigType
  io : IoType

end DesignView
