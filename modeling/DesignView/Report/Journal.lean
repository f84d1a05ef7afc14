/-!
The journal: warnings and errors in the order in which they were written. Lesser messages are not
kept.
-/

namespace DesignView

inductive Level where
  | warn | error
  deriving DecidableEq

structure Entry where
  level : Level
  text : String
  deriving DecidableEq

abbrev Journal := List Entry

namespace Journal

def warn (j : Journal) (text : String) : Journal := j ++ [⟨.warn, text⟩]

def error (j : Journal) (text : String) : Journal := j ++ [⟨.error, text⟩]

end Journal
end DesignView
