import DesignView.Toml.Document

/-!
The settings of a network, and how they are read from a TOML document. Missing settings take their
defaults and unknown keys are passed over; the name of the module library must not be empty.
-/

namespace DesignView

structure Settings where
  hierarchy : Bool := false
  divider : Char := '/'
  moduleLibrary : String := "modules"
  deriving DecidableEq

inductive SettingsError where
  | malformed
  | emptyModuleLibrary

def SettingsError.message : SettingsError → String
  | malformed => "invalid network configuration"
  | emptyModuleLibrary => "the module library name must not be empty"

namespace Settings

def flat : Settings := {}

def hierarchical : Settings := { hierarchy := true }

def boolean? : Toml.Node → Option Bool
  | .value (.boolean b) => some b
  | _ => none

def text? : Toml.Node → Option String
  | .value (.text s) => some s
  | _ => none

def char? (node : Toml.Node) : Option Char := do
  match (← text? node).toList with
  | [c] => some c
  | _ => none

/-- The value of a setting: the default if the key is missing, none if its node is of the wrong
sort. -/
def field? {α : Type} (entries : OrderedMap String Toml.Node) (key : String)
    (read : Toml.Node → Option α) (default : α) : Option α :=
  match entries.find? key with
  | none => some default
  | some node => read node

def ofEntries? (entries : OrderedMap String Toml.Node) : Option Settings := do
  return {
    hierarchy := ← field? entries "hierarchy" boolean? flat.hierarchy
    divider := ← field? entries "path_divider" char? flat.divider
    moduleLibrary := ← field? entries "module_library" text? flat.moduleLibrary }

def ofToml (document : String) : Except SettingsError Settings :=
  match (Toml.read? document).bind ofEntries? with
  | none => .error .malformed
  | some s => if s.moduleLibrary.isEmpty then .error .emptyModuleLibrary else .ok s

end Settings
end DesignView
