import DesignView.Container.Table

/-!
Why an edit of a database was refused. A refused edit has no effect.
-/

namespace DesignView

inductive Refusal where
  | duplicateName (name scope : String)
  | notFound (object : Object)
  | noDesign
  | designExists (name : String)
  | moduleInstantiated (name : String)
  | topModuleInstance
  | incompatibleMaster (current replacement : String)

def Refusal.message : Refusal → String
  | duplicateName name scope => s!"an object named `{name}` already exists in `{scope}`"
  | notFound object => object.text ++ " does not exist"
  | noDesign => "no design block has been created"
  | designExists name => s!"design block `{name}` already exists"
  | moduleInstantiated name => s!"module `{name}` is already instantiated"
  | topModuleInstance => "the top module cannot be instantiated"
  | incompatibleMaster current replacement =>
    s!"master `{replacement}` is not terminal-compatible with `{current}`"

def requireNew (taken : Bool) (name scope : String) : Except Refusal Unit :=
  if taken then .error (.duplicateName name scope) else .ok ()

def Table.known {k : Kind} {α : Type} (t : Table k α) (id : Id k) : Except Refusal α :=
  match t.find? id with
  | some a => .ok a
  | none => .error (.notFound id.object)

def Table.requireLive {k : Kind} {α : Type} (t : Table k α) (id : Id k) : Except Refusal Unit :=
  if t.contains id then .ok () else .error (.notFound id.object)

end DesignView
