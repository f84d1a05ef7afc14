/-!
The kinds of database objects, untyped objects, and typed ids. An id is a sequence number within its
kind; sequence numbers start at one.
-/

namespace DesignView

inductive Kind where
  | lib | master | mterm | block | inst | iterm | bterm | net
  | module | modInst | modITerm | modBTerm | modNet
  deriving DecidableEq

namespace Kind

def all : List Kind :=
  [lib, master, mterm, block, inst, iterm, bterm, net, module, modInst, modITerm, modBTerm, modNet]

def name : Kind → String
  | lib => "Lib"
  | master => "Master"
  | mterm => "MTerm"
  | block => "Block"
  | inst => "Inst"
  | iterm => "ITerm"
  | bterm => "BTerm"
  | net => "Net"
  | module => "Module"
  | modInst => "ModInst"
  | modITerm => "ModITerm"
  | modBTerm => "ModBTerm"
  | modNet => "ModNet"

def stem : Kind → String
  | lib => "lib"
  | master => "master"
  | mterm => "mterm"
  | block => "block"
  | inst => "inst"
  | iterm => "iterm"
  | bterm => "bterm"
  | net => "net"
  | module => "module"
  | modInst => "modinst"
  | modITerm => "moditerm"
  | modBTerm => "modbterm"
  | modNet => "modnet"

end Kind

structure Object where
  kind : Kind
  seq : Nat
  deriving DecidableEq

def Object.text (o : Object) : String := o.kind.stem ++ toString o.seq

structure Id (k : Kind) where
  seq : Nat
  deriving DecidableEq

namespace Id

variable {k : Kind}

def object (id : Id k) : Object := ⟨k, id.seq⟩

def text (id : Id k) : String := id.object.text

def label (id : Id k) : String := k.name ++ "#" ++ toString id.seq

end Id

abbrev LibId := Id .lib
abbrev MasterId := Id .master
abbrev MTermId := Id .mterm
abbrev InstId := Id .inst
abbrev ITermId := Id .iterm
abbrev BTermId := Id .bterm
abbrev NetId := Id .net
abbrev ModuleId := Id .module
abbrev ModInstId := Id .modInst
abbrev ModITermId := Id .modITerm
abbrev ModBTermId := Id .modBTerm
abbrev ModNetId := Id .modNet

end DesignView
