import DesignView.Physical.Design.Basic

/-!
Attaching terminals to nets. A terminal of a leaf instance or of the design boundary can be on a
flat net and on a module net at once; a terminal of the module hierarchy can be on a module net
only. Attaching first takes the terminal off its net of the same kind, also when the new net does
not exist.
-/

namespace DesignView.Design

def attachITerm (d : Design) (t : ITermId) (n : NetId) : Design :=
  { d with itermNets := d.itermNets.move t n (d.iterms.contains t && d.nets.contains n) }

def attachITermToModNet (d : Design) (t : ITermId) (n : ModNetId) : Design :=
  { d with itermModNets := d.itermModNets.move t n (d.iterms.contains t && d.modNets.contains n) }

def attachBTerm (d : Design) (t : BTermId) (n : NetId) : Design :=
  { d with btermNets := d.btermNets.move t n (d.bterms.contains t && d.nets.contains n) }

def attachBTermToModNet (d : Design) (t : BTermId) (n : ModNetId) : Design :=
  { d with btermModNets := d.btermModNets.move t n (d.bterms.contains t && d.modNets.contains n) }

def attachModITerm (d : Design) (t : ModITermId) (n : ModNetId) : Design :=
  { d with
    modITermNets := d.modITermNets.move t n (d.modITerms.contains t && d.modNets.contains n) }

def attachModBTerm (d : Design) (t : ModBTermId) (n : ModNetId) : Design :=
  { d with
    modBTermNets := d.modBTermNets.move t n (d.modBTerms.contains t && d.modNets.contains n) }

def detachITerm (d : Design) (t : ITermId) : Design :=
  { d with itermNets := d.itermNets.detach t, itermModNets := d.itermModNets.detach t }

def detachBTerm (d : Design) (t : BTermId) : Design :=
  { d with btermNets := d.btermNets.detach t, btermModNets := d.btermModNets.detach t }

def detachModITerm (d : Design) (t : ModITermId) : Design :=
  { d with modITermNets := d.modITermNets.detach t }

def detachModBTerm (d : Design) (t : ModBTermId) : Design :=
  { d with modBTermNets := d.modBTermNets.detach t }

end DesignView.Design
