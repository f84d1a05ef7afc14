import DesignView.Physical.Design.Attach
import DesignView.Physical.Refusal

/-!
Destruction of objects in a design. Instances take their terminals with them; terminals and nets
come off each other. The module of a destroyed module instance keeps what is in it.
-/

namespace DesignView.Design

def destroyInst (d : Design) (id : InstId) : Except Refusal Design := do
  d.insts.requireLive id
  let terms := (d.itermsOf id).map (·.1)
  return { d with
    insts := d.insts.erase id
    iterms := d.iterms.eraseAll terms
    itermNets := d.itermNets.detachAll terms
    itermModNets := d.itermModNets.detachAll terms }

def destroyNet (d : Design) (id : NetId) : Except Refusal Design := do
  d.nets.requireLive id
  return { d with
    nets := d.nets.erase id
    itermNets := d.itermNets.clearNet id
    btermNets := d.btermNets.clearNet id }

def destroyBTerm (d : Design) (id : BTermId) : Except Refusal Design := do
  d.bterms.requireLive id
  let d := d.detachBTerm id
  return { d with bterms := d.bterms.erase id }

def destroyModInst (d : Design) (id : ModInstId) : Except Refusal Design := do
  d.modInsts.requireLive id
  let terms := (d.modITermsOf id).map (·.1)
  return { d with
    modInsts := d.modInsts.erase id
    modITerms := d.modITerms.eraseAll terms
    modITermNets := d.modITermNets.detachAll terms }

def destroyModITerm (d : Design) (id : ModITermId) : Except Refusal Design := do
  d.modITerms.requireLive id
  let d := d.detachModITerm id
  return { d with modITerms := d.modITerms.erase id }

def destroyModBTerm (d : Design) (id : ModBTermId) : Except Refusal Design := do
  d.modBTerms.requireLive id
  let d := d.detachModBTerm id
  return { d with modBTerms := d.modBTerms.erase id }

def destroyModNet (d : Design) (id : ModNetId) : Except Refusal Design := do
  d.modNets.requireLive id
  return { d with
    modNets := d.modNets.erase id
    itermModNets := d.itermModNets.clearNet id
    btermModNets := d.btermModNets.clearNet id
    modITermNets := d.modITermNets.clearNet id
    modBTermNets := d.modBTermNets.clearNet id }

end DesignView.Design
