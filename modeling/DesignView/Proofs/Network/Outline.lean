import DesignView.Proofs.Network.Change
import DesignView.Proofs.Physical.Reference

/-!
Changes in outline. Most of them leave the name, the modules and the flat nets of the design alone,
and take boundary terminals and module instances out at most. What a network keeps of all these has
to answer for the others one by one, and for those once.
-/

namespace DesignView

/-- The name, the modules and the flat nets are the same; boundary terminals and module instances
are only taken out. -/
structure Design.Trims (d d' : Design) : Prop where
  name : d'.name = d.name
  modules : d'.modules = d.modules
  nets : d'.nets = d.nets
  bterms : d'.bterms.Sub d.bterms
  modBTerms : d'.modBTerms.Sub d.modBTerms
  modInsts : d'.modInsts.Sub d.modInsts

namespace Design.Trims

variable {d d' : Design} {p : Pin} {x : Net}

theorem of_eq (hname : d'.name = d.name) (hmodules : d'.modules = d.modules)
    (hnets : d'.nets = d.nets) (hbterms : d'.bterms = d.bterms)
    (hmodBTerms : d'.modBTerms = d.modBTerms) (hmodInsts : d'.modInsts = d.modInsts) :
    d.Trims d' :=
  ⟨hname, hmodules, hnets, .of_eq hbterms, .of_eq hmodBTerms, .of_eq hmodInsts⟩

theorem attach (e : d.attach? p x = some d') : d.Trims d' := by
  cases p <;> cases x <;> cases e <;> exact of_eq rfl rfl rfl rfl rfl rfl

theorem detach (d : Design) (p : Pin) : d.Trims (d.detach p) := by
  cases p <;> exact of_eq rfl rfl rfl rfl rfl rfl

end Design.Trims

namespace Network

variable {n n' : Network}

inductive Outline (n : Network) : Network → Prop
  | aside (drivers journal) : Outline n { n with drivers, journal }
  | trim {d d'} (hd : n.design? = some d) (h : d.Trims d') : Outline n (n.withDesign d')
  | createModInst {cell x module within name id d d'} (hcell : n.catalog.cell cell = .ok x)
      (hsource : x.source = .module module) (hd : n.design? = some d)
      (h : d.createModInst within module name = .ok (id, d')) : Outline n (n.withDesign d')
  | createNet {name id d d'} (hd : n.design? = some d) (h : d.createNet name = .ok (id, d')) :
      Outline n (n.withDesign d')
  | topTerminal {name direction sig io id d d'} (hd : n.design? = some d)
      (h : d.btermNamed? name = some id ∧ d' = d ∨ d.createBTerm name none = .ok (id, d'))
      (htypes : direction.types? = some (sig, io)) :
      Outline n ((n.withDesign (d'.setBTermTypes id sig io)).setTopPort name direction)
  | destroyNet {id d d'} (hd : n.design? = some d) (h : d.destroyNet id = .ok d') :
      Outline n { n.withDesign d' with constants := n.constants.erase id }
  | forgetConstant {id d} (hd : n.design? = some d) (h : id ∉ d.nets.ids) :
      Outline n { n with constants := n.constants.erase id }
  | destroyModBTerm {id d d'} (hd : n.design? = some d) (h : d.destroyModBTerm id = .ok d') :
      Outline n ({ n with catalog := n.catalog.forgetBoundary id }.withDesign d')
  | bundle {cell name members r c} (h : n.catalog.bundle cell name members = .ok (r, c)) :
      Outline n { n with catalog := c }

theorem Change.outline (s : n.Change n') : n.Outline n' := by
  cases s with
  | drivers m => exact .aside m n.journal
  | journal j => exact .aside n.drivers j
  | createInst e =>
    obtain ⟨-, d, d', hd, hd', rfl⟩ := Database.createInst_ok e
    obtain ⟨-, -, -, rfl⟩ := Design.createInst_ok hd'
    exact .trim hd (.of_eq rfl rfl rfl rfl rfl rfl)
  | swapMaster e =>
    obtain ⟨d, i, hd, -, -, -, rfl⟩ := Database.swapMaster_ok e
    exact .trim hd (.of_eq rfl rfl rfl rfl rfl rfl)
  | createModInst hcell hsource hd e => exact .createModInst hcell hsource hd e
  | createModITerm hd e =>
    obtain ⟨-, -, -, rfl⟩ := Design.createModITerm_ok e
    exact .trim hd (.of_eq rfl rfl rfl rfl rfl rfl)
  | createNet hd e => exact .createNet hd e
  | createModNet hd e =>
    obtain ⟨-, -, -, rfl⟩ := Design.createModNet_ok e
    exact .trim hd (.of_eq rfl rfl rfl rfl rfl rfl)
  | topTerminal hd hmade htypes => exact .topTerminal hd hmade htypes
  | attach hd e => exact .trim hd (.attach e)
  | detach p hd => exact .trim hd (.detach _ p)
  | destroyInst hd e =>
    obtain ⟨-, rfl⟩ := Design.destroyInst_ok e
    exact .trim hd (.of_eq rfl rfl rfl rfl rfl rfl)
  | destroyModInst hd e =>
    obtain ⟨-, rfl⟩ := Design.destroyModInst_ok e
    exact .trim hd ⟨rfl, rfl, rfl, .of_eq rfl, .of_eq rfl, Table.sub_erase ..⟩
  | destroyNet hd e => exact .destroyNet hd e
  | forgetConstant hd hdead => exact .forgetConstant hd hdead
  | destroyModNet hd e =>
    obtain ⟨-, rfl⟩ := Design.destroyModNet_ok e
    exact .trim hd (.of_eq rfl rfl rfl rfl rfl rfl)
  | destroyBTerm hd e =>
    obtain ⟨-, rfl⟩ := Design.destroyBTerm_ok e
    exact .trim hd ⟨rfl, rfl, rfl, Table.sub_erase .., .of_eq rfl, .of_eq rfl⟩
  | destroyModITerm hd e =>
    obtain ⟨-, rfl⟩ := Design.destroyModITerm_ok e
    exact .trim hd (.of_eq rfl rfl rfl rfl rfl rfl)
  | destroyModBTerm hd e => exact .destroyModBTerm hd e
  | bundle e => exact .bundle e

end Network
end DesignView
