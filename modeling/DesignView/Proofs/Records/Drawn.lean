import DesignView.Proofs.Physical.InPlace
import DesignView.Proofs.Records.Link

/-!
A design drawn as records.
-/

namespace DesignView

namespace InPlace

variable {σ τ α β γ δ : Type} {ρ : σ → τ} {s : σ}

theorem exec_write (g : σ → σ) (q : Unit → InPlace σ α) (s : σ) :
    (write g >>= q).exec s = (q ()).exec (g s) := rfl

/-- On a state that is drawn from another one the program does what is drawn from a step of that
one. -/
def Carries (ρ : σ → τ) (s : σ) (p : InPlace τ α) (step : Except Refusal (α × σ)) : Prop :=
  p.exec (ρ s) = ((settle s step).1, ρ (settle s step).2)

theorem Carries.check {c : τ → Except Refusal γ} {q : γ → InPlace τ α} {r : Except Refusal δ}
    {f : δ → Except Refusal (α × σ)} (g : δ → γ) (hc : c (ρ s) = r.map g)
    (hq : ∀ a, r = .ok a → Carries ρ s (q (g a)) (f a)) :
    Carries ρ s (InPlace.check c >>= q) (r >>= f) := by
  rw [Carries, exec_bind, exec_check, hc]
  cases r with
  | ok a => exact hq a rfl
  | error e => rfl

theorem Carries.check_same {c : τ → Except Refusal γ} {q : γ → InPlace τ α} {r : Except Refusal γ}
    {f : γ → Except Refusal (α × σ)} (hc : c (ρ s) = r)
    (hq : ∀ a, r = .ok a → Carries ρ s (q a) (f a)) :
    Carries ρ s (InPlace.check c >>= q) (r >>= f) := by
  refine .check (fun a => a) ?_ hq
  rw [hc]
  cases r <;> rfl

theorem Carries.skip {c : τ → Except Refusal γ} {q : γ → InPlace τ α} {a : γ}
    {step : Except Refusal (α × σ)} (hc : c (ρ s) = .ok a) (hq : Carries ρ s (q a) step) :
    Carries ρ s (InPlace.check c >>= q) step := by
  rw [Carries, exec_bind, exec_check, hc]
  exact hq

theorem Carries.done {p : InPlace τ Unit} {r : Except Refusal δ} {f : δ → σ}
    (h : Carries ρ s p (r >>= fun a => .ok ((), f a))) :
    Carries ρ s p (return ((), ← (r >>= fun a => pure (f a)))) := by
  cases r with
  | ok a => exact h
  | error e => exact h

end InPlace

namespace Design

variable (d : Design)

def instRecord (id : InstId) (i : Inst) : Records.Inst where
  name := i.name
  master := i.master
  module := i.module
  iterms := d.iterms.names (fun t => t.inst = id) (·.name)

def itermRecord (id : ITermId) (t : ITerm) : Records.ITerm where
  inst := t.inst
  mterm := t.mterm
  name := t.name
  net? := d.itermNets.netOf id
  modNet? := d.itermModNets.netOf id

def btermRecord (id : BTermId) (t : BTerm) : Records.BTerm where
  name := t.name
  net? := d.btermNets.netOf id
  modNet? := d.btermModNets.netOf id
  sig := t.sig
  io := t.io

def netRecord (id : NetId) (n : FlatNet) : Records.Net where
  name := n.name
  sig := n.sig
  special := n.special
  iterms := d.itermNets.members id
  bterms := d.btermNets.members id

def moduleRecord (id : ModuleId) (m : Module) : Records.Module where
  name := m.name
  modInst? := d.instanceOf? id
  insts := d.instsIn id
  modInsts := d.modInsts.names (fun i => i.parent = id) (·.name)
  modBTerms := d.modBTerms.names (fun t => t.module = id) (·.name)
  modNets := d.modNets.names (fun n => n.module = id) (·.name)

def modInstRecord (id : ModInstId) (i : ModInst) : Records.ModInst where
  name := i.name
  parent := i.parent
  master := i.master
  modITerms := d.modITerms.names (fun t => t.modInst = id) (·.name)

def modITermRecord (id : ModITermId) (t : ModITerm) : Records.ModITerm where
  name := t.name
  modInst := t.modInst
  modNet? := d.modITermNets.netOf id

def modBTermRecord (id : ModBTermId) (t : ModBTerm) : Records.ModBTerm where
  name := t.name
  module := t.module
  modNet? := d.modBTermNets.netOf id
  sig := t.sig
  io := t.io

def modNetRecord (id : ModNetId) (n : ModNet) : Records.ModNet where
  name := n.name
  module := n.module
  iterms := d.itermModNets.members id
  bterms := d.btermModNets.members id
  modITerms := d.modITermNets.members id
  modBTerms := d.modBTermNets.members id

def records : Records.Block where
  name := d.name
  topModule := d.topModule
  insts := d.insts.view d.instRecord
  instNames := d.insts.names (fun _ => true) (·.name)
  iterms := d.iterms.view d.itermRecord
  bterms := d.bterms.view d.btermRecord
  btermNames := d.bterms.names (fun _ => true) (·.name)
  nets := d.nets.view d.netRecord
  netNames := d.nets.names (fun _ => true) (·.name)
  modules := d.modules.view d.moduleRecord
  moduleNames := d.modules.names (fun _ => true) (·.name)
  modInsts := d.modInsts.view d.modInstRecord
  modITerms := d.modITerms.view d.modITermRecord
  modBTerms := d.modBTerms.view d.modBTermRecord
  modNets := d.modNets.view d.modNetRecord
  flags := d.flags

end Design

namespace Table

variable {k : Kind} {α β : Type}

theorem known_view (t : Table k α) (f : Id k → α → β) (id : Id k) :
    (t.view f).known id = (t.known id).map (f id) := by
  simp only [known, find?_view]
  cases t.find? id <;> rfl

theorem requireLive_eq_known (t : Table k α) (id : Id k) :
    t.requireLive id = (t.known id).map fun _ => () := by
  rw [requireLive, known]
  cases hfind : t.find? id with
  | some a => exact if_pos (contains_iff.2 (mem_ids_of_find? hfind))
  | none => exact if_neg (mt contains_iff.1 (find?_eq_none_iff.1 hfind))

theorem requireLive_view (t : Table k α) (f : Id k → α → β) (id : Id k) :
    (t.view f).requireLive id = t.requireLive id := by
  rw [requireLive, contains_view, requireLive]

end Table

namespace Records

open InPlace (Carries settle)

variable {σ τ : Type} {ρ : σ → τ} {s : σ} {k j : Kind} {α β γ ω : Type} {name : String}
  {taken : Bool} {t : Table k α} {f : Id k → α → β} {a : α} {b : β}

theorem takeOut_carries (objects : Slot τ (Table k β)) (hobjects : objects.get (ρ s) = t.view f)
    {id : Id k} {q : β → InPlace τ Unit} {s' : σ}
    (hq : ∀ a, t.find? id = some a →
      (q (f id a)).exec (objects.put ((t.erase id).view f) (ρ s)) = (.ok (), ρ s')) :
    Carries ρ s (InPlace.takeOut objects.get objects.put id >>= q)
      (t.requireLive id >>= fun _ => .ok ((), s')) := by
  rw [Carries, InPlace.exec_bind, InPlace.exec_takeOut, hobjects, Table.known_view,
    Table.erase_view]
  cases hfind : t.find? id with
  | some a =>
    have hlive : t.requireLive id = .ok () :=
      if_pos (Table.contains_iff.2 (Table.mem_ids_of_find? hfind))
    rw [Table.known_eq_ok.2 hfind, hlive]
    exact hq a hfind
  | none =>
    have habsent : id ∉ t.ids := Table.find?_eq_none_iff.1 hfind
    rw [Table.known, hfind, Table.requireLive, if_neg (mt Table.contains_iff.1 habsent),
      Table.erase_of_not_mem habsent, ← hobjects, objects.put_get]
    rfl

theorem Index.create_carries (c : Index τ k β) (key : α → String) (a : α) (ht : t.Valid)
    (hobjects : c.objects.get (ρ s) = t.view f)
    (hnames : c.names.get (ρ s) = t.names (fun _ => true) key) {b : β} {s' : σ}
    (hb : f (t.insert a).1 a = b)
    (hs' : ρ s' = c.names.put ((t.insert a).2.names (fun _ => true) key)
      (c.objects.put ((t.insert a).2.view f) (ρ s))) :
    Carries ρ s (c.create (key a) b)
      (requireNew (t.firstWhere? fun b => key b = key a).isSome (key a) (c.title (ρ s)) >>= fun _ =>
        .ok ((t.insert a).1, s')) := by
  have htaken : (c.names.get (ρ s)).contains (key a) =
      (t.firstWhere? fun b => key b = key a).isSome := by
    rw [hnames]
    exact Table.contains_names ..
  refine .check_same ?_ fun _ hnew => ?_
  · rw [htaken]
  · have hinsert : (t.insert a).2.names (fun _ => true) key =
        (t.names (fun _ => true) key).insert (key a) (t.insert a).1 :=
      ht.names_insert fun _ => hnames ▸ htaken.trans (requireNew_eq_ok.1 hnew)
    show (Except.ok ((c.objects.get (ρ s)).insert b).1,
      c.names.modify (·.insert (key a) ((c.objects.get (ρ s)).insert b).1)
        (c.objects.put ((c.objects.get (ρ s)).insert b).2 (ρ s))) = (Except.ok (t.insert a).1, ρ s')
    rw [hs', hinsert, ht.view_insert hb fun _ _ _ => rfl, hobjects, Table.insert_view_fst t f a,
      Slot.modify, c.apart.get_put', hnames]

namespace Scope

variable (c : Scope τ j ω k β) {ts : Table j γ} {g : Id j → γ → ω} {own : α → Id j}
  {key : α → String}

theorem create_carries (own : α → Id j) (key : α → String) (a : α) (ht : t.Valid)
    (howners : c.owners.get (ρ s) = ts.view g)
    (hobjects : c.objects.get (ρ s) = t.view f)
    (hnames : ∀ x o, c.names.get (g x o) = t.names (fun b => own b = x) key)
    {title : γ → String} (htitle : ∀ x o, c.title (g x o) = title o) {b : β} {s' : σ}
    (hb : f (t.insert a).1 a = b)
    (hs' : ρ s' = c.owners.put
      (ts.view fun x o => c.names.put ((t.insert a).2.names (fun b => own b = x) key) (g x o))
      (c.objects.put ((t.insert a).2.view f) (ρ s))) :
    Carries ρ s (c.create (own a) (key a) b) (ts.known (own a) >>= fun o =>
      requireNew (t.firstWhere? fun b => own b = own a && key b = key a).isSome (key a)
        (title o) >>= fun _ => .ok ((t.insert a).1, s')) := by
  have htaken (o : γ) : (c.names.get (g (own a) o)).contains (key a) =
      (t.firstWhere? fun b => own b = own a && key b = key a).isSome := by
    rw [hnames]
    exact Table.contains_names ..
  refine .check (g (own a)) ?_ fun o _ => .check_same ?_ fun _ hnew => ?_
  · rw [howners, Table.known_view]
  · rw [htitle, htaken]
  · have hinsert (x : Id j) (o : γ) :
        c.names.put ((t.insert a).2.names (fun b => own b = x) key) (g x o) =
          if x = own a then c.names.modify (·.insert (key a) (t.insert a).1) (g x o)
          else g x o := by
      rw [ht.namesOf_insert (hnames .. ▸ (htaken o).trans (requireNew_eq_ok.1 hnew)), ← hnames x o]
      split
      · rfl
      · exact c.names.put_get _
    show (Except.ok ((c.objects.get (ρ s)).insert b).1,
      c.owners.modify (·.modify (own a)
          (c.names.modify (·.insert (key a) ((c.objects.get (ρ s)).insert b).1)))
        (c.objects.put ((c.objects.get (ρ s)).insert b).2 (ρ s))) = (Except.ok (t.insert a).1, ρ s')
    rw [hs', ht.view_insert hb fun _ _ _ => rfl, hobjects, Table.insert_view_fst t f a, Slot.modify,
      c.apart.get_put, howners, Table.modify_view]
    simp only [hinsert]

theorem destroy_carries (ht : t.Valid) (hkeys : t.Distinct fun b => (own b, key b)) {r s' : σ}
    {id : Id k} {f₀ : Id k → α → β} {disconnect : Id k → τ → τ}
    (hbefore : c.objects.get (ρ s) = t.view f₀) (hdisconnect : disconnect id (ρ s) = ρ r)
    (howners : c.owners.get (ρ r) = ts.view g) (hobjects : c.objects.get (ρ r) = t.view f)
    (hnames : ∀ x o, c.names.get (g x o) = t.names (fun b => own b = x) key)
    {ownerOf : β → Id j} {nameOf : β → String} (howner : ∀ x b, ownerOf (f x b) = own b)
    (hname : ∀ x b, nameOf (f x b) = key b)
    (hs' : ρ s' = c.owners.put
      (ts.view fun x o => c.names.put ((t.erase id).names (fun b => own b = x) key) (g x o))
      (c.objects.put ((t.erase id).view f) (ρ r))) :
    Carries ρ s (c.destroy disconnect ownerOf nameOf id)
      (t.requireLive id >>= fun _ => .ok ((), s')) := by
  refine .check_same ?_ fun _ hlive => ?_
  · rw [hbefore, Table.requireLive_view]
  · obtain ⟨a, ha⟩ := Table.mem_ids_iff.1 (Table.requireLive_eq_ok.1 hlive)
    have hfind : (c.objects.get (ρ r)).find? id = some (f id a) := by
      rw [hobjects, Table.find?_view, ha]
      rfl
    have hremove : (InPlace.remove c.objects id).exec (disconnect id (ρ s)) =
        (.ok (some (f id a)), c.objects.put ((t.erase id).view f) (ρ r)) := by
      rw [hdisconnect, ← hfind, ← Table.erase_view, ← hobjects]
      rfl
    have herase (x : Id j) (o : γ) :
        c.names.put ((t.erase id).names (fun b => own b = x) key) (g x o) =
          if x = own a then c.names.modify (·.erase (key a)) (g x o) else g x o := by
      rw [ht.namesOf_erase ha fun x b hb hown hkey => hkeys hb ha (Prod.ext hown hkey),
        ← hnames x o]
      split
      · rfl
      · exact c.names.put_get _
    rw [Carries, InPlace.exec_write, InPlace.exec_bind, hremove]
    show (Except.ok (), c.owners.modify (·.modify (ownerOf (f id a))
      (c.names.modify (·.erase (nameOf (f id a))))) (c.objects.put ((t.erase id).view f) (ρ r))) =
        (Except.ok (), ρ s')
    rw [hs', howner, hname, Slot.modify, c.apart.get_put, howners, Table.modify_view]
    simp only [herase]

end Scope
end Records

namespace Table.Owned

variable {k j : Kind} {α β γ : Type} {t : Table k α} {owner : α → Id j} {s : Table j β} {y : Id j}

theorem select_of_dead (h : t.Owned owner s) (ht : t.Valid) (hy : y ∉ s.ids) :
    t.select (fun a => owner a = y) = [] := by
  refine List.filter_eq_nil_iff.2 fun e he hown => hy ?_
  exact of_decide_eq_true hown ▸ h (ht.find?_eq_some_iff.2 he)

theorem names_of_dead (h : t.Owned owner s) (ht : t.Valid) (hy : y ∉ s.ids) (name : α → γ) :
    t.names (fun a => owner a = y) name = {} := by
  rw [names, h.select_of_dead ht hy]
  rfl

theorem idsWhere_of_dead (h : t.Owned owner s) (ht : t.Valid) (hy : y ∉ s.ids) :
    t.idsWhere (fun a => owner a = y) = [] := by
  rw [idsWhere, h.select_of_dead ht hy]
  rfl

theorem firstWhere?_of_dead (h : t.Owned owner s) (ht : t.Valid) (hy : y ∉ s.ids) :
    t.firstWhere? (fun a => owner a = y) = none := by
  rw [firstWhere?_eq_head?, h.idsWhere_of_dead ht hy]
  rfl

end Table.Owned

theorem Attachments.Within.netOf_of_dead {t n : Kind} {α β : Type} {a : Attachments t n}
    {ts : Table t α} {ns : Table n β} (h : a.Within ts ns) {x : Id t} (hx : x ∉ ts.ids) :
    a.netOf x = none := by
  refine Option.eq_none_iff_forall_ne_some.2 fun y hy => hx (h.live hy).1

theorem Attachments.Within.members_of_dead {t n : Kind} {α β : Type} {a : Attachments t n}
    {ts : Table t α} {ns : Table n β} (h : a.Within ts ns) {y : Id n} (hy : y ∉ ns.ids) :
    a.members y = [] := by
  refine List.eq_nil_iff_forall_not_mem.2 fun x hx => hy ?_
  exact (h.live ((Attachments.mem_members h.nodup).1 hx)).2

namespace Records.Link

variable {t n : Kind} {τ ν α β : Type} {l : Link t n τ ν}
  {draw : Attachments t n → Design} {b : Block} {a : Attachments t n} {ts : Table t α}
  {ns : Table n β}

structure Shows (l : Link t n τ ν) (draw : Attachments t n → Design) (ts : Table t α)
    (ns : Table n β) (b : Block) : Prop where
  fill : ∀ a, (draw a).records = l.fill a.ends b
  terms : ∀ x, (l.terms.get b).contains x = ts.contains x
  nets : ∀ y, (l.nets.get b).contains y = ns.contains y

namespace Shows

theorem live (hs : l.Shows draw ts ns b) (h : a.Within ts ns) (x : Id t) (y : Id n)
    (hy : a.ends.net x = some y) : x ∈ (l.terms.get b).ids := by
  rw [← Table.contains_iff, hs.terms, Table.contains_iff]
  exact (h.live hy).1

theorem detach (hs : l.Shows draw ts ns b) (h : a.Within ts ns) (x : Id t) :
    l.disconnect x (draw a).records = (draw (a.detach x)).records := by
  rw [hs.fill, l.disconnect_fill _ b (hs.live h x), hs.fill, Attachments.ends_detach h.nodup]

theorem move (hs : l.Shows draw ts ns b) (h : a.Within ts ns) (x : Id t) (y : Id n) :
    l.connect x y (draw a).records =
      (draw (a.move x y (ts.contains x && ns.contains y))).records := by
  rw [hs.fill, l.connect_fill _ b (hs.live h x), hs.fill, Attachments.ends_move h.nodup, hs.terms,
    hs.nets]

theorem clearNet (hs : l.Shows draw ts ns b) (h : a.keys.Nodup) {y : Id n} (hy : y ∉ ns.ids) :
    l.release (a.members y) (draw a).records = (draw (a.clearNet y)).records := by
  have hdead : y ∉ (l.nets.get b).ids := by
    rwa [← Table.contains_iff, hs.nets, Table.contains_iff]
  rw [hs.fill, l.release_fill, hs.fill, Attachments.ends_clearNet h, TwoEnds.dropNet,
    l.fill_setTerms_of_dead _ b hdead]
  rfl

end Shows
end Records.Link

namespace Design

open Records (Link)

variable (d : Design)

theorem shows_itermNets :
    Link.itermNet.Shows (fun a => { d with itermNets := a }) d.iterms d.nets d.records := by
  refine ⟨fun a => ?_, fun _ => Table.contains_view .., fun _ => Table.contains_view ..⟩
  simp only [Link.fill, Link.itermNet, Slot.modify, Slot.iterms, Slot.nets, records,
    Table.view_view]
  rfl

theorem shows_itermModNets :
    Link.itermModNet.Shows (fun a => { d with itermModNets := a }) d.iterms d.modNets
      d.records := by
  refine ⟨fun a => ?_, fun _ => Table.contains_view .., fun _ => Table.contains_view ..⟩
  simp only [Link.fill, Link.itermModNet, Slot.modify, Slot.iterms, Slot.modNets, records,
    Table.view_view]
  rfl

theorem shows_btermNets :
    Link.btermNet.Shows (fun a => { d with btermNets := a }) d.bterms d.nets d.records := by
  refine ⟨fun a => ?_, fun _ => Table.contains_view .., fun _ => Table.contains_view ..⟩
  simp only [Link.fill, Link.btermNet, Slot.modify, Slot.bterms, Slot.nets, records,
    Table.view_view]
  rfl

theorem shows_btermModNets :
    Link.btermModNet.Shows (fun a => { d with btermModNets := a }) d.bterms d.modNets
      d.records := by
  refine ⟨fun a => ?_, fun _ => Table.contains_view .., fun _ => Table.contains_view ..⟩
  simp only [Link.fill, Link.btermModNet, Slot.modify, Slot.bterms, Slot.modNets, records,
    Table.view_view]
  rfl

theorem shows_modITermNets :
    Link.modITermNet.Shows (fun a => { d with modITermNets := a }) d.modITerms d.modNets
      d.records := by
  refine ⟨fun a => ?_, fun _ => Table.contains_view .., fun _ => Table.contains_view ..⟩
  simp only [Link.fill, Link.modITermNet, Slot.modify, Slot.modITerms, Slot.modNets, records,
    Table.view_view]
  rfl

theorem shows_modBTermNets :
    Link.modBTermNet.Shows (fun a => { d with modBTermNets := a }) d.modBTerms d.modNets
      d.records := by
  refine ⟨fun a => ?_, fun _ => Table.contains_view .., fun _ => Table.contains_view ..⟩
  simp only [Link.fill, Link.modBTermNet, Slot.modify, Slot.modBTerms, Slot.modNets, records,
    Table.view_view]
  rfl

end Design
end DesignView
