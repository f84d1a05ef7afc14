import DesignView.Proofs.Physical.History

/-!
Designs with one flat netlist. They have the same leaf instances, terminals and flat nets, with the
same terminals on each net; their modules, and where in these an instance is placed, may be
anything. What is read of the flat netlist is the same in both.
-/

namespace DesignView

namespace Table

variable {k : Kind} {α : Type} {t t' : Table k α}

theorem find?_congr (h : t'.objects = t.objects) : t'.find? = t.find? := by
  funext id
  rw [find?, h, find?]

theorem fetch_congr (h : t'.objects = t.objects) : t'.fetch = t.fetch := by
  funext id
  rw [fetch, find?_congr h, fetch]

theorem entries_congr (h : t'.objects = t.objects) : t'.entries = t.entries := by
  rw [entries, h, entries]

theorem ids_congr (h : t'.objects = t.objects) : t'.ids = t.ids := by
  rw [ids, h, ids]

theorem select_congr (h : t'.objects = t.objects) : t'.select = t.select := by
  funext p
  rw [select, entries_congr h, select]

theorem firstWhere?_congr (h : t'.objects = t.objects) : t'.firstWhere? = t.firstWhere? := by
  funext p
  rw [firstWhere?, h, firstWhere?]

end Table

namespace Design

def flatInsts (d : Design) : List (InstId × String × MasterId) :=
  d.insts.entries.map fun e => (e.1, e.2.name, e.2.master)

structure SameFlat (d d' : Design) : Prop where
  name : d'.name = d.name
  insts : d'.flatInsts = d.flatInsts
  iterms : d'.iterms.objects = d.iterms.objects
  bterms : d'.bterms.objects = d.bterms.objects
  nets : d'.nets.objects = d.nets.objects
  flags : ∀ name, d'.flag? name = d.flag? name
  itermNets : ∀ x, d'.itermNets.members x = d.itermNets.members x
  btermNets : ∀ x, d'.btermNets.members x = d.btermNets.members x

variable {d d' : Design}

theorem ids_eq_flatInsts (d : Design) : d.insts.ids = d.flatInsts.map (·.1) := by
  rw [flatInsts, List.map_map]
  rfl

theorem instNamed?_eq_flatInsts (d : Design) (name : String) :
    d.instNamed? name = (d.flatInsts.find? fun e => e.2.1 = name).map (·.1) := by
  rw [flatInsts, List.find?_map, Option.map_map]
  rfl

theorem contains_eq_flatInsts (d : Design) (id : InstId) :
    (d.insts.find? id).isSome = (d.flatInsts.find? fun e => e.1 = id).isSome := by
  rw [flatInsts, List.find?_map, Option.isSome_map, Table.find?, OrderedMap.find?,
    Option.isSome_map]
  rfl

namespace SameFlat

theorem ids (h : d.SameFlat d') : d'.insts.ids = d.insts.ids := by
  rw [ids_eq_flatInsts, h.insts, ids_eq_flatInsts]

theorem instNamed? (h : d.SameFlat d') (name : String) : d'.instNamed? name = d.instNamed? name := by
  rw [instNamed?_eq_flatInsts, h.insts, instNamed?_eq_flatInsts]

theorem inst_bind (h : d.SameFlat d') (id : InstId) {α : Type} (answer : Except Fault α) :
    (d'.inst id >>= fun _ => answer) = d.inst id >>= fun _ => answer := by
  have hsome : (d'.insts.find? id).isSome = (d.insts.find? id).isSome := by
    rw [contains_eq_flatInsts, h.insts, contains_eq_flatInsts]
  unfold inst Table.fetch
  cases hd : d.insts.find? id <;> cases hd' : d'.insts.find? id
  case none.none | some.some => rfl
  all_goals
    rw [hd, hd'] at hsome
    cases hsome

theorem iterm (h : d.SameFlat d') (id : ITermId) : d'.iterm id = d.iterm id :=
  congrFun (Table.fetch_congr h.iterms) id

theorem bterm (h : d.SameFlat d') (id : BTermId) : d'.bterm id = d.bterm id :=
  congrFun (Table.fetch_congr h.bterms) id

theorem itermsOf (h : d.SameFlat d') (id : InstId) : d'.itermsOf id = d.itermsOf id :=
  congrFun (Table.select_congr h.iterms) _

theorem itermOf (h : d.SameFlat d') (id : InstId) (name : String) :
    d'.itermOf id name = d.itermOf id name := by
  have hnamed : d'.itermNamed? id name = d.itermNamed? id name :=
    congrFun (Table.firstWhere?_congr h.iterms) _
  rw [Design.itermOf, hnamed]
  exact h.inst_bind id _

theorem btermNamed? (h : d.SameFlat d') (name : String) :
    d'.btermNamed? name = d.btermNamed? name := congrFun (Table.firstWhere?_congr h.bterms) _

theorem netNamed? (h : d.SameFlat d') (name : String) : d'.netNamed? name = d.netNamed? name :=
  congrFun (Table.firstWhere?_congr h.nets) _

end SameFlat

theorem netOf_congr {t n : Kind} {a a' : Attachments t n} (ha : a.keys.Nodup) (ha' : a'.keys.Nodup)
    (h : ∀ y, a'.members y = a.members y) (x : Id t) : a'.netOf x = a.netOf x := by
  refine Option.ext fun y => ?_
  rw [← Attachments.mem_members ha', h y, Attachments.mem_members ha]

end Design

namespace Database

/-- The databases have the same libraries and masters, and designs with the same flat netlist. -/
structure SameFlat (db db' : Database) : Prop where
  libs : db'.libs.objects = db.libs.objects
  masters : db'.masters.objects = db.masters.objects
  mterms : db'.mterms.objects = db.mterms.objects
  design : db.design?.Rel Design.SameFlat db'.design?

variable {db db' : Database}

namespace SameFlat

theorem designs (h : db.SameFlat db') : db.design? = none ∧ db'.design? = none ∨
    ∃ d d', db.design? = some d ∧ db'.design? = some d' ∧ d.SameFlat d' := by
  obtain ⟨-, -, -, hdesign⟩ := h
  revert hdesign
  cases db.design? <;> cases db'.design? <;> intro hdesign
  · exact .inl ⟨rfl, rfl⟩
  · cases hdesign
  · cases hdesign
  · cases hdesign with
    | some hd => exact .inr ⟨_, _, rfl, rfl, hd⟩

theorem mastersOf (h : db.SameFlat db') (id : LibId) : db'.mastersOf id = db.mastersOf id :=
  congrFun (Table.select_congr h.masters) _

theorem mtermsOf (h : db.SameFlat db') (id : MasterId) : db'.mtermsOf id = db.mtermsOf id :=
  congrFun (Table.select_congr h.mterms) _

theorem itermTypes? (h : db.SameFlat db') (id : ITermId) :
    db'.itermTypes? id = db.itermTypes? id := by
  unfold Database.itermTypes?
  rcases h.designs with ⟨hd, hd'⟩ | ⟨d, d', hd, hd', hsame⟩
  · rw [hd, hd']
  · simp only [hd, hd', hsame.iterm, Table.find?_congr h.mterms]

theorem isSome_design? (h : db.SameFlat db') : db'.design?.isSome = db.design?.isSome := by
  rcases h.designs with ⟨hd, hd'⟩ | ⟨d, d', hd, hd', -⟩
  · rw [hd, hd']
  · rw [hd, hd', Option.isSome_some, Option.isSome_some]

end SameFlat
end Database
end DesignView
