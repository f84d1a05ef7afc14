import DesignView.Proofs.Physical.Integrity
import DesignView.Proofs.Records.Store

/-!
Integrity of the records. What is written in one place is in agreement with what is written in the
others: the net of a terminal and the terminals of a net, the maps of names and the names of the
objects, the owner of an object and what the owner lists. So nothing that is there refers to
anything that is not. It is read off the database that the records are drawn from.
-/

namespace DesignView

namespace Records

variable {σ : Type} {k j t n : Kind} {α ω τ ν : Type}

/-- A terminal has a net in its field exactly if the net is there and lists the terminal once. -/
structure Link.Mutual (l : Link t n τ ν) (b : Block) : Prop where
  listed : ∀ x y, (∃ a, (l.terms.get b).find? x = some a ∧ l.net.get a = some y) ↔
    ∃ a, (l.nets.get b).find? y = some a ∧ (l.members.get a).count x = 1
  nodup : ∀ y a, (l.nets.get b).find? y = some a → (l.members.get a).Nodup

/-- A map of names has the objects of one scope, each under its own name, and nothing else. -/
structure Names (names : OrderedMap String (Id k)) (objects : Table k α) (scope : α → Prop)
    (name : α → String) : Prop where
  nodup : names.keys.Nodup
  exact : ∀ c id, names.find? c = some id ↔
    ∃ a, objects.find? id = some a ∧ scope a ∧ name a = c
  injective : ∀ c c' id, names.find? c = some id → names.find? c' = some id → c = c'

/-- The owner of an object is there and lists the object once, and it lists nothing else. -/
structure Owns (objects : Table k α) (owner : α → Id j) (owners : Table j ω)
    (children : ω → List (Id k)) : Prop where
  listed : ∀ x a, objects.find? x = some a →
    ∃ o, owners.find? (owner a) = some o ∧ (children o).count x = 1
  owned : ∀ y o, owners.find? y = some o →
    ∀ x ∈ children o, ∃ a, objects.find? x = some a ∧ owner a = y
  nodup : ∀ y o, owners.find? y = some o → (children o).Nodup

structure Block.Integrity (b : Block) : Prop where
  itermNet : Link.itermNet.Mutual b
  itermModNet : Link.itermModNet.Mutual b
  btermNet : Link.btermNet.Mutual b
  btermModNet : Link.btermModNet.Mutual b
  modITermNet : Link.modITermNet.Mutual b
  modBTermNet : Link.modBTermNet.Mutual b
  instNames : Names b.instNames b.insts (fun _ => True) (·.name)
  btermNames : Names b.btermNames b.bterms (fun _ => True) (·.name)
  netNames : Names b.netNames b.nets (fun _ => True) (·.name)
  moduleNames : Names b.moduleNames b.modules (fun _ => True) (·.name)
  itermNames : ∀ y i, b.insts.find? y = some i → Names i.iterms b.iterms (·.inst = y) (·.name)
  modITermNames : ∀ y i, b.modInsts.find? y = some i →
    Names i.modITerms b.modITerms (·.modInst = y) (·.name)
  modInstNames : ∀ y m, b.modules.find? y = some m →
    Names m.modInsts b.modInsts (·.parent = y) (·.name)
  modBTermNames : ∀ y m, b.modules.find? y = some m →
    Names m.modBTerms b.modBTerms (·.module = y) (·.name)
  modNetNames : ∀ y m, b.modules.find? y = some m →
    Names m.modNets b.modNets (·.module = y) (·.name)
  insts : Owns b.insts (·.module) b.modules (·.insts)
  iterms : Owns b.iterms (·.inst) b.insts (·.iterms.values)
  modInsts : Owns b.modInsts (·.parent) b.modules (·.modInsts.values)
  modITerms : Owns b.modITerms (·.modInst) b.modInsts (·.modITerms.values)
  modBTerms : Owns b.modBTerms (·.module) b.modules (·.modBTerms.values)
  modNets : Owns b.modNets (·.module) b.modules (·.modNets.values)
  instances : Owns b.modInsts (·.master) b.modules (·.modInst?.toList)
  topModule : b.topModule ∈ b.modules.ids

structure Store.Integrity (s : Store) : Prop where
  libNames : Names s.libNames s.libs (fun _ => True) (·.name)
  masterNames : ∀ y l, s.libs.find? y = some l → Names l.masters s.masters (·.lib = y) (·.name)
  mtermNames : ∀ y m, s.masters.find? y = some m → Names m.mterms s.mterms (·.master = y) (·.name)
  masters : Owns s.masters (·.lib) s.libs (·.masters.values)
  mterms : Owns s.mterms (·.master) s.masters (·.mterms.values)
  block : ∀ b, s.block? = some b → b.Integrity
  instMaster : ∀ b, s.block? = some b →
    ∀ x i, b.insts.find? x = some i → i.master ∈ s.masters.ids
  itermMTerm : ∀ b, s.block? = some b → ∀ x t, b.iterms.find? x = some t →
    ∃ i m, b.insts.find? t.inst = some i ∧ s.mterms.find? t.mterm = some m ∧
      m.master = i.master ∧ m.name = t.name

end Records

namespace Table

variable {k j : Kind} {α β γ ω : Type} {t : Table k α} {f : Id k → α → β}

theorem find?_view_eq_some {id : Id k} {b : β} :
    (t.view f).find? id = some b ↔ ∃ a, t.find? id = some a ∧ f id a = b := by
  rw [find?_view, Option.map_eq_some_iff]

theorem Valid.names_names (h : t.Valid) {p : α → Bool} {name : α → String}
    (hone : ∀ x y a b, t.find? x = some a → t.find? y = some b → p a = true → p b = true →
      name a = name b → x = y) {scope : β → Prop} {nameOf : β → String}
    (hscope : ∀ x a, scope (f x a) ↔ p a = true) (hname : ∀ x a, nameOf (f x a) = name a) :
    Records.Names (t.names p name) (t.view f) scope nameOf := by
  have hnodup : (t.names p name).keys.Nodup := by
    rw [OrderedMap.keys, names, List.map_map]
    exact h.nodup_map_values hone
  have hexact (c : String) (id : Id k) : (t.names p name).find? c = some id ↔
      ∃ b, (t.view f).find? id = some b ∧ scope b ∧ nameOf b = c := by
    rw [OrderedMap.find?_eq_some_iff hnodup]
    constructor
    · intro hin
      obtain ⟨e, he, heq⟩ := List.mem_map.1 hin
      obtain ⟨rfl, rfl⟩ := Prod.ext_iff.1 heq
      obtain ⟨hfind, hp⟩ := h.mem_select.1 he
      exact ⟨f e.1 e.2, find?_view_eq_some.2 ⟨e.2, hfind, rfl⟩, (hscope ..).2 hp, hname ..⟩
    · rintro ⟨b, hb, hin, rfl⟩
      obtain ⟨a, ha, rfl⟩ := find?_view_eq_some.1 hb
      refine List.mem_map.2 ⟨(id, a), h.mem_select.2 ⟨ha, (hscope ..).1 hin⟩, ?_⟩
      rw [hname]
  refine ⟨hnodup, hexact, fun c c' id hc hc' => ?_⟩
  obtain ⟨b, hb, -, rfl⟩ := (hexact c id).1 hc
  obtain ⟨b', hb', -, rfl⟩ := (hexact c' id).1 hc'
  rw [Option.some.inj (hb.symm.trans hb')]

theorem Distinct.names {name : α → String} (h : t.Distinct name) (ht : t.Valid)
    {nameOf : β → String} (hname : ∀ x a, nameOf (f x a) = name a := by intros; rfl) :
    Records.Names (t.names (fun _ => true) name) (t.view f) (fun _ => True) nameOf :=
  ht.names_names (fun _ _ _ _ hx hy _ _ => h hx hy)
    (fun _ _ => ⟨fun _ => rfl, fun _ => trivial⟩) hname

theorem Distinct.namesIn {owner : α → Id j} {name : α → String}
    (h : t.Distinct fun a => (owner a, name a)) (ht : t.Valid) {ownerOf : β → Id j}
    {nameOf : β → String} (y : Id j) (howner : ∀ x a, ownerOf (f x a) = owner a := by intros; rfl)
    (hname : ∀ x a, nameOf (f x a) = name a := by intros; rfl) :
    Records.Names (t.names (fun a => owner a = y) name) (t.view f) (ownerOf · = y) nameOf := by
  refine ht.names_names (fun _ _ _ _ hx hz hox hoz heq => ?_) (fun x a => ?_) hname
  · exact h hx hz (Prod.ext ((of_decide_eq_true hox).trans (of_decide_eq_true hoz).symm) heq)
  · rw [howner, decide_eq_true_iff]

theorem Owned.owns {s : Table j γ} {owner : α → Id j} (h : t.Owned owner s) (ht : t.Valid)
    {g : Id j → γ → ω} {ownerOf : β → Id j} {children : ω → List (Id k)}
    (hchildren : ∀ y o, children (g y o) = t.idsWhere fun a => owner a = y)
    (howner : ∀ x a, ownerOf (f x a) = owner a := by intros; rfl) :
    Records.Owns (t.view f) ownerOf (s.view g) children := by
  have hnodup (y : Id j) : (t.idsWhere fun a => owner a = y).Nodup := ht.nodup_map_select _
  refine ⟨fun x b hb => ?_, fun y o ho x hx => ?_, fun y o ho => ?_⟩
  · obtain ⟨a, ha, rfl⟩ := find?_view_eq_some.1 hb
    obtain ⟨o, ho⟩ := mem_ids_iff.1 (h ha)
    refine ⟨g (owner a) o, find?_view_eq_some.2 ⟨o, howner x a ▸ ho, by rw [howner]⟩, ?_⟩
    rw [hchildren]
    exact List.count_eq_one_of_mem (hnodup _) ((ht.mem_idsWhere ha).2 (decide_eq_true rfl))
  · obtain ⟨c, -, rfl⟩ := find?_view_eq_some.1 ho
    rw [hchildren] at hx
    obtain ⟨a, ha, hown⟩ := ht.mem_map_select.1 hx
    exact ⟨f x a, find?_view_eq_some.2 ⟨a, ha, rfl⟩, (howner ..).trans (of_decide_eq_true hown)⟩
  · obtain ⟨c, -, rfl⟩ := find?_view_eq_some.1 ho
    rw [hchildren]
    exact hnodup y

theorem Distinct.toList_firstWhere? [DecidableEq γ] {key : α → γ} (h : t.Distinct key)
    (ht : t.Valid) (c : γ) :
    (t.firstWhere? fun a => key a = c).toList = t.idsWhere fun a => key a = c := by
  rw [firstWhere?_eq_head?]
  have hnodup : (t.idsWhere fun a => key a = c).Nodup := ht.nodup_map_select _
  have hsame (x) (hx : x ∈ t.idsWhere fun a => key a = c) (y)
      (hy : y ∈ t.idsWhere fun a => key a = c) : x = y := by
    obtain ⟨a, ha, hac⟩ := ht.mem_map_select.1 hx
    obtain ⟨b, hb, hbc⟩ := ht.mem_map_select.1 hy
    exact h ha hb ((of_decide_eq_true hac).trans (of_decide_eq_true hbc).symm)
  match hids : t.idsWhere fun a => key a = c with
  | [] => rfl
  | [x] => rfl
  | x :: y :: rest =>
    rw [hids] at hnodup hsame
    have heq : x = y := hsame x List.mem_cons_self y (List.mem_cons_of_mem x List.mem_cons_self)
    exact absurd (heq ▸ List.mem_cons_self) (List.nodup_cons.1 hnodup).1

end Table

theorem Records.Link.Shows.mutual {t n : Kind} {τ ν α β : Type} {l : Link t n τ ν}
    {draw : Attachments t n → Design} {b : Block} {a : Attachments t n} {ts : Table t α}
    {ns : Table n β} (hs : l.Shows draw ts ns b) (h : a.Within ts ns) :
    l.Mutual (draw a).records := by
  have hm : a.Mutual ts ns := h.mutual
  have hterm (x : Id t) : (∃ r, (l.terms.get b).find? x = some r) ↔ x ∈ ts.ids := by
    rw [← Table.mem_ids_iff, ← Table.contains_iff, hs.terms, Table.contains_iff]
  have hnet (y : Id n) : (∃ r, (l.nets.get b).find? y = some r) ↔ y ∈ ns.ids := by
    rw [← Table.mem_ids_iff, ← Table.contains_iff, hs.nets, Table.contains_iff]
  constructor
  · intro x y
    rw [hs.fill, l.terms_fill, l.nets_fill]
    simp only [Table.find?_view_eq_some]
    constructor
    · rintro ⟨-, ⟨r, hr, rfl⟩, hy⟩
      rw [l.net.get_put] at hy
      obtain ⟨hlive, hcount⟩ := (hm.listed x y).1 hy
      obtain ⟨o, ho⟩ := (hnet y).2 hlive
      refine ⟨_, ⟨o, ho, rfl⟩, ?_⟩
      rw [l.members.get_put]
      exact hcount
    · rintro ⟨-, ⟨o, ho, rfl⟩, hcount⟩
      rw [l.members.get_put] at hcount
      have hy : a.netOf x = some y := (hm.listed x y).2 ⟨(hnet y).1 ⟨o, ho⟩, hcount⟩
      obtain ⟨r, hr⟩ := (hterm x).2 (h.live hy).1
      refine ⟨_, ⟨r, hr, rfl⟩, ?_⟩
      rw [l.net.get_put]
      exact hy
  · intro y r hr
    rw [hs.fill, l.nets_fill] at hr
    obtain ⟨o, -, rfl⟩ := Table.find?_view_eq_some.1 hr
    rw [l.members.get_put]
    exact hm.nodup y

theorem Design.WellFormed.records_integrity {d : Design} (h : d.WellFormed) :
    d.records.Integrity where
  itermNet := (shows_itermNets d).mutual h.itermNets
  itermModNet := (shows_itermModNets d).mutual h.itermModNets
  btermNet := (shows_btermNets d).mutual h.btermNets
  btermModNet := (shows_btermModNets d).mutual h.btermModNets
  modITermNet := (shows_modITermNets d).mutual h.modITermNets
  modBTermNet := (shows_modBTermNets d).mutual h.modBTermNets
  instNames := h.instNames.names h.insts
  btermNames := h.btermNames.names h.bterms
  netNames := h.netNames.names h.nets
  moduleNames := h.moduleNames.names h.modules
  itermNames y i hi := by
    obtain ⟨_, -, rfl⟩ := Table.find?_view_eq_some.1 hi
    exact h.itermNames.namesIn h.iterms y
  modITermNames y i hi := by
    obtain ⟨_, -, rfl⟩ := Table.find?_view_eq_some.1 hi
    exact h.modITermNames.namesIn h.modITerms y
  modInstNames y m hm := by
    obtain ⟨_, -, rfl⟩ := Table.find?_view_eq_some.1 hm
    exact h.modInstNames.namesIn h.modInsts y
  modBTermNames y m hm := by
    obtain ⟨_, -, rfl⟩ := Table.find?_view_eq_some.1 hm
    exact h.modBTermNames.namesIn h.modBTerms y
  modNetNames y m hm := by
    obtain ⟨_, -, rfl⟩ := Table.find?_view_eq_some.1 hm
    exact h.modNetNames.namesIn h.modNets y
  insts := h.instModule.owns h.insts fun _ _ => rfl
  iterms := h.itermInst.owns h.iterms fun _ _ => Table.values_names ..
  modInsts := h.modInstParent.owns h.modInsts fun _ _ => Table.values_names ..
  modITerms := h.modITermModInst.owns h.modITerms fun _ _ => Table.values_names ..
  modBTerms := h.modBTermModule.owns h.modBTerms fun _ _ => Table.values_names ..
  modNets := h.modNetModule.owns h.modNets fun _ _ => Table.values_names ..
  instances := h.modInstMaster.owns h.modInsts fun y _ =>
    h.oneInstance.toList_firstWhere? h.modInsts y
  topModule := (Table.ids_view ..).symm ▸ h.topModule

theorem Database.Reachable.records_integrity {db : Database} (h : db.Reachable) :
    db.records.Integrity := by
  have hwf : db.WellFormed := h.wellFormed
  have hblock {b : Records.Block} (hb : db.records.block? = some b) :
      ∃ d, db.design? = some d ∧ d.records = b := Option.map_eq_some_iff.1 hb
  refine
    { libNames := hwf.libNames.names hwf.libs
      masterNames := fun y l hl => ?_
      mtermNames := fun y m hm => ?_
      masters := hwf.masterLib.owns hwf.masters fun _ _ => Table.values_names ..
      mterms := ?_
      block := fun b hb => ?_
      instMaster := fun b hb x i hi => ?_
      itermMTerm := fun b hb x t ht => ?_ }
  · obtain ⟨_, -, rfl⟩ := Table.find?_view_eq_some.1 hl
    exact hwf.masterNames.namesIn hwf.masters y
  · obtain ⟨_, -, rfl⟩ := Table.find?_view_eq_some.1 hm
    show Records.Names _ db.mterms _ _
    rw [← Table.view_self db.mterms]
    exact hwf.mtermNames.namesIn hwf.mterms y
  · show Records.Owns db.mterms _ _ _
    rw [← Table.view_self db.mterms]
    exact hwf.mtermMaster.owns hwf.mterms fun _ _ => Table.values_names ..
  · obtain ⟨d, hd, rfl⟩ := hblock hb
    exact (hwf.design hd).records_integrity
  · obtain ⟨d, hd, rfl⟩ := hblock hb
    obtain ⟨a, ha, rfl⟩ := Table.find?_view_eq_some.1 hi
    exact (Table.ids_view ..).symm ▸ (h.binds hd).master ha
  · obtain ⟨d, hd, rfl⟩ := hblock hb
    obtain ⟨a, ha, rfl⟩ := Table.find?_view_eq_some.1 ht
    obtain ⟨i, m, hi, hm, hmaster, hname⟩ := (h.binds hd).mterm ha
    exact ⟨_, m, Table.find?_view_eq_some.2 ⟨i, hi, rfl⟩, hm, hmaster, hname⟩

/-- After any operations with any arguments the records are in agreement with each other, and they
are those of the database that the operations leave. -/
theorem Records.Store.runAll_integrity (ops : List Operation) :
    (runAll ops).Integrity ∧ runAll ops = (Operation.runAll ops).records := by
  have hrecords : runAll ops = (Operation.runAll ops).records := runAll_records ops
  exact ⟨hrecords ▸ (Operation.runAll_reachable ops).records_integrity, hrecords⟩

/-- A terminal under a number that is used again has no net, after its predecessor was connected to
a net that is not there and to one that is. -/
example : ((Records.Store.runAll [
    .request (.createLib "cells"), .request (.createMaster ⟨1⟩ "BUF"),
    .request (.createMTerm ⟨1⟩ "A" .signal .input), .request (.createDesign "top"),
    .request (.createInst ⟨1⟩ "u1" none), .request (.createNet "n1"),
    .adjust (.attachITerm ⟨1⟩ ⟨7⟩), .adjust (.attachITerm ⟨1⟩ ⟨1⟩),
    .request (.destroyInst ⟨1⟩), .request (.createInst ⟨1⟩ "u2" none)]).block?.map fun b =>
      ((b.iterms.find? ⟨1⟩).map (·.net?), (b.nets.find? ⟨1⟩).map (·.iterms))) =
    some (some none, some []) := rfl

end DesignView
