import DesignView.Proofs.Physical.History

/-!
Leaf instances follow their masters. Every instance is of a master that exists, and every terminal
of an instance stands for the terminal of its name of that master. Replacing a master keeps this,
because the new master has terminals of the same names.
-/

namespace DesignView.Database

variable {db db' : Database} {d d' : Design} {name : String}

structure Binds (db : Database) (d : Design) : Prop where
  master : ∀ ⦃i a⦄, d.insts.find? i = some a → a.master ∈ db.masters.ids
  mterm : ∀ ⦃t x⦄, d.iterms.find? t = some x → ∃ i m, d.insts.find? x.inst = some i ∧
    db.mterms.find? x.mterm = some m ∧ m.master = i.master ∧ m.name = x.name

theorem binds_empty (db : Database) (name : String) : db.Binds (Design.empty name) where
  master _ _ h := by cases h
  mterm _ _ h := by cases h

namespace Binds

theorem grow (h : db.Binds d) (hmasters : ∀ ⦃m⦄, m ∈ db.masters.ids → m ∈ db'.masters.ids)
    (hmterms : ∀ ⦃t m⦄, db.mterms.find? t = some m → db'.mterms.find? t = some m) :
    db'.Binds d := by
  refine ⟨fun i a hi => hmasters (h.master hi), fun t x ht => ?_⟩
  obtain ⟨i, m, hi, hm, hmaster, hname⟩ := h.mterm ht
  exact ⟨i, m, hi, hmterms hm, hmaster, hname⟩

theorem shrink (h : db.Binds d) (hwf : d'.WellFormed)
    (hinsts : d'.insts.Sub d.insts) (hiterms : d'.iterms.Sub d.iterms) : db.Binds d' := by
  refine ⟨fun i a hi => h.master (hinsts hi), fun t x ht => ?_⟩
  obtain ⟨i, m, hi, hm, hmaster, hname⟩ := h.mterm (hiterms ht)
  obtain ⟨i', hi'⟩ := Table.mem_ids_iff.1 (hwf.itermInst ht)
  obtain rfl : i' = i := Option.some.inj ((hinsts hi').symm.trans hi)
  exact ⟨i', m, hi', hm, hmaster, hname⟩

theorem createInst (h : db.Binds d) (hdb : db.WellFormed) (hwf : d.WellFormed)
    {master : MasterId} {module? : Option ModuleId} {id : InstId} (hm : master ∈ db.masters.ids)
    (e : d.createInst name master (db.mtermsOf master) module? = .ok (id, d')) : db.Binds d' := by
  obtain ⟨-, -, hid, rfl⟩ := Design.createInst_ok e
  constructor
  · intro i a hi
    rw [Table.find?_insert] at hi
    split at hi
    · cases hi
      exact hm
    · exact h.master hi
  · intro t x ht
    rcases Table.find?_insertAll _ ht with ht | ⟨⟨mt, m⟩, hin, rfl⟩
    · obtain ⟨i, m, hi, hmt, hmaster, hname⟩ := h.mterm ht
      exact ⟨i, m, hwf.insts.find?_insert_of_some _ hi, hmt, hmaster, hname⟩
    · obtain ⟨hmt, hmaster⟩ := hdb.mterms.mem_select.1 hin
      have hnew : (d.insts.insert ⟨name, master, module?.getD d.topModule⟩).2.find? id =
          some ⟨name, master, module?.getD d.topModule⟩ := by
        rw [Table.find?_insert, ← hid, if_pos rfl]
      exact ⟨_, m, hnew, hmt, of_decide_eq_true hmaster, rfl⟩

theorem exists_replacement (hdb : db.WellFormed) {a b : MasterId} {t : MTermId} {m : MTerm}
    (hsame : db.sameTerminals a b = true) (ht : db.mterms.find? t = some m) (hm : m.master = a) :
    ∃ e, ((db.mtermsOf b).find? fun e => e.2.name = m.name) = some e ∧
      db.mterms.find? e.1 = some e.2 ∧ e.2.master = b ∧ e.2.name = m.name := by
  have hold : (t, m) ∈ db.mtermsOf a := hdb.mterms.mem_select.2 ⟨ht, decide_eq_true hm⟩
  obtain ⟨-, hall⟩ := Bool.and_eq_true_iff.1 hsame
  have hname : m.name ∈ (db.mtermsOf b).map (·.2.name) :=
    of_decide_eq_true (List.all_eq_true.1 hall _ hold)
  obtain ⟨e', he', hname'⟩ := List.mem_map.1 hname
  obtain ⟨e, he⟩ : ∃ e, ((db.mtermsOf b).find? fun e => e.2.name = m.name) = some e := by
    rw [← Option.isSome_iff_exists, List.find?_isSome]
    exact ⟨e', he', decide_eq_true hname'⟩
  obtain ⟨hfind, hmaster⟩ := hdb.mterms.mem_select.1 (List.mem_of_find?_eq_some he)
  exact ⟨e, he, hfind, of_decide_eq_true hmaster, by simpa using List.find?_some he⟩

theorem rebind (h : db.Binds d) (hdb : db.WellFormed) {inst : InstId} {i : Inst}
    {master : MasterId} (hi : d.insts.find? inst = some i) (hm : master ∈ db.masters.ids)
    (hsame : db.sameTerminals i.master master = true) :
    db.Binds (d.rebind inst master (db.mtermsOf master)) := by
  constructor
  · intro j a hj
    have hj : (d.insts.modify inst fun i => { i with master }).find? j = some a := hj
    rw [Table.find?_modify] at hj
    split at hj
    · obtain ⟨b, -, rfl⟩ := Option.map_eq_some_iff.1 hj
      exact hm
    · exact h.master hj
  · intro t x ht
    have ht := (Table.find?_modifyWhere ..).symm.trans ht
    obtain ⟨y, hy, hx⟩ := Option.map_eq_some_iff.1 ht
    obtain ⟨j, m, hj, hmt, hmaster, hname⟩ := h.mterm hy
    have hinst : (d.rebind inst master (db.mtermsOf master)).insts.find? y.inst =
        if y.inst = inst then some { j with master } else some j := by
      refine (Table.find?_modify ..).trans ?_
      rw [hj]
      rfl
    by_cases howner : y.inst = inst
    · obtain rfl : j = i := Option.some.inj (hj.symm.trans (howner ▸ hi))
      obtain ⟨e, he, hfind, hmaster', hname'⟩ := exists_replacement hdb hsame hmt hmaster
      rw [hname] at he hname'
      rw [if_pos (decide_eq_true howner), he] at hx
      subst hx
      exact ⟨{ j with master }, e.2, hinst.trans (if_pos howner), hfind, hmaster', hname'⟩
    · rw [if_neg (by simpa using howner)] at hx
      subst hx
      exact ⟨j, m, hinst.trans (if_neg howner), hmt, hmaster, hname⟩

end Binds

theorem Binds.step (s : db.Step db') (hdb : db.WellFormed)
    (h : ∀ d, db.design? = some d → db.Binds d) : ∀ d, db'.design? = some d → db'.Binds d := by
  intro d₁ hd₁
  cases s with
  | createLib e =>
    obtain ⟨-, rfl⟩ := createLib_ok e
    exact (h d₁ hd₁).grow (fun _ hm => hm) fun _ _ hm => hm
  | createMaster e =>
    obtain ⟨-, -, rfl⟩ := createMaster_ok e
    exact (h d₁ hd₁).grow (fun _ hm => Table.mem_ids_insert hm) fun _ _ hm => hm
  | createMTerm e =>
    obtain ⟨-, -, rfl⟩ := createMTerm_ok e
    exact (h d₁ hd₁).grow (fun _ hm => hm) fun _ _ hm => hdb.mterms.find?_insert_of_some _ hm
  | @createDesign name _ _ e =>
    obtain ⟨-, -, rfl⟩ := createDesign_ok e
    cases hd₁
    exact binds_empty _ name
  | destroyDesign => cases hd₁
  | createInst e =>
    obtain ⟨hm, d, d', hd, hd', rfl⟩ := createInst_ok e
    cases hd₁
    exact ((h d hd).createInst hdb (hdb.design hd) hm hd').grow (fun _ hm => hm) fun _ _ hm => hm
  | swapMaster e =>
    obtain ⟨d, i, hd, hi, hm, hsame, rfl⟩ := swapMaster_ok e
    cases hd₁
    exact ((h d hd).rebind hdb hi hm hsame).grow (fun _ hm => hm) fun _ _ hm => hm
  | @design d _ hd s =>
    cases hd₁
    obtain ⟨hinsts, hiterms, -⟩ := s.makes
    have hwf : d₁.WellFormed := s.wellFormed (hdb.design hd)
    exact ((h d hd).shrink hwf hinsts hiterms).grow (fun _ hm => hm) fun _ _ hm => hm

theorem Reachable.binds (h : db.Reachable) (hd : db.design? = some d) : db.Binds d := by
  induction h generalizing d with
  | refl => cases hd
  | tail hrun s ih => exact Binds.step s (Reachable.wellFormed hrun) (fun _ => ih) d hd

end Database
end DesignView
