import DesignView.Proofs.Physical.Binding

/-!
Terminals of instances by the terminals of their masters. A master may have gained terminals since
it was instantiated, so an instance may lack some of them; what it has it finds under the name and
under the terminal of its master alike. Replacing the master changes only what the terminals stand
for.
-/

namespace DesignView

variable {db db' : Database} {d d' : Design} {inst : InstId} {mterm : MTermId} {t : ITermId}

structure Design.Swapped (d d' : Design) (inst : InstId) (master : MasterId) : Prop where
  swapped : ∀ i, d.insts.find? inst = some i → d'.insts.find? inst = some { i with master }
  others : ∀ j, j ≠ inst → d'.insts.find? j = d.insts.find? j
  instIds : d'.insts.ids = d.insts.ids
  itermIds : d'.iterms.ids = d.iterms.ids
  iterm : ∀ t x, d.iterms.find? t = some x → ∃ mterm, d'.iterms.find? t = some { x with mterm } ∧
    (x.inst ≠ inst → mterm = x.mterm)
  rest : d' = { d with insts := d'.insts, iterms := d'.iterms }

theorem Design.swapped_rebind (d : Design) (inst : InstId) (master : MasterId)
    (terms : List (MTermId × MTerm)) : d.Swapped (d.rebind inst master terms) inst master := by
  have hinsts (j : InstId) : (d.rebind inst master terms).insts.find? j =
      if j = inst then (d.insts.find? j).map fun i => { i with master } else d.insts.find? j :=
    Table.find?_modify ..
  refine ⟨fun i hi => ?_, fun j hj => ?_, ?_, ?_, fun t x hx => ?_, rfl⟩
  · rw [hinsts, if_pos rfl, hi]
    rfl
  · rw [hinsts, if_neg hj]
  · exact OrderedMap.keys_modify ..
  · exact Table.ids_modifyWhere ..
  · have hfind : (d.rebind inst master terms).iterms.find? t = _ := Table.find?_modifyWhere ..
    rw [hx, Option.map_some] at hfind
    by_cases howner : x.inst = inst
    · rw [if_pos (decide_eq_true howner)] at hfind
      cases hterm : terms.find? fun e => e.2.name = x.name with
      | some e => exact ⟨e.1, by rw [hterm] at hfind; exact hfind, fun hne => absurd howner hne⟩
      | none => exact ⟨x.mterm, by rw [hterm] at hfind; exact hfind, fun _ => rfl⟩
    · rw [if_neg (by simpa using howner)] at hfind
      exact ⟨x.mterm, hfind, fun _ => rfl⟩

namespace Database

namespace Binds

theorem distinct_mterm (h : db.Binds d) (hwf : d.WellFormed) :
    d.iterms.Distinct fun t => (t.inst, t.mterm) := by
  intro t u x y hx hy e
  obtain ⟨hinst, hmterm⟩ := Prod.mk.inj e
  obtain ⟨_, m, _, hm, _, hname⟩ := h.mterm hx
  obtain ⟨_, m', _, hm', _, hname'⟩ := h.mterm hy
  obtain rfl : m = m' := Option.some.inj (hm.symm.trans (hmterm ▸ hm'))
  exact hwf.itermNames hx hy (Prod.ext hinst (hname.symm.trans hname'))

theorem itermOfMTerm?_eq_some_iff (h : db.Binds d) (hwf : d.WellFormed) :
    d.itermOfMTerm? inst mterm = some t ↔
      ∃ x, d.iterms.find? t = some x ∧ x.inst = inst ∧ x.mterm = mterm :=
  (h.distinct_mterm hwf).firstIn?_eq_some_iff hwf.iterms

theorem itermNamed?_eq_some_iff (hwf : d.WellFormed) {name : String} :
    d.itermNamed? inst name = some t ↔
      ∃ x, d.iterms.find? t = some x ∧ x.inst = inst ∧ x.name = name :=
  hwf.itermNames.firstIn?_eq_some_iff hwf.iterms

theorem itermOfMTerm?_eq (h : db.Binds d) (hdb : db.WellFormed) (hwf : d.WellFormed) {i : Inst}
    {m : MTerm} (hi : d.insts.find? inst = some i) (hm : db.mterms.find? mterm = some m)
    (hmaster : m.master = i.master) : d.itermOfMTerm? inst mterm = d.itermNamed? inst m.name := by
  refine Option.ext fun t => ?_
  rw [h.itermOfMTerm?_eq_some_iff hwf, itermNamed?_eq_some_iff hwf]
  refine exists_congr fun x => and_congr_right fun hx => and_congr_right fun hinst => ?_
  obtain ⟨j, m', hj, hm', hmaster', hname'⟩ := h.mterm hx
  obtain rfl : i = j := Option.some.inj (hi.symm.trans (hinst ▸ hj))
  constructor
  · intro e
    obtain rfl : m = m' := Option.some.inj (hm.symm.trans (e ▸ hm'))
    exact hname'.symm
  · intro e
    exact hdb.mtermNames hm' hm (Prod.ext (hmaster'.trans hmaster.symm) (hname'.trans e))

theorem itermOfMTerm?_eq_none (h : db.Binds d) (hwf : d.WellFormed) {i : Inst}
    (hi : d.insts.find? inst = some i)
    (hother : ∀ m, db.mterms.find? mterm = some m → m.master ≠ i.master) :
    d.itermOfMTerm? inst mterm = none := by
  refine Option.eq_none_iff_forall_ne_some.2 fun t ht => ?_
  obtain ⟨x, hx, hinst, rfl⟩ := (h.itermOfMTerm?_eq_some_iff hwf).1 ht
  obtain ⟨j, m, hj, hm, hmaster, -⟩ := h.mterm hx
  obtain rfl : i = j := Option.some.inj (hi.symm.trans (hinst ▸ hj))
  exact hother m hm hmaster

end Binds

/-- Whatever was done to the database, a terminal of an instance stands for the terminal of its name
of the master that the instance has now; so a live instance finds its terminals by the terminals of
that master as it finds them by name, and by no others. A replaced master leaves every terminal its
number, its name and its nets. -/
theorem Reachable.masters_coherent (h : db.Reachable) (hd : db.design? = some d) :
    (∀ t x, d.iterms.find? t = some x → ∃ i m, d.insts.find? x.inst = some i ∧
      db.mterms.find? x.mterm = some m ∧ m.master = i.master ∧ m.name = x.name) ∧
    (∀ inst i, d.insts.find? inst = some i → ∀ mterm,
      (∀ m, db.mterms.find? mterm = some m → m.master = i.master →
        ∃ t?, d.itermFor inst mterm = .ok t? ∧ d.itermOf inst m.name = .ok t?) ∧
      ((∀ m, db.mterms.find? mterm = some m → m.master ≠ i.master) →
        d.itermFor inst mterm = .ok none)) ∧
    ∀ inst master db', db.swapMaster inst master = .ok db' → ∃ d',
      db' = { db with design? := some d' } ∧ d.Swapped d' inst master ∧
      (∀ t x, d.iterms.find? t = some x → ∃ x', d'.iterms.find? t = some x' ∧
        x'.inst = x.inst ∧ x'.name = x.name) ∧
      d'.itermNets = d.itermNets ∧ d'.itermModNets = d.itermModNets := by
  have hdb := h.wellFormed
  have hwf := hdb.design hd
  have hbinds := h.binds hd
  refine ⟨fun t x hx => hbinds.mterm hx, fun inst i hi mterm => ?_, fun inst master db' e => ?_⟩
  · have hinst : d.inst inst = .ok i := Table.fetch_eq_ok.2 hi
    have hfor : d.itermFor inst mterm = .ok (d.itermOfMTerm? inst mterm) :=
      bind_eq_ok.2 ⟨i, hinst, rfl⟩
    refine ⟨fun m hm hmaster => ⟨_, hfor, bind_eq_ok.2 ⟨i, hinst, ?_⟩⟩, fun hother => ?_⟩
    · rw [hbinds.itermOfMTerm?_eq hdb hwf hi hm hmaster]
      rfl
    · rw [hfor, hbinds.itermOfMTerm?_eq_none hwf hi hother]
  · obtain ⟨_, i, hd', -, -, -, rfl⟩ := swapMaster_ok e
    obtain rfl := Option.some.inj (hd.symm.trans hd')
    have hswap := d.swapped_rebind inst master (db.mtermsOf master)
    refine ⟨_, rfl, hswap, fun t x hx => ?_, rfl, rfl⟩
    obtain ⟨mterm, hx', -⟩ := hswap.iterm t x hx
    exact ⟨_, hx', rfl, rfl⟩

theorem masters_coherent_swapped : ∃ db d db' d', Database.Reachable db ∧ db.design? = some d ∧
    db.swapMaster ⟨1⟩ ⟨2⟩ = .ok db' ∧ db'.design? = some d' ∧ d.Swapped d' ⟨1⟩ ⟨2⟩ ∧
    d'.itermFor ⟨1⟩ ⟨2⟩ = .ok (some ⟨1⟩) ∧ d'.itermOf ⟨1⟩ "A" = .ok (some ⟨1⟩) ∧
    d'.itermFor ⟨1⟩ ⟨4⟩ = .ok none ∧ d'.itermFor ⟨1⟩ ⟨1⟩ = .ok none ∧
    d'.itermNets.netOf ⟨1⟩ = some ⟨1⟩ := by
  have hrun : ∃ db d db' d', Database.Reachable db ∧ db.design? = some d ∧
      db.swapMaster ⟨1⟩ ⟨2⟩ = .ok db' ∧ db'.design? = some d' ∧
      d'.insts.find? ⟨1⟩ = some ⟨"u1", ⟨2⟩, ⟨1⟩⟩ ∧
      db'.mterms.find? ⟨1⟩ = some ⟨"A", ⟨1⟩, .signal, .input⟩ ∧
      db'.mterms.find? ⟨2⟩ = some ⟨"A", ⟨2⟩, .signal, .input⟩ ∧
      db'.mterms.find? ⟨4⟩ = some ⟨"Z", ⟨2⟩, .signal, .output⟩ ∧
      d'.itermOf ⟨1⟩ "A" = .ok (some ⟨1⟩) ∧ d'.itermOf ⟨1⟩ "Z" = .ok none ∧
      d.itermNets.netOf ⟨1⟩ = some ⟨1⟩ :=
    ⟨_, _, _, _, Relation.ReflTransGen.refl
      |>.tail (@Database.Step.createLib _ "cells" _ _ rfl)
      |>.tail (@Database.Step.createMaster _ ⟨1⟩ "BUF" _ _ rfl)
      |>.tail (@Database.Step.createMaster _ ⟨1⟩ "INV" _ _ rfl)
      |>.tail (@Database.Step.createMTerm _ ⟨1⟩ "A" .signal .input _ _ rfl)
      |>.tail (@Database.Step.createMTerm _ ⟨2⟩ "A" .signal .input _ _ rfl)
      |>.tail (@Database.Step.createDesign _ "top" _ _ rfl)
      |>.tail (@Database.Step.createInst _ ⟨1⟩ "u1" none _ _ rfl)
      |>.tail (.design rfl (@Design.Step.createNet _ "n1" _ _ rfl))
      |>.tail (.design rfl (.attachITerm ⟨1⟩ ⟨1⟩))
      |>.tail (@Database.Step.createMTerm _ ⟨1⟩ "Z" .signal .output _ _ rfl)
      |>.tail (@Database.Step.createMTerm _ ⟨2⟩ "Z" .signal .output _ _ rfl),
      rfl, rfl, rfl, rfl, rfl, rfl, rfl, rfl, rfl, rfl⟩
  obtain ⟨db, d, db', d', h, hd, e, hd', hinst, hold, hnew, hlater, hA, hZ, hnet⟩ := hrun
  have h' : db'.Reachable := h.tail (.swapMaster e)
  obtain ⟨-, hfind, -⟩ := h'.masters_coherent hd'
  obtain ⟨-, -, hswaps⟩ := h.masters_coherent hd
  have hfor {mterm : MTermId} {m : MTerm} {t? : Option ITermId}
      (hm : db'.mterms.find? mterm = some m) (hmaster : m.master = ⟨2⟩)
      (ht : d'.itermOf ⟨1⟩ m.name = .ok t?) : d'.itermFor ⟨1⟩ mterm = .ok t? := by
    obtain ⟨_, hfor, hof⟩ := (hfind _ _ hinst mterm).1 m hm hmaster
    rwa [Except.ok.inj (hof.symm.trans ht)] at hfor
  have hother : ∀ m, db'.mterms.find? ⟨1⟩ = some m → m.master ≠ ⟨2⟩ := by
    intro m hm
    obtain rfl := Option.some.inj (hold.symm.trans hm)
    decide
  obtain ⟨d₁, hdb', hswap, -, hnets, -⟩ := hswaps ⟨1⟩ ⟨2⟩ db' e
  obtain rfl : d₁ = d' := by
    rw [hdb'] at hd'
    exact Option.some.inj hd'
  exact ⟨db, d, db', d₁, h, hd, e, hd', hswap, hfor hnew rfl hA, hA, hfor hlater rfl hZ,
    (hfind _ _ hinst ⟨1⟩).2 hother, by rw [hnets, hnet]⟩

end Database
end DesignView
