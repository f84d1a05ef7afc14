import DesignView.Physical.InPlace
import DesignView.Proofs.Physical.History

/-!
Refused requests change nothing. An edit in place makes all its checks before it writes, or it
writes only what is there already: to erase what is not there leaves a table as it is. So a program
that is refused has left the state as it found it, and one that is accepted has made the step that
was asked for.
-/

namespace DesignView

theorem Design.createModInst_eq (d : Design) (parent master : ModuleId) (name : String) :
    d.createModInst parent master name =
      ((if master = d.topModule then .error .topModuleInstance else .ok ()) >>= fun _ =>
        d.modules.known parent >>= fun p => d.modules.known master >>= fun m =>
        (if (d.instanceOf? master).isSome then .error (.moduleInstantiated m.name) else .ok ()) >>=
          fun _ => requireNew (d.modInstNamed? parent name).isSome name p.name >>= fun _ =>
          .ok ((d.modInsts.insert ⟨name, parent, master⟩).1,
            { d with modInsts := (d.modInsts.insert ⟨name, parent, master⟩).2 })) := by
  by_cases htop : master = d.topModule
  · simp only [createModInst, if_pos htop]
    rfl
  · simp only [createModInst, if_neg htop]
    apply bind_congr
    intro p
    apply bind_congr
    intro m
    by_cases hinst : (d.instanceOf? master).isSome = true
    · simp only [if_pos hinst]
      rfl
    · simp only [if_neg hinst]
      rfl

namespace InPlace

variable {σ α β : Type}

def settle (s : σ) : Except Refusal (α × σ) → Except Refusal α × σ
  | .ok (a, s') => (.ok a, s')
  | .error e => (.error e, s)

/-- The program makes the step, and leaves the state as it is when the step is refused. -/
def Realizes (p : InPlace σ α) (step : σ → Except Refusal (α × σ)) : Prop :=
  ∀ s, p.exec s = settle s (step s)

theorem exec_bind (p : InPlace σ α) (q : α → InPlace σ β) (s : σ) :
    (p >>= q).exec s = match p.exec s with
      | (.ok a, s') => (q a).exec s'
      | (.error e, s') => (.error e, s') := by
  unfold exec ExceptT.run StateT.run
  simp only [bind, ExceptT.bind, ExceptT.mk, StateT.bind, ExceptT.bindCont]
  cases p s with
  | mk r s' => cases r <;> rfl

theorem exec_check (c : σ → Except Refusal α) (s : σ) : (check c).exec s = (c s, s) := rfl

theorem exec_takeOut {k : Kind} (table : σ → Table k α) (put : Table k α → σ → σ) (id : Id k)
    (s : σ) : (takeOut table put id).exec s =
      ((table s).known id, put ((table s).erase id) s) := by
  have hread : (change fun s => ((table s).find? id, put ((table s).erase id) s)).exec s =
      (.ok ((table s).find? id), put ((table s).erase id) s) := rfl
  rw [takeOut, exec_bind, hread, Table.known]
  cases (table s).find? id <;> rfl

theorem forM_change {body : β → InPlace σ Unit} {w : List β → σ → σ} (hnil : ∀ s, w [] s = s)
    (hcons : ∀ x xs s, ∃ s', (body x).exec s = (.ok (), s') ∧ w (x :: xs) s = w xs s')
    (xs : List β) : xs.forM body = change fun s => ((), w xs s) := by
  induction xs with
  | nil =>
    funext s
    show (Except.ok (), s) = (Except.ok (), w [] s)
    rw [hnil]
  | cons x xs ih =>
    funext s
    obtain ⟨s', hbody, hw⟩ := hcons x xs s
    show (body x >>= fun _ => xs.forM body).exec s = (.ok (), w (x :: xs) s)
    rw [exec_bind, hbody, ih, hw]
    rfl

namespace Realizes

theorem change (g : σ → α × σ) : Realizes (change g) fun s => .ok (g s) := fun _ => rfl

theorem of_change {p : InPlace σ α} {g : σ → α × σ} (h : p = InPlace.change g) :
    Realizes p fun s => .ok (g s) := h ▸ change g

theorem done {p : InPlace σ Unit} {c : σ → Except Refusal α} {g : α → σ → σ}
    (h : Realizes p fun s => c s >>= fun a => .ok ((), g a s)) :
    Realizes p fun s => return ((), ← (c s >>= fun a => pure (g a s))) := by
  intro s
  rw [h s]
  show settle s (c s >>= fun a => .ok ((), g a s)) =
    settle s ((c s >>= fun a => pure (g a s)) >>= fun s' => pure ((), s'))
  cases c s <;> rfl

theorem congr {p : InPlace σ α} {step step' : σ → Except Refusal (α × σ)} (h : Realizes p step)
    (hstep : ∀ s, step' s = step s) : Realizes p step' := fun s => (hstep s).symm ▸ h s

theorem check_of {c : σ → Except Refusal α} {q : α → InPlace σ β}
    {f : α → σ → Except Refusal (β × σ)}
    (h : ∀ a s, c s = .ok a → (q a).exec s = settle s (f a s)) :
    Realizes (check c >>= q) fun s => c s >>= fun a => f a s := by
  intro s
  show _ = settle s (c s >>= fun a => f a s)
  rw [exec_bind, exec_check]
  cases hc : c s with
  | ok a => exact h a s hc
  | error e => rfl

theorem check {c : σ → Except Refusal α} {q : α → InPlace σ β}
    {f : α → σ → Except Refusal (β × σ)} (h : ∀ a, Realizes (q a) (f a)) :
    Realizes (check c >>= q) fun s => c s >>= fun a => f a s := .check_of fun a s _ => h a s

/-- When the object is not there, the program is refused after its first write, but this has left
the table as it was. -/
theorem takeOut {k : Kind} {table : σ → Table k α} {put : Table k α → σ → σ} {id : Id k}
    {q : InPlace σ β} {g : σ → β × σ} (hput : ∀ s, put (table s) s = s)
    (hq : q = InPlace.change g) : Realizes (takeOut table put id >>= fun _ => q) fun s =>
      (table s).requireLive id >>= fun _ => .ok (g (put ((table s).erase id) s)) := by
  intro s
  show _ = settle s ((table s).requireLive id >>= fun _ => .ok (g (put ((table s).erase id) s)))
  rw [exec_bind, exec_takeOut, hq]
  cases hfind : (table s).find? id with
  | some a =>
    have hlive : (table s).requireLive id = .ok () :=
      if_pos (Table.contains_iff.2 (Table.mem_ids_of_find? hfind))
    rw [Table.known_eq_ok.2 hfind, hlive]
    rfl
  | none =>
    have habsent : ¬(table s).contains id = true := fun hid =>
      Table.find?_eq_none_iff.1 hfind (Table.contains_iff.1 hid)
    have hsame : (table s).erase id = table s := if_neg habsent
    rw [hsame, hput, Table.known, hfind, Table.requireLive, if_neg habsent]
    rfl

theorem onDesign {p : InPlace Design α} {step : Design → Except Refusal (α × Design)}
    (h : Realizes p step) : Realizes (onDesign p) fun db => db.edit step := by
  intro db
  show _ = settle db (db.design >>= fun d =>
    step d >>= fun r => .ok (r.1, { db with design? := some r.2 }))
  rw [InPlace.onDesign, exec_bind, exec_check]
  cases hd : db.design with
  | error e => rfl
  | ok d =>
    have hdb : { db with design? := some d } = db := by
      rw [← Database.design_eq_ok.1 hd]
    show ((p.exec d).1, { db with design? := some (p.exec d).2 }) =
      settle db (step d >>= fun r => .ok (r.1, { db with design? := some r.2 }))
    rw [h d]
    cases step d with
    | ok r => rfl
    | error e =>
      show (Except.error e, { db with design? := some d }) = (Except.error e, db)
      rw [hdb]

end Realizes

theorem addInst_realizes (name : String) (master : MasterId) (terms : List (MTermId × MTerm))
    (module? : Option ModuleId) : Realizes (addInst name master terms module?) fun d =>
      d.createInst name master terms module? := by
  have hterms (id : InstId) : (terms.forM fun e => InPlace.change fun d : Design =>
      ((), { d with iterms := (d.iterms.insert ⟨e.2.name, id, e.1⟩).2 }) : InPlace Design Unit) = _ :=
    forM_change (w := fun terms d =>
      { d with iterms := d.iterms.insertAll (fun e => ⟨e.2.name, id, e.1⟩) terms })
      (fun _ => rfl) (fun _ _ _ => ⟨_, rfl, rfl⟩) terms
  refine .check fun _ => .check fun _ => .of_change ?_
  simp only [hterms]
  rfl

theorem createNet_realizes (name : String) :
    Realizes (createNet name) fun d => d.createNet name :=
  .check fun _ => .change _

theorem createModule_realizes (name : String) :
    Realizes (createModule name) fun d => d.createModule name :=
  .check fun _ => .change _

theorem createModITerm_realizes (modInst : ModInstId) (name : String) :
    Realizes (createModITerm modInst name) fun d => d.createModITerm modInst name :=
  .check fun _ => .check fun _ => .change _

theorem createModBTerm_realizes (module : ModuleId) (name : String) :
    Realizes (createModBTerm module name) fun d => d.createModBTerm module name :=
  .check fun _ => .check fun _ => .change _

theorem createModNet_realizes (module : ModuleId) (name : String) :
    Realizes (createModNet module name) fun d => d.createModNet module name :=
  .check fun _ => .check fun _ => .change _

theorem destroyBTerm_realizes (id : BTermId) :
    Realizes (destroyBTerm id) fun d => return ((), ← d.destroyBTerm id) :=
  .done (.check fun _ => .of_change rfl)

theorem destroyModITerm_realizes (id : ModITermId) :
    Realizes (destroyModITerm id) fun d => return ((), ← d.destroyModITerm id) :=
  .done (.check fun _ => .of_change rfl)

theorem destroyModBTerm_realizes (id : ModBTermId) :
    Realizes (destroyModBTerm id) fun d => return ((), ← d.destroyModBTerm id) :=
  .done (.check fun _ => .of_change rfl)

theorem destroyNet_realizes (id : NetId) :
    Realizes (destroyNet id) fun d => return ((), ← d.destroyNet id) :=
  .done (.takeOut (g := fun d : Design => ((), { d with
    itermNets := d.itermNets.clearNet id
    btermNets := d.btermNets.clearNet id })) (fun _ => rfl) rfl)

theorem destroyModNet_realizes (id : ModNetId) :
    Realizes (destroyModNet id) fun d => return ((), ← d.destroyModNet id) :=
  .done (.takeOut (g := fun d : Design => ((), { d with
    itermModNets := d.itermModNets.clearNet id
    btermModNets := d.btermModNets.clearNet id
    modITermNets := d.modITermNets.clearNet id
    modBTermNets := d.modBTermNets.clearNet id })) (fun _ => rfl) rfl)

theorem createBTerm_realizes (name : String) (net? : Option NetId) :
    Realizes (createBTerm name net?) fun d => d.createBTerm name net? := by
  cases net? with
  | none => exact .check fun _ => .change _
  | some net =>
    refine .check fun _ => .check_of fun _ d hnet => ?_
    -- The terminal was just made and the net was checked, so the terminal goes on the net.
    have hlive : ((d.bterms.insert { name }).2.contains (d.bterms.insert { name }).1 &&
        d.nets.contains net) = true := by
      have hterm := Table.mem_ids_of_find? (Table.find?_insert_self d.bterms { name })
      have hnet := Table.mem_ids_of_find? (Table.known_eq_ok.1 hnet)
      rw [Table.contains_iff.2 hterm, Table.contains_iff.2 hnet]
      rfl
    show (Except.ok (d.bterms.insert { name }).1, { d with
      bterms := (d.bterms.insert { name }).2
      btermNets := d.btermNets.move (d.bterms.insert { name }).1 net
        ((d.bterms.insert { name }).2.contains (d.bterms.insert { name }).1 &&
          d.nets.contains net) }) = _
    rw [hlive]
    rfl

theorem createModInst_realizes (parent master : ModuleId) (name : String) :
    Realizes (createModInst parent master name) fun d => d.createModInst parent master name :=
  .congr (.check fun _ => .check fun _ => .check fun _ => .check fun _ => .check fun _ => .change _)
    fun d => d.createModInst_eq parent master name

theorem destroyInst_realizes (id : InstId) :
    Realizes (destroyInst id) fun d => return ((), ← d.destroyInst id) := by
  have hterms (terms : List ITermId) : (terms.forM fun t => do
      InPlace.change fun d : Design => ((), d.detachITerm t)
      InPlace.change fun d => ((), { d with iterms := d.iterms.erase t }) : InPlace Design Unit) = _ :=
    forM_change (w := fun terms d => { d with
      iterms := d.iterms.eraseAll terms
      itermNets := d.itermNets.detachAll terms
      itermModNets := d.itermModNets.detachAll terms })
      (fun _ => rfl) (fun _ _ _ => ⟨_, rfl, rfl⟩) terms
  refine .done (.takeOut (g := fun d : Design => ((), { d with
    iterms := d.iterms.eraseAll ((d.itermsOf id).map (·.1))
    itermNets := d.itermNets.detachAll ((d.itermsOf id).map (·.1))
    itermModNets := d.itermModNets.detachAll ((d.itermsOf id).map (·.1)) })) (fun _ => rfl) ?_)
  simp only [hterms]
  rfl

theorem destroyModInst_realizes (id : ModInstId) :
    Realizes (destroyModInst id) fun d => return ((), ← d.destroyModInst id) := by
  have hterms (terms : List ModITermId) : (terms.forM fun t => do
      InPlace.change fun d : Design => ((), d.detachModITerm t)
      InPlace.change fun d => ((), { d with modITerms := d.modITerms.erase t }) :
        InPlace Design Unit) = _ :=
    forM_change (w := fun terms d => { d with
      modITerms := d.modITerms.eraseAll terms
      modITermNets := d.modITermNets.detachAll terms })
      (fun _ => rfl) (fun _ _ _ => ⟨_, rfl, rfl⟩) terms
  refine .done (.takeOut (g := fun d : Design => ((), { d with
    modITerms := d.modITerms.eraseAll ((d.modITermsOf id).map (·.1))
    modITermNets := d.modITermNets.detachAll ((d.modITermsOf id).map (·.1)) })) (fun _ => rfl) ?_)
  simp only [hterms]
  rfl

theorem createLib_realizes (name : String) :
    Realizes (createLib name) fun db => db.createLib name :=
  .check fun _ => .change _

theorem createMaster_realizes (lib : LibId) (name : String) :
    Realizes (createMaster lib name) fun db => db.createMaster lib name :=
  .check fun _ => .check fun _ => .change _

theorem createMTerm_realizes (master : MasterId) (name : String) (sig : SigType) (io : IoType) :
    Realizes (createMTerm master name sig io) fun db => db.createMTerm master name sig io :=
  .check fun _ => .check fun _ => .change _

theorem createDesign_realizes (name : String) :
    Realizes (createDesign name) fun db => db.createDesign name := by
  refine .congr (.check fun _ => .change _) fun db => ?_
  unfold Database.createDesign
  cases db.design? <;> rfl

theorem createInst_realizes (master : MasterId) (name : String) (module? : Option ModuleId) :
    Realizes (createInst master name module?) fun db => db.createInst master name module? :=
  .check fun _ db => Realizes.onDesign (addInst_realizes name master (db.mtermsOf master) module?) db

theorem swapMaster_realizes (inst : InstId) (master : MasterId) :
    Realizes (swapMaster inst master) fun db => return ((), ← db.swapMaster inst master) := by
  refine .congr (.check fun d => .check fun i => .check fun _ => .check fun _ => .check fun _ =>
    .change _) fun db => ?_
  simp only [Database.swapMaster, bind_assoc]
  apply bind_congr
  intro d
  apply bind_congr
  intro i
  apply bind_congr
  intro replacement
  apply bind_congr
  intro current
  by_cases hsame : db.sameTerminals i.master master = true
  · simp only [if_pos hsame]
    rfl
  · simp only [if_neg hsame]
    rfl

end InPlace

namespace Request

open InPlace (Realizes settle)

variable {α : Type} {db db' : Database}

theorem realizes (r : Request α) : Realizes r.program r.outcome := by
  cases r with
  | createLib name => exact InPlace.createLib_realizes name
  | createMaster lib name => exact InPlace.createMaster_realizes lib name
  | createMTerm master name sig io => exact InPlace.createMTerm_realizes master name sig io
  | createDesign name => exact InPlace.createDesign_realizes name
  | createInst master name module? => exact InPlace.createInst_realizes master name module?
  | swapMaster inst master => exact InPlace.swapMaster_realizes inst master
  | createNet name => exact .onDesign (InPlace.createNet_realizes name)
  | createBTerm name net? => exact .onDesign (InPlace.createBTerm_realizes name net?)
  | createModule name => exact .onDesign (InPlace.createModule_realizes name)
  | createModInst parent master name =>
    exact .onDesign (InPlace.createModInst_realizes parent master name)
  | createModITerm modInst name => exact .onDesign (InPlace.createModITerm_realizes modInst name)
  | createModBTerm module name => exact .onDesign (InPlace.createModBTerm_realizes module name)
  | createModNet module name => exact .onDesign (InPlace.createModNet_realizes module name)
  | destroyInst id => exact .onDesign (InPlace.destroyInst_realizes id)
  | destroyNet id => exact .onDesign (InPlace.destroyNet_realizes id)
  | destroyBTerm id => exact .onDesign (InPlace.destroyBTerm_realizes id)
  | destroyModInst id => exact .onDesign (InPlace.destroyModInst_realizes id)
  | destroyModITerm id => exact .onDesign (InPlace.destroyModITerm_realizes id)
  | destroyModBTerm id => exact .onDesign (InPlace.destroyModBTerm_realizes id)
  | destroyModNet id => exact .onDesign (InPlace.destroyModNet_realizes id)

theorem run_eq (r : Request α) (db : Database) : r.run db = settle db (r.outcome db) := r.realizes db

theorem refused_unchanged (r : Request α) (db : Database) :
    (∀ e db', r.run db = (.error e, db') ↔ r.outcome db = .error e ∧ db' = db) ∧
    ∀ a db', r.run db = (.ok a, db') ↔ r.outcome db = .ok (a, db') := by
  rw [run_eq]
  cases r.outcome db with
  | ok x =>
    obtain ⟨a, db'⟩ := x
    simp [settle]
  | error e => simp [settle, eq_comm]

theorem edit_eq_ok {f : Design → Except Refusal (α × Design)} {a : α}
    (h : db.edit f = .ok (a, db')) : ∃ d d', db.design? = some d ∧ f d = .ok (a, d') ∧
      db' = { db with design? := some d' } := by
  obtain ⟨d, hd, h⟩ := bind_eq_ok.1 h
  obtain ⟨⟨a, d'⟩, hf, h⟩ := bind_eq_ok.1 h
  cases pure_eq_ok.1 h
  exact ⟨d, d', Database.design_eq_ok.1 hd, hf, rfl⟩

theorem step_of_outcome {r : Request α} {a : α} (h : r.outcome db = .ok (a, db')) : db.Step db' := by
  have hmade {β : Type} {f : Design → Except Refusal (β × Design)} {b : β}
      (e : db.edit f = .ok (b, db')) (hf : ∀ d d', f d = .ok (b, d') → d.Step d') :
      db.Step db' := by
    obtain ⟨d, d', hd, hedit, rfl⟩ := edit_eq_ok e
    exact .design hd (hf d d' hedit)
  have hdone {f : Design → Except Refusal Design}
      (e : (db.edit fun d => return ((), ← f d)) = .ok ((), db'))
      (hf : ∀ d d', f d = .ok d' → d.Step d') : db.Step db' :=
    hmade e fun d d' hd => by
      obtain ⟨_, hd, hret⟩ := bind_eq_ok.1 hd
      cases pure_eq_ok.1 hret
      exact hf d _ hd
  cases r with
  | createLib => exact .createLib h
  | createMaster => exact .createMaster h
  | createMTerm => exact .createMTerm h
  | createDesign => exact .createDesign h
  | createInst => exact .createInst h
  | swapMaster =>
    obtain ⟨_, e, h⟩ := bind_eq_ok.1 h
    cases pure_eq_ok.1 h
    exact .swapMaster e
  | createNet => exact hmade h fun _ _ => .createNet
  | createBTerm => exact hmade h fun _ _ => .createBTerm
  | createModule => exact hmade h fun _ _ => .createModule
  | createModInst => exact hmade h fun _ _ => .createModInst
  | createModITerm => exact hmade h fun _ _ => .createModITerm
  | createModBTerm => exact hmade h fun _ _ => .createModBTerm
  | createModNet => exact hmade h fun _ _ => .createModNet
  | destroyInst => exact hdone h fun _ _ => .destroyInst
  | destroyNet => exact hdone h fun _ _ => .destroyNet
  | destroyBTerm => exact hdone h fun _ _ => .destroyBTerm
  | destroyModInst => exact hdone h fun _ _ => .destroyModInst
  | destroyModITerm => exact hdone h fun _ _ => .destroyModITerm
  | destroyModBTerm => exact hdone h fun _ _ => .destroyModBTerm
  | destroyModNet => exact hdone h fun _ _ => .destroyModNet

def acceptedOf : List ((α : Type) × Request α) → Database → List ((α : Type) × Request α)
  | [], _ => []
  | r :: rs, db =>
    match r.2.outcome db with
    | .ok (_, db') => r :: acceptedOf rs db'
    | .error _ => acceptedOf rs db

theorem runAll_acceptedOf (rs : List ((α : Type) × Request α)) (db : Database) :
    runAll (acceptedOf rs db) db = runAll rs db := by
  induction rs generalizing db with
  | nil => rfl
  | cons r rs ih =>
    rw [acceptedOf, runAll, run_eq]
    cases hr : r.2.outcome db with
    | ok x =>
      show runAll (acceptedOf rs x.2) (r.2.run db).2 = runAll rs x.2
      rw [run_eq, hr]
      exact ih x.2
    | error e => exact ih db

theorem runAll_reachable (h : db.Reachable) (rs : List ((α : Type) × Request α)) :
    (runAll rs db).Reachable := by
  induction rs generalizing db with
  | nil => exact h
  | cons r rs ih =>
    rw [runAll, run_eq]
    cases hr : r.2.outcome db with
    | ok x => exact ih (h.tail (step_of_outcome hr))
    | error e => exact ih h

end Request
end DesignView
