import DesignView.Proofs.Container.Table

/-!
Views of tables. A view shows each object of a table as something else, under the same number and in
the same place; the names of a selection of its objects are a map that has them in table order. What
an operation does to the table, it does to the view and to the names.
-/

namespace DesignView

theorem OrderedMap.contains_insert_of_ne {κ α : Type} [DecidableEq κ] (m : OrderedMap κ α) {k x : κ}
    (h : x ≠ k) (a : α) : (m.insert k a).contains x = m.contains x := by
  rw [Bool.eq_iff_iff, contains_iff, contains_iff, mem_keys_iff, mem_keys_iff, find?_insert,
    if_neg h]

namespace Table

variable {k : Kind} {α β γ : Type}

/-- The table with every object shown as `f` has it. -/
def view (t : Table k α) (f : Id k → α → β) : Table k β where
  objects := ⟨t.entries.map fun e => (e.1, f e.1 e.2)⟩
  free := t.free
  last := t.last

theorem ids_view (t : Table k α) (f : Id k → α → β) : (t.view f).ids = t.ids := by
  simp only [ids, OrderedMap.keys, view, entries, List.map_map]
  rfl

theorem contains_view (t : Table k α) (f : Id k → α → β) (id : Id k) :
    (t.view f).contains id = t.contains id := by
  rw [Bool.eq_iff_iff, contains_iff, contains_iff, ids_view]

theorem find?_view (t : Table k α) (f : Id k → α → β) (id : Id k) :
    (t.view f).find? id = (t.find? id).map (f id) := by
  show ((t.entries.map fun e => (e.1, f e.1 e.2)).find? fun e => e.1 = id).map (·.2) =
    ((t.entries.find? fun e => e.1 = id).map (·.2)).map (f id)
  rw [List.find?_map, Option.map_map, Option.map_map]
  apply Option.map_congr
  intro e he
  have hid : e.1 = id := by simpa using List.find?_some he
  exact congrArg (f · e.2) hid

theorem Valid.view {t : Table k α} (h : t.Valid) (f : Id k → α → β) : (t.view f).Valid :=
  ⟨ids_view t f ▸ h.nodup, h.ascending, fun s hs => ids_view t f ▸ h.apart s hs,
    fun s => ids_view t f ▸ h.covered s⟩

theorem Valid.view_congr {t : Table k α} (h : t.Valid) {f g : Id k → α → β}
    (hfg : ∀ x a, t.find? x = some a → f x a = g x a) : t.view f = t.view g := by
  simp only [Table.view, mk.injEq, OrderedMap.mk.injEq, and_true]
  apply List.map_congr_left
  intro e he
  exact Prod.ext rfl (hfg e.1 e.2 (h.find?_eq_some_iff.2 he))

theorem view_congr {t : Table k α} {f g : Id k → α → β} (hfg : ∀ x ∈ t.ids, ∀ a, f x a = g x a) :
    t.view f = t.view g := by
  simp only [view, mk.injEq, OrderedMap.mk.injEq, and_true]
  apply List.map_congr_left
  intro e he
  exact Prod.ext rfl (hfg e.1 (List.mem_map_of_mem he) e.2)

theorem view_view {δ : Type} (t : Table k α) (f : Id k → α → β) (g : Id k → β → δ) :
    (t.view f).view g = t.view fun x a => g x (f x a) := by
  simp only [view, entries, List.map_map]
  rfl

theorem insert_view_fst (t : Table k α) (f : Id k → α → β) (a : α) (b : β) :
    ((t.view f).insert b).1 = (t.insert a).1 := by
  unfold insert
  cases h : t.free <;> simp only [view, h]

theorem Valid.view_insert {t : Table k α} (h : t.Valid) {f g : Id k → α → β} {a : α} {b : β}
    (hnew : g (t.insert a).1 a = b) (hold : ∀ x ∈ t.ids, ∀ c, g x c = f x c) :
    (t.insert a).2.view g = ((t.view f).insert b).2 := by
  have hentries : ((t.insert a).2.view g).entries = ((t.view f).insert b).2.entries := by
    rw [(h.view f).entries_insert, insert_view_fst t f a, ← hnew]
    show (t.insert a).2.entries.map (fun e => (e.1, g e.1 e.2)) = _
    rw [h.entries_insert, List.map_append]
    congr 1
    apply List.map_congr_left
    intro e he
    exact Prod.ext rfl (hold e.1 (List.mem_map_of_mem he) e.2)
  have hobjects : ((t.insert a).2.view g).objects = ((t.view f).insert b).2.objects :=
    congrArg OrderedMap.mk hentries
  unfold Table.insert at hobjects ⊢
  cases hfree : t.free <;> simp_all only [Table.view]

theorem erase_view (t : Table k α) (f : Id k → α → β) (id : Id k) :
    (t.view f).erase id = (t.erase id).view f := by
  unfold erase
  rw [contains_view]
  split
  · simp only [view, entries, OrderedMap.erase, List.filter_map]
    rfl
  · rfl

theorem modify_view (t : Table k α) (f : Id k → α → β) (id : Id k) (g : β → β) :
    (t.view f).modify id g = t.view fun x a => if x = id then g (f x a) else f x a := by
  simp only [view, modify, OrderedMap.modify, entries, List.map_map, mk.injEq, OrderedMap.mk.injEq,
    and_true]
  apply List.map_congr_left
  intro e _
  rw [Function.comp_apply]
  split <;> rfl

theorem view_modify (t : Table k α) (id : Id k) (g : α → α) (f : Id k → α → β) :
    (t.modify id g).view f = t.view fun x a => f x (if x = id then g a else a) := by
  simp only [view, modify, OrderedMap.modify, entries, List.map_map, mk.injEq, OrderedMap.mk.injEq,
    and_true]
  apply List.map_congr_left
  intro e _
  rw [Function.comp_apply]
  split <;> rfl

theorem view_modify_eq (t : Table k α) (id : Id k) {f : Id k → α → β} {g : α → α} {g' : β → β}
    (hg : ∀ x a, f x (g a) = g' (f x a)) :
    (t.modify id g).view f = (t.view f).modify id g' := by
  rw [view_modify, modify_view]
  congr 1
  funext x a
  split
  · exact hg x a
  · rfl

theorem view_modifyWhere (t : Table k α) (p : α → Bool) (g : α → α) (f : Id k → α → β) :
    (t.modifyWhere p g).view f = t.view fun x a => f x (if p a then g a else a) := by
  simp only [view, modifyWhere, entries, List.map_map, mk.injEq, OrderedMap.mk.injEq, and_true]
  apply List.map_congr_left
  intro e _
  rw [Function.comp_apply]
  split <;> rfl

def names (t : Table k α) (p : α → Bool) (name : α → γ) : OrderedMap γ (Id k) :=
  ⟨(t.select p).map fun e => (name e.2, e.1)⟩

theorem values_names (t : Table k α) (p : α → Bool) (name : α → γ) :
    (t.names p name).values = (t.select p).map (·.1) := by
  simp only [names, OrderedMap.values, List.map_map]
  rfl

theorem find?_names [DecidableEq γ] (t : Table k α) (p : α → Bool) (name : α → γ) (c : γ) :
    (t.names p name).find? c = t.firstWhere? fun a => p a && name a = c := by
  simp only [names, OrderedMap.find?, select, List.find?_map, List.find?_filter, Option.map_map,
    firstWhere?, OrderedMap.firstKey?, Function.comp_def, Bool.decide_and, Bool.decide_eq_true]
  rfl

theorem contains_names [DecidableEq γ] (t : Table k α) (p : α → Bool) (name : α → γ) (c : γ) :
    (t.names p name).contains c = (t.firstWhere? fun a => p a && name a = c).isSome := by
  rw [← find?_names, Bool.eq_iff_iff, OrderedMap.contains_iff, OrderedMap.mem_keys_iff,
    Option.isSome_iff_exists]

theorem Valid.select_insert {t : Table k α} (h : t.Valid) (p : α → Bool) (a : α) :
    (t.insert a).2.select p =
      if p a then t.select p ++ [((t.insert a).1, a)] else t.select p := by
  rw [select, h.entries_insert, List.filter_append]
  split
  · next hp => rw [List.filter_singleton, hp]; rfl
  · next hp => rw [List.filter_singleton, eq_false_of_ne_true hp]; exact List.append_nil _

theorem Valid.names_insert [DecidableEq γ] {t : Table k α} (h : t.Valid) {p : α → Bool}
    {name : α → γ} {a : α} (hnew : p a = true → (t.names p name).contains (name a) = false) :
    (t.insert a).2.names p name =
      if p a then (t.names p name).insert (name a) (t.insert a).1 else t.names p name := by
  rw [names, h.select_insert]
  split
  · next hp =>
    have hfree : ¬(t.names p name).contains (name a) = true := by
      rw [hnew hp]
      exact Bool.false_ne_true
    rw [OrderedMap.insert, if_neg hfree, List.map_append]
    rfl
  · rfl

theorem Valid.namesOf_insert [DecidableEq γ] {δ : Type} [DecidableEq δ] {t : Table k α}
    (h : t.Valid) {owner : α → δ} {name : α → γ} {a : α}
    (hnew : (t.names (fun b => owner b = owner a) name).contains (name a) = false) (c : δ) :
    (t.insert a).2.names (fun b => owner b = c) name =
      if c = owner a then (t.names (fun b => owner b = c) name).insert (name a) (t.insert a).1
      else t.names (fun b => owner b = c) name := by
  have hfree (hown : decide (owner a = c) = true) :
      (t.names (fun b => owner b = c) name).contains (name a) = false :=
    of_decide_eq_true hown ▸ hnew
  rw [h.names_insert hfree]
  by_cases hc : owner a = c
  · rw [if_pos (decide_eq_true hc), if_pos hc.symm]
  · rw [if_neg (by simpa using hc), if_neg (Ne.symm hc)]

theorem Valid.names_insertAll [DecidableEq γ] {ε : Type} {t : Table k α} (h : t.Valid) {f : ε → α}
    {es : List ε} {p : α → Bool} (hp : ∀ e ∈ es, p (f e) = false) (name : α → γ) :
    (t.insertAll f es).names p name = t.names p name := by
  induction es generalizing t with
  | nil => rfl
  | cons e es ih =>
    have hhead : p (f e) = false := hp e List.mem_cons_self
    have hfirst : (t.insert (f e)).2.names p name = t.names p name := by
      rw [h.names_insert fun hpe => absurd hpe (ne_true_of_eq_false hhead), hhead]
      rfl
    exact (ih (h.insert (f e)) fun e' he' => hp e' (List.mem_cons_of_mem e he')).trans hfirst

theorem Valid.names_erase [DecidableEq γ] {t : Table k α} (h : t.Valid) {p : α → Bool}
    {name : α → γ} {id : Id k} {a : α} (ha : t.find? id = some a)
    (hone : ∀ x b, t.find? x = some b → p a = true → p b = true → name b = name a → x = id) :
    (t.erase id).names p name =
      if p a then (t.names p name).erase (name a) else t.names p name := by
  have hfind {e : Id k × α} (he : e ∈ t.select p) : t.find? e.1 = some e.2 ∧ p e.2 = true :=
    h.mem_select.1 he
  have hgone : (t.select p).filter (fun e => e.1 ≠ id) =
      if p a then (t.select p).filter fun e => name e.2 ≠ name a else t.select p := by
    split
    · next hp =>
      refine List.filter_congr fun e he => decide_eq_decide.2 (not_congr ⟨fun hid => ?_, ?_⟩)
      · have hval : e.2 = a := Option.some.inj ((hfind he).1.symm.trans (hid ▸ ha))
        rw [hval]
      · exact hone e.1 e.2 (hfind he).1 hp (hfind he).2
    · next hp =>
      refine List.filter_eq_self.2 fun e he => decide_eq_true fun hid => hp ?_
      have hval : e.2 = a := Option.some.inj ((hfind he).1.symm.trans (hid ▸ ha))
      exact hval ▸ (hfind he).2
  have hselect : (t.erase id).select p = (t.select p).filter fun e => e.1 ≠ id := by
    rw [select, entries_erase, List.filter_comm]
    rfl
  rw [names, hselect, hgone]
  split
  · simp only [OrderedMap.erase, names, List.filter_map]
    rfl
  · rfl

theorem Valid.namesOf_erase [DecidableEq γ] {δ : Type} [DecidableEq δ] {t : Table k α}
    (h : t.Valid) {owner : α → δ} {name : α → γ} {id : Id k} {a : α} (ha : t.find? id = some a)
    (hone : ∀ x b, t.find? x = some b → owner b = owner a → name b = name a → x = id) (c : δ) :
    (t.erase id).names (fun b => owner b = c) name =
      if c = owner a then (t.names (fun b => owner b = c) name).erase (name a)
      else t.names (fun b => owner b = c) name := by
  have hown (x : Id k) (b : α) (hb : t.find? x = some b) (ha : decide (owner a = c) = true)
      (hp : decide (owner b = c) = true) (hname : name b = name a) : x = id :=
    hone x b hb ((of_decide_eq_true hp).trans (of_decide_eq_true ha).symm) hname
  rw [h.names_erase ha hown]
  by_cases hc : owner a = c
  · rw [if_pos (decide_eq_true hc), if_pos hc.symm]
  · rw [if_neg (by simpa using hc), if_neg (Ne.symm hc)]

theorem Valid.namesOf_erase_of_ne [DecidableEq γ] {δ : Type} [DecidableEq δ] {t : Table k α}
    (h : t.Valid) {owner : α → δ} (name : α → γ) {id : Id k} {c : δ}
    (hother : ∀ a, t.find? id = some a → owner a ≠ c) :
    (t.erase id).names (fun b => owner b = c) name = t.names (fun b => owner b = c) name := by
  cases ha : t.find? id with
  | none => rw [erase_of_not_mem (find?_eq_none_iff.1 ha)]
  | some a =>
    have hne : owner a ≠ c := hother a ha
    rw [h.names_erase ha fun _ _ _ hown => absurd (of_decide_eq_true hown) hne,
      if_neg (by simpa using hne)]

theorem names_congr {t t' : Table k α} {p : α → Bool} {name : α → γ} {f : α → α}
    {q : Id k → α → Bool}
    (ht : t'.entries = t.entries.map fun e => (e.1, if q e.1 e.2 then f e.2 else e.2))
    (hp : ∀ a, p (f a) = p a) (hname : ∀ a, name (f a) = name a) :
    t'.names p name = t.names p name := by
  have hsame (b : Bool) (a : α) : p (if b then f a else a) = p a ∧
      name (if b then f a else a) = name a := by
    cases b
    · exact ⟨rfl, rfl⟩
    · exact ⟨hp a, hname a⟩
  simp only [names, select, ht, List.filter_map, List.map_map, Function.comp_def, hsame]

theorem names_modify {t : Table k α} {p : α → Bool} {name : α → γ} {f : α → α}
    (hp : ∀ a, p (f a) = p a) (hname : ∀ a, name (f a) = name a) (id : Id k) :
    (t.modify id f).names p name = t.names p name := by
  refine names_congr (q := fun x _ => x = id) (List.map_congr_left fun e _ => ?_) hp hname
  by_cases he : e.1 = id <;> simp [he]

theorem idsWhere_modify {t : Table k α} {p : α → Bool} {f : α → α} (hp : ∀ a, p (f a) = p a)
    (id : Id k) : (t.modify id f).idsWhere p = t.idsWhere p := by
  rw [idsWhere, ← values_names _ p fun _ => (), names_modify hp (fun _ => rfl), values_names,
    idsWhere]

theorem Valid.mem_idsWhere {t : Table k α} (h : t.Valid) {p : α → Bool} {id : Id k} {a : α}
    (ha : t.find? id = some a) : id ∈ t.idsWhere p ↔ p a = true := by
  refine h.mem_map_select.trans ⟨?_, fun hp => ⟨a, ha, hp⟩⟩
  rintro ⟨b, hb, hp⟩
  obtain rfl : b = a := Option.some.inj (hb.symm.trans ha)
  exact hp

theorem names_modifyWhere {t : Table k α} {p : α → Bool} {name : α → γ} {f : α → α}
    (hp : ∀ a, p (f a) = p a) (hname : ∀ a, name (f a) = name a) (q : α → Bool) :
    (t.modifyWhere q f).names p name = t.names p name := by
  refine names_congr (q := fun _ => q) (List.map_congr_left fun e _ => ?_) hp hname
  split <;> rfl

section Key

variable [DecidableEq γ] {t : Table k α} {id : Id k} {a : α}

theorem Valid.idsWhere_insert (h : t.Valid) (key : α → γ) (a : α) (c : γ) :
    (t.insert a).2.idsWhere (fun b => key b = c) =
      if c = key a then t.idsWhere (fun b => key b = c) ++ [(t.insert a).1]
      else t.idsWhere fun b => key b = c := by
  rw [idsWhere, h.select_insert]
  by_cases hc : key a = c
  · rw [if_pos (decide_eq_true hc), if_pos hc.symm, List.map_append]
    rfl
  · rw [if_neg (by simpa using hc), if_neg (Ne.symm hc)]
    rfl

theorem Valid.idsWhere_erase (h : t.Valid) (key : α → γ) (ha : t.find? id = some a) (c : γ) :
    (t.erase id).idsWhere (fun b => key b = c) =
      if c = key a then (t.idsWhere fun b => key b = c).erase id
      else t.idsWhere fun b => key b = c := by
  have hnodup : (t.idsWhere fun b => key b = c).Nodup := h.nodup_map_select _
  have hfilter : (t.erase id).idsWhere (fun b => key b = c) =
      (t.idsWhere fun b => key b = c).erase id := by
    rw [hnodup.erase_eq_filter, idsWhere, select, entries_erase, List.filter_comm, idsWhere, select,
      List.filter_map]
    congr 1
    apply List.filter_congr
    intro e _
    rw [Function.comp_apply, bne, decide_not, beq_eq_decide]
  rw [hfilter]
  split
  · rfl
  · next hc =>
    rw [List.erase_of_not_mem]
    intro hid
    obtain ⟨b, hb, hkey⟩ := h.mem_map_select.1 hid
    obtain rfl : b = a := Option.some.inj (hb.symm.trans ha)
    exact hc (of_decide_eq_true hkey).symm

theorem firstWhere?_eq_head? (t : Table k α) (p : α → Bool) :
    t.firstWhere? p = (t.idsWhere p).head? := by
  rw [idsWhere, List.head?_map, select, List.head?_filter]
  rfl

theorem Valid.firstWhere?_insert (h : t.Valid) (key : α → γ) (a : α)
    (hnew : (t.firstWhere? fun b => key b = key a) = none) (c : γ) :
    ((t.insert a).2.firstWhere? fun b => key b = c) =
      if c = key a then some (t.insert a).1 else t.firstWhere? fun b => key b = c := by
  rw [firstWhere?_eq_head?, h.idsWhere_insert]
  split
  · next hc =>
    have hnone : t.idsWhere (fun b => key b = c) = [] := by
      rw [← List.head?_eq_none_iff, ← firstWhere?_eq_head?, hc]
      exact hnew
    rw [hnone]
    rfl
  · rw [← firstWhere?_eq_head?]

theorem Valid.firstWhere?_erase (h : t.Valid) (key : α → γ) (ha : t.find? id = some a)
    (hone : ∀ x b, t.find? x = some b → key b = key a → x = id) (c : γ) :
    ((t.erase id).firstWhere? fun b => key b = c) =
      if c = key a then none else t.firstWhere? fun b => key b = c := by
  rw [firstWhere?_eq_head?, h.idsWhere_erase key ha]
  split
  · next hc =>
    rw [List.head?_eq_none_iff, List.eq_nil_iff_forall_not_mem]
    intro x hx
    obtain ⟨b, hb, hkey⟩ := h.mem_map_select.1 (List.mem_of_mem_erase hx)
    have hid : x = id := hone x b hb ((of_decide_eq_true hkey).trans hc)
    exact (h.nodup_map_select _).not_mem_erase (hid ▸ hx)
  · rw [← firstWhere?_eq_head?]

end Key

end Table
end DesignView
