import DesignView.Physical.Attachment
import DesignView.Proofs.Container.Table

/-!
References between tables: names that are distinct, owners that are live, and attachments whose two
ends are live. Each is kept by the operations on tables under the conditions under which a design
calls them.
-/

namespace DesignView

namespace Table

variable {k j : Kind} {α β γ : Type}

def Distinct (t : Table k α) (key : α → γ) : Prop :=
  ∀ ⦃x y a b⦄, t.find? x = some a → t.find? y = some b → key a = key b → x = y

def Owned (t : Table k α) (owner : α → Id j) (s : Table j β) : Prop :=
  ∀ ⦃x a⦄, t.find? x = some a → owner a ∈ s.ids

theorem mem_ids_insert {t : Table k α} {a : α} {id : Id k} (h : id ∈ t.ids) :
    id ∈ (t.insert a).2.ids := by
  obtain ⟨b, hb⟩ := mem_ids_iff.1 h
  rw [mem_ids_iff, find?_insert]
  split
  · exact ⟨a, rfl⟩
  · exact ⟨b, hb⟩

theorem mem_ids_modify {t : Table k α} {id x : Id k} {f : α → α} :
    x ∈ (t.modify id f).ids ↔ x ∈ t.ids := by
  rw [ids, modify, OrderedMap.keys_modify]
  rfl

theorem mem_ids_modifyWhere {t : Table k α} {p : α → Bool} {f : α → α} {x : Id k} :
    x ∈ (t.modifyWhere p f).ids ↔ x ∈ t.ids := by
  rw [ids_modifyWhere]

theorem mem_ids_eraseAll {t : Table k α} {xs : List (Id k)} {x : Id k} :
    x ∈ (t.eraseAll xs).ids ↔ x ∈ t.ids ∧ x ∉ xs := by
  simp only [mem_ids_iff, find?_eraseAll]
  split <;> simp_all

def Sub (s t : Table k α) : Prop := ∀ ⦃x a⦄, s.find? x = some a → t.find? x = some a

theorem Sub.of_eq {s t : Table k α} (h : s = t) : s.Sub t := fun _ _ hx => h ▸ hx

theorem sub_erase (t : Table k α) (id : Id k) : (t.erase id).Sub t := by
  intro x a hx
  rw [find?_erase] at hx
  split at hx
  · cases hx
  · exact hx

theorem sub_eraseAll (t : Table k α) (ids : List (Id k)) : (t.eraseAll ids).Sub t := by
  intro x a hx
  rw [find?_eraseAll] at hx
  split at hx
  · cases hx
  · exact hx

theorem distinct_empty (key : α → γ) : ({} : Table k α).Distinct key := fun _ _ _ _ h => by
  cases h

theorem Distinct.insert {t : Table k α} {key : α → γ} (h : t.Distinct key) {a : α}
    (hnew : ∀ ⦃x b⦄, t.find? x = some b → key b ≠ key a) : (t.insert a).2.Distinct key := by
  intro x y b c hx hy e
  rw [find?_insert] at hx hy
  split at hx <;> split at hy
  · next ex ey => rw [ex, ey]
  · cases hx
    exact absurd e.symm (hnew hy)
  · cases hy
    exact absurd e (hnew hx)
  · exact h hx hy e

theorem Distinct.insertAll {ε : Type} {f : ε → α} {t : Table k α} {key : α → γ}
    (h : t.Distinct key) {es : List ε} (hes : (es.map fun e => key (f e)).Nodup)
    (hnew : ∀ ⦃x b⦄, t.find? x = some b → ∀ e ∈ es, key b ≠ key (f e)) :
    (t.insertAll f es).Distinct key := by
  induction es generalizing t with
  | nil => exact h
  | cons e es ih =>
    obtain ⟨he, hes⟩ := List.nodup_cons.1 hes
    refine ih (h.insert fun x b hx => hnew hx e List.mem_cons_self) hes fun x b hx e' he' => ?_
    rw [find?_insert] at hx
    split at hx
    · cases hx
      exact fun hk => he (List.mem_map.2 ⟨e', he', hk.symm⟩)
    · exact hnew hx e' (List.mem_cons_of_mem _ he')

theorem Distinct.narrow {t s : Table k α} {key : α → γ} (h : t.Distinct key)
    (hs : ∀ ⦃x a⦄, s.find? x = some a → ∃ b, t.find? x = some b ∧ key b = key a) :
    s.Distinct key := by
  intro x y a b hx hy e
  obtain ⟨a', ha', ea⟩ := hs hx
  obtain ⟨b', hb', eb⟩ := hs hy
  exact h ha' hb' (ea.trans (e.trans eb.symm))

theorem Distinct.erase {t : Table k α} {key : α → γ} (h : t.Distinct key) (id : Id k) :
    (t.erase id).Distinct key := by
  refine h.narrow fun x a hx => ⟨a, ?_, rfl⟩
  rw [find?_erase] at hx
  split at hx
  · cases hx
  · exact hx

theorem Distinct.eraseAll {t : Table k α} {key : α → γ} (h : t.Distinct key) (ids : List (Id k)) :
    (t.eraseAll ids).Distinct key := by
  refine h.narrow fun x a hx => ⟨a, ?_, rfl⟩
  rw [find?_eraseAll] at hx
  split at hx
  · cases hx
  · exact hx

theorem Distinct.modify {t : Table k α} {key : α → γ} (h : t.Distinct key) (id : Id k) {f : α → α}
    (hf : ∀ a, key (f a) = key a) : (t.modify id f).Distinct key := by
  refine h.narrow fun x a hx => ?_
  rw [find?_modify] at hx
  split at hx
  · obtain ⟨b, hb, rfl⟩ := Option.map_eq_some_iff.1 hx
    exact ⟨b, hb, (hf b).symm⟩
  · exact ⟨a, hx, rfl⟩

theorem Distinct.modifyWhere {t : Table k α} {key : α → γ} (h : t.Distinct key) (p : α → Bool)
    {f : α → α} (hf : ∀ a, key (f a) = key a) : (t.modifyWhere p f).Distinct key := by
  refine h.narrow fun x a hx => ?_
  rw [find?_modifyWhere] at hx
  obtain ⟨b, hb, rfl⟩ := Option.map_eq_some_iff.1 hx
  refine ⟨b, hb, ?_⟩
  split
  · exact (hf b).symm
  · rfl

theorem Distinct.firstWhere?_eq_some_iff {t : Table k α} {key : α → γ} [DecidableEq γ]
    (h : t.Distinct key) (ht : t.Valid) {c : γ} {id : Id k} :
    (t.firstWhere? fun a => key a = c) = some id ↔ ∃ a, t.find? id = some a ∧ key a = c := by
  have unique : ∀ x y a b, t.objects.find? x = some a → t.objects.find? y = some b →
      decide (key a = c) → decide (key b = c) → x = y := by
    intro x y a b hx hy ha hb
    exact h hx hy ((of_decide_eq_true ha).trans (of_decide_eq_true hb).symm)
  refine (OrderedMap.firstKey?_eq_some_iff ht.nodup unique).trans ?_
  simp only [decide_eq_true_eq]
  rfl

theorem Distinct.firstIn?_eq_some_iff {δ : Type} [DecidableEq γ] [DecidableEq δ] {t : Table k α}
    {owner : α → γ} {name : α → δ} (h : t.Distinct fun a => (owner a, name a)) (ht : t.Valid)
    {c : γ} {e : δ} {id : Id k} :
    (t.firstWhere? fun a => owner a = c && name a = e) = some id ↔
      ∃ a, t.find? id = some a ∧ owner a = c ∧ name a = e := by
  have hkey : (fun a => decide (owner a = c) && decide (name a = e)) =
      fun a => decide ((owner a, name a) = (c, e)) := by
    funext a
    rw [← Bool.decide_and]
    simp only [Prod.mk.injEq]
  rw [hkey, h.firstWhere?_eq_some_iff ht]
  simp only [Prod.mk.injEq]

theorem owned_empty (owner : α → Id j) (s : Table j β) : ({} : Table k α).Owned owner s :=
  fun _ _ h => by cases h

theorem Owned.insert {t : Table k α} {owner : α → Id j} {s : Table j β} (h : t.Owned owner s)
    {a : α} (ha : owner a ∈ s.ids) : (t.insert a).2.Owned owner s := by
  intro x b hx
  rw [find?_insert] at hx
  split at hx
  · cases hx
    exact ha
  · exact h hx

theorem Owned.insertAll {ε : Type} {f : ε → α} {t : Table k α} {owner : α → Id j} {s : Table j β}
    (h : t.Owned owner s) {es : List ε} (hes : ∀ e ∈ es, owner (f e) ∈ s.ids) :
    (t.insertAll f es).Owned owner s := by
  induction es generalizing t with
  | nil => exact h
  | cons e es ih =>
    exact ih (h.insert (hes e List.mem_cons_self)) fun e' he' => hes e' (List.mem_cons_of_mem _ he')

theorem Owned.narrow {t t' : Table k α} {owner : α → Id j} {s : Table j β} (h : t.Owned owner s)
    (ht : ∀ ⦃x a⦄, t'.find? x = some a → ∃ b, t.find? x = some b ∧ owner b = owner a) :
    t'.Owned owner s := by
  intro x a hx
  obtain ⟨b, hb, e⟩ := ht hx
  exact e ▸ h hb

theorem Owned.erase {t : Table k α} {owner : α → Id j} {s : Table j β} (h : t.Owned owner s)
    (id : Id k) : (t.erase id).Owned owner s := by
  refine h.narrow fun x a hx => ⟨a, ?_, rfl⟩
  rw [find?_erase] at hx
  split at hx
  · cases hx
  · exact hx

theorem Owned.modify {t : Table k α} {owner : α → Id j} {s : Table j β} (h : t.Owned owner s)
    (id : Id k) {f : α → α} (hf : ∀ a, owner (f a) = owner a) : (t.modify id f).Owned owner s := by
  refine h.narrow fun x a hx => ?_
  rw [find?_modify] at hx
  split at hx
  · obtain ⟨b, hb, rfl⟩ := Option.map_eq_some_iff.1 hx
    exact ⟨b, hb, (hf b).symm⟩
  · exact ⟨a, hx, rfl⟩

theorem Owned.modifyWhere {t : Table k α} {owner : α → Id j} {s : Table j β} (h : t.Owned owner s)
    (p : α → Bool) {f : α → α} (hf : ∀ a, owner (f a) = owner a) :
    (t.modifyWhere p f).Owned owner s := by
  refine h.narrow fun x a hx => ?_
  rw [find?_modifyWhere] at hx
  obtain ⟨b, hb, rfl⟩ := Option.map_eq_some_iff.1 hx
  refine ⟨b, hb, ?_⟩
  split
  · exact (hf b).symm
  · rfl

theorem Owned.insertOwner {t : Table k α} {owner : α → Id j} {s : Table j β} (h : t.Owned owner s)
    (b : β) : t.Owned owner (s.insert b).2 := fun _ _ hx => mem_ids_insert (h hx)

theorem Owned.modifyOwner {t : Table k α} {owner : α → Id j} {s : Table j β} (h : t.Owned owner s)
    (id : Id j) (f : β → β) : t.Owned owner (s.modify id f) :=
  fun _ _ hx => mem_ids_modify.2 (h hx)

theorem Owned.eraseOwner {t : Table k α} {owner : α → Id j} {s : Table j β} (h : t.Owned owner s)
    {id : Id j} {ids : List (Id k)} (hids : ∀ ⦃x a⦄, t.find? x = some a → owner a = id → x ∈ ids) :
    (t.eraseAll ids).Owned owner (s.erase id) := by
  intro x a hx
  rw [find?_eraseAll] at hx
  split at hx
  · cases hx
  · next hnot => exact mem_ids_erase.2 ⟨h hx, fun e => hnot (hids hx e)⟩

end Table

namespace Attachments

variable {t n : Kind} {α β : Type}

/-- Every terminal is attached at most once, and both ends of an attachment are live. -/
structure Within (a : Attachments t n) (ts : Table t α) (ns : Table n β) : Prop where
  nodup : a.keys.Nodup
  live : ∀ ⦃x y⦄, a.netOf x = some y → x ∈ ts.ids ∧ y ∈ ns.ids

theorem netOf_detach (a : Attachments t n) (x z : Id t) :
    (a.detach x).netOf z = if z = x then none else a.netOf z := OrderedMap.find?_erase ..

theorem netOf_detachAll (a : Attachments t n) (xs : List (Id t)) (z : Id t) :
    (a.detachAll xs).netOf z = if z ∈ xs then none else a.netOf z := by
  induction xs generalizing a with
  | nil => simp [detachAll]
  | cons x xs ih =>
    change ((a.detach x).detachAll xs).netOf z = _
    rw [ih, netOf_detach]
    by_cases hx : z = x <;> simp [hx]

theorem netOf_attach (a : Attachments t n) (x : Id t) (y : Id n) (z : Id t) :
    (a.attach x y).netOf z = if z = x then some y else a.netOf z := by
  have h : (a.attach x y).netOf z = if z = x then some y else (a.detach x).netOf z :=
    OrderedMap.find?_insert ..
  rw [h, netOf_detach]
  split <;> rfl

theorem netOf_move (a : Attachments t n) (x : Id t) (y : Id n) (live : Bool) (z : Id t) :
    (a.move x y live).netOf z =
      if z = x then (if live then some y else none) else a.netOf z := by
  unfold move
  cases live
  · exact netOf_detach ..
  · exact netOf_attach ..

theorem Within.netOf_clearNet {a : Attachments t n} {ts : Table t α} {ns : Table n β}
    (h : a.Within ts ns) (y : Id n) (z : Id t) :
    (a.clearNet y).netOf z = (a.netOf z).filter fun w => w ≠ y :=
  OrderedMap.find?_filter h.nodup ..

theorem nodup_members {a : Attachments t n} (h : a.keys.Nodup) (y : Id n) : (a.members y).Nodup :=
  h.sublist (List.filter_sublist.map _)

theorem mem_members {a : Attachments t n} (h : a.keys.Nodup) {x : Id t} {y : Id n} :
    x ∈ a.members y ↔ a.netOf x = some y := by
  rw [netOf, OrderedMap.find?_eq_some_iff h, members, List.mem_map]
  constructor
  · rintro ⟨e, he, rfl⟩
    obtain ⟨hmem, hy⟩ := List.mem_filter.1 he
    exact of_decide_eq_true hy ▸ hmem
  · exact fun hmem => ⟨(x, y), List.mem_filter.2 ⟨hmem, by simp⟩, rfl⟩

theorem members_filter (a : Attachments t n) (p : Id t → Id n → Bool) (y : Id n) :
    members (a.filter p) y = (a.members y).filter fun x => p x y := by
  simp only [members, OrderedMap.filter, List.filter_map, List.filter_filter]
  congr 1
  apply List.filter_congr
  intro e _
  by_cases he : e.2 = y <;> simp [he]

theorem within_empty (ts : Table t α) (ns : Table n β) : Within {} ts ns :=
  ⟨List.nodup_nil, fun _ _ h => by cases h⟩

theorem Within.detach {a : Attachments t n} {ts : Table t α} {ns : Table n β} (h : a.Within ts ns)
    (x : Id t) : (a.detach x).Within ts ns := by
  refine ⟨OrderedMap.keys_nodup_erase h.nodup x, fun z y hz => ?_⟩
  rw [netOf_detach] at hz
  split at hz
  · cases hz
  · exact h.live hz

theorem Within.detachAll {a : Attachments t n} {ts : Table t α} {ns : Table n β}
    (h : a.Within ts ns) (xs : List (Id t)) : (a.detachAll xs).Within ts ns := by
  induction xs generalizing a with
  | nil => exact h
  | cons x xs ih => exact ih (h.detach x)

theorem Within.attach {a : Attachments t n} {ts : Table t α} {ns : Table n β} (h : a.Within ts ns)
    {x : Id t} {y : Id n} (hx : x ∈ ts.ids) (hy : y ∈ ns.ids) : (a.attach x y).Within ts ns := by
  refine ⟨OrderedMap.keys_nodup_insert (h.detach x).nodup x y, fun z w hz => ?_⟩
  rw [netOf_attach] at hz
  split at hz
  · next e =>
    cases hz
    exact ⟨e ▸ hx, hy⟩
  · exact h.live hz

theorem Within.move {a : Attachments t n} {ts : Table t α} {ns : Table n β} (h : a.Within ts ns)
    (x : Id t) (y : Id n) : (a.move x y (ts.contains x && ns.contains y)).Within ts ns := by
  unfold Attachments.move
  split
  · next hlive =>
    obtain ⟨hx, hy⟩ := Bool.and_eq_true_iff.1 hlive
    exact h.attach (Table.contains_iff.1 hx) (Table.contains_iff.1 hy)
  · exact h.detach x

theorem Within.clearNet {a : Attachments t n} {ts : Table t α} {ns : Table n β}
    (h : a.Within ts ns) (y : Id n) : (a.clearNet y).Within ts (ns.erase y) := by
  refine ⟨OrderedMap.keys_nodup_filter h.nodup _, fun z w hz => ?_⟩
  rw [h.netOf_clearNet, Option.filter_eq_some_iff] at hz
  obtain ⟨hx, hw⟩ := h.live hz.1
  exact ⟨hx, Table.mem_ids_erase.2 ⟨hw, of_decide_eq_true hz.2⟩⟩

theorem Within.insertTerm {a : Attachments t n} {ts : Table t α} {ns : Table n β}
    (h : a.Within ts ns) (b : α) : a.Within (ts.insert b).2 ns :=
  ⟨h.nodup, fun _ _ hz => ⟨Table.mem_ids_insert (h.live hz).1, (h.live hz).2⟩⟩

theorem Within.insertTerms {ε : Type} {f : ε → α} {a : Attachments t n} {ts : Table t α}
    {ns : Table n β} (h : a.Within ts ns) (es : List ε) : a.Within (ts.insertAll f es) ns := by
  induction es generalizing ts with
  | nil => exact h
  | cons e es ih => exact ih (h.insertTerm (f e))

theorem Within.insertNet {a : Attachments t n} {ts : Table t α} {ns : Table n β}
    (h : a.Within ts ns) (b : β) : a.Within ts (ns.insert b).2 :=
  ⟨h.nodup, fun _ _ hz => ⟨(h.live hz).1, Table.mem_ids_insert (h.live hz).2⟩⟩

theorem Within.modifyTerm {a : Attachments t n} {ts : Table t α} {ns : Table n β}
    (h : a.Within ts ns) (id : Id t) (f : α → α) : a.Within (ts.modify id f) ns :=
  ⟨h.nodup, fun _ _ hz => ⟨Table.mem_ids_modify.2 (h.live hz).1, (h.live hz).2⟩⟩

theorem Within.modifyTerms {a : Attachments t n} {ts : Table t α} {ns : Table n β}
    (h : a.Within ts ns) (p : α → Bool) (f : α → α) : a.Within (ts.modifyWhere p f) ns :=
  ⟨h.nodup, fun _ _ hz => ⟨Table.mem_ids_modifyWhere.2 (h.live hz).1, (h.live hz).2⟩⟩

theorem Within.modifyNet {a : Attachments t n} {ts : Table t α} {ns : Table n β}
    (h : a.Within ts ns) (id : Id n) (f : β → β) : a.Within ts (ns.modify id f) :=
  ⟨h.nodup, fun _ _ hz => ⟨(h.live hz).1, Table.mem_ids_modify.2 (h.live hz).2⟩⟩

theorem Within.eraseTerm {a : Attachments t n} {ts : Table t α} {ns : Table n β}
    (h : a.Within ts ns) (x : Id t) : (a.detach x).Within (ts.erase x) ns := by
  refine ⟨(h.detach x).nodup, fun z y hz => ?_⟩
  rw [netOf_detach] at hz
  split at hz
  · cases hz
  · next e => exact ⟨Table.mem_ids_erase.2 ⟨(h.live hz).1, e⟩, (h.live hz).2⟩

theorem Within.eraseTerms {a : Attachments t n} {ts : Table t α} {ns : Table n β}
    (h : a.Within ts ns) (xs : List (Id t)) : (a.detachAll xs).Within (ts.eraseAll xs) ns := by
  refine ⟨(h.detachAll xs).nodup, fun z y hz => ?_⟩
  rw [netOf_detachAll] at hz
  split at hz
  · cases hz
  · next e => exact ⟨Table.mem_ids_eraseAll.2 ⟨(h.live hz).1, e⟩, (h.live hz).2⟩

end Attachments
end DesignView
