import DesignView.Proofs.Catalog.Intact
import Mathlib.Data.List.Nodup
import Mathlib.Logic.Relation

/-!
The ports of a cell as a forest. The top-level ports are the roots, the members of a group are its
children, and the leaves are the ports that are no groups. As long as each port is at the top level
or in one group, and a group is made after its members, resolving the groups comes to an end and
passes every leaf; a leaf is passed twice only if some group lists a member twice.
-/

namespace DesignView

open Relation (ReflTransGen)

structure PortNode where
  cell : CellId
  source : PortSource
  members : List PortId
  isBus : Bool

def Port.node (q : Port) : PortNode := ⟨q.cell, q.source, q.shape.members, q.shape.isBus⟩

namespace Catalog

variable {c c' : Catalog} {x z : CellId} {p g r s : PortId} {n : PortNode} {q : Port}

def node? (c : Catalog) (p : PortId) : Option PortNode := (c.ports.find? p).map Port.node

theorem node?_of_find? (h : c.ports.find? p = some q) : c.node? p = some q.node :=
  congrArg (Option.map Port.node) h

def Inside (c : Catalog) (x : CellId) (p g : PortId) : Prop :=
  ∃ n, c.node? g = some n ∧ n.cell = x ∧ p ∈ n.members

structure Forest (c : Catalog) (x : CellId) : Prop where
  roots : ∀ p ∈ c.topPorts x, ∃ n, c.node? p = some n ∧ n.cell = x
  rootsOnce : (c.topPorts x).Nodup
  groups : ∀ ⦃p n⦄, c.node? p = some n → n.cell = x → (n.source = .group ↔ n.members ≠ [])
  inside : ∀ ⦃p g⦄, c.Inside x p g → p.num < g.num ∧ ∃ n, c.node? p = some n ∧ n.cell = x
  placed : ∀ ⦃p n⦄, c.node? p = some n → n.cell = x → p ∈ c.topPorts x ∨ ∃ g, c.Inside x p g
  apart : ∀ ⦃p g⦄, c.Inside x p g → p ∉ c.topPorts x
  oneGroup : ∀ ⦃p g g'⦄, c.Inside x p g → c.Inside x p g' → g = g'
  buses : ∀ ⦃g n⦄, c.node? g = some n → n.cell = x → n.isBus = true → n.members.Nodup

def leaves (c : Catalog) (p : PortId) : List PortId := c.expand (c.ports.size + 1) p

theorem bitsOf_eq_leaves (c : Catalog) (x : CellId) :
    c.bitsOf x = (c.topPorts x).flatMap c.leaves := rfl

def Under (c : Catalog) (x : CellId) : PortId → PortId → Prop := ReflTransGen (c.Inside x)

/-- The number of ports that are not after `p`. It bounds the depth of the groups in `p`. -/
def rank (c : Catalog) (p : PortId) : Nat :=
  (c.ports.keys.filter fun r => r.num ≤ p.num).length

theorem rank_le (c : Catalog) (p : PortId) : c.rank p ≤ c.ports.size := by
  have hlength : c.ports.keys.length = c.ports.size := List.length_map ..
  exact hlength ▸ List.length_filter_le ..

theorem mem_rank (hn : c.node? p = some n) :
    p ∈ c.ports.keys.filter fun r => r.num ≤ p.num := by
  obtain ⟨q, hq, -⟩ := Option.map_eq_some_iff.1 hn
  exact List.mem_filter.2 ⟨OrderedMap.mem_keys_iff.2 ⟨q, hq⟩, decide_eq_true (Nat.le_refl _)⟩

theorem rank_lt (h : p.num < g.num) (hg : c.node? g = some n) : c.rank p < c.rank g := by
  have hsplit : (c.ports.keys.filter fun r => r.num ≤ p.num) =
      (c.ports.keys.filter fun r => r.num ≤ g.num).filter fun r => r.num ≤ p.num := by
    rw [List.filter_filter]
    refine List.filter_congr fun r _ => ?_
    rw [Bool.eq_iff_iff, Bool.and_eq_true, decide_eq_true_eq, decide_eq_true_eq]
    omega
  rw [rank, rank, hsplit, List.length_filter_lt_length_iff_exists]
  refine ⟨g, mem_rank hg, ?_⟩
  rw [decide_eq_true_eq]
  omega

theorem expand_succ (hn : c.node? p = some n) (depth : Nat) : c.expand (depth + 1) p =
    if n.members = [] then [p] else n.members.flatMap (c.expand depth) := by
  obtain ⟨q, hq, rfl⟩ := Option.map_eq_some_iff.1 hn
  rw [expand, hq]
  rfl

namespace Forest

theorem expand_eq (h : c.Forest x) {depth depth' : Nat} (hn : c.node? p = some n) (hx : n.cell = x)
    (hdepth : c.rank p ≤ depth) (hdepth' : c.rank p ≤ depth') :
    c.expand depth p = c.expand depth' p := by
  induction depth generalizing p n depth' with
  | zero =>
    have hpos : 0 < c.rank p := List.length_pos_of_mem (mem_rank hn)
    omega
  | succ depth ih =>
    have hpos : 0 < c.rank p := List.length_pos_of_mem (mem_rank hn)
    obtain ⟨depth', rfl⟩ : ∃ d, depth' = d + 1 := Nat.exists_eq_succ_of_ne_zero (by omega)
    rw [expand_succ hn, expand_succ hn]
    split
    · rfl
    · refine List.flatMap_congr fun m hm => ?_
      obtain ⟨hlt, n', hn', hx'⟩ := h.inside ⟨n, hn, hx, hm⟩
      have hrank := rank_lt hlt hn
      exact ih hn' hx' (by omega) (by omega)

theorem leaves_eq (h : c.Forest x) (hn : c.node? p = some n) (hx : n.cell = x) :
    c.leaves p = if n.members = [] then [p] else n.members.flatMap c.leaves := by
  rw [leaves, expand_succ hn]
  split
  · rfl
  · refine List.flatMap_congr fun m hm => ?_
    obtain ⟨hlt, n', hn', hx'⟩ := h.inside ⟨n, hn, hx, hm⟩
    exact h.expand_eq hn' hx' (rank_le c m) (Nat.le_succ_of_le (rank_le c m))

theorem leaves_of_group (h : c.Forest x) (hn : c.node? p = some n) (hx : n.cell = x)
    (hne : n.members ≠ []) : c.leaves p = n.members.flatMap c.leaves := by
  rw [h.leaves_eq hn hx, if_neg hne]

theorem leaves_of_bit (h : c.Forest x) (hn : c.node? p = some n) (hx : n.cell = x)
    (hnil : n.members = []) : c.leaves p = [p] := by
  rw [h.leaves_eq hn hx, if_pos hnil]

theorem induct (h : c.Forest x) {motive : PortId → PortNode → Prop}
    (hstep : ∀ p n, c.node? p = some n → n.cell = x →
      (∀ m ∈ n.members, ∃ n', c.node? m = some n' ∧ n'.cell = x ∧ motive m n') → motive p n)
    (hn : c.node? p = some n) (hx : n.cell = x) : motive p n := by
  induction hnum : p.num using Nat.strong_induction_on generalizing p n with
  | h k ih =>
    refine hstep p n hn hx fun m hm => ?_
    obtain ⟨hlt, n', hn', hx'⟩ := h.inside ⟨n, hn, hx, hm⟩
    exact ⟨n', hn', hx', ih m.num (hnum ▸ hlt) hn' hx' rfl⟩

theorem mem_leaves_iff (h : c.Forest x) (hn : c.node? p = some n) (hx : n.cell = x) :
    s ∈ c.leaves p ↔ c.Under x s p ∧ ∃ n', c.node? s = some n' ∧ n'.cell = x ∧ n'.members = [] := by
  refine h.induct (motive := fun p _ => s ∈ c.leaves p ↔
    c.Under x s p ∧ ∃ n', c.node? s = some n' ∧ n'.cell = x ∧ n'.members = []) ?_ hn hx
  intro p n hn hx ih
  by_cases hnil : n.members = []
  · rw [h.leaves_of_bit hn hx hnil, List.mem_singleton]
    constructor
    · rintro rfl
      exact ⟨.refl, n, hn, hx, hnil⟩
    · rintro ⟨hunder, -⟩
      rcases hunder.cases_tail with rfl | ⟨m, -, n', hn', -, hm⟩
      · rfl
      · cases hn.symm.trans hn'
        rw [hnil] at hm
        cases hm
  · rw [h.leaves_of_group hn hx hnil, List.mem_flatMap]
    constructor
    · rintro ⟨m, hm, hs⟩
      obtain ⟨n', -, -, ihm⟩ := ih m hm
      obtain ⟨hunder, hleaf⟩ := ihm.1 hs
      exact ⟨hunder.tail ⟨n, hn, hx, hm⟩, hleaf⟩
    · rintro ⟨hunder, hleaf⟩
      rcases hunder.cases_tail with rfl | ⟨m, hunder, n', hn', -, hm⟩
      · obtain ⟨n', hn', -, hnil'⟩ := hleaf
        cases hn.symm.trans hn'
        exact absurd hnil' hnil
      · cases hn.symm.trans hn'
        obtain ⟨n', -, -, ihm⟩ := ih m hm
        exact ⟨m, hm, ihm.2 ⟨hunder, hleaf⟩⟩

theorem leaves_ne_nil (h : c.Forest x) (hn : c.node? p = some n) (hx : n.cell = x) :
    c.leaves p ≠ [] := by
  refine h.induct (motive := fun p _ => c.leaves p ≠ []) ?_ hn hx
  intro p n hn hx ih
  by_cases hnil : n.members = []
  · rw [h.leaves_of_bit hn hx hnil]
    exact List.cons_ne_nil _ _
  · obtain ⟨m, hm⟩ := List.exists_mem_of_ne_nil _ hnil
    obtain ⟨-, -, -, ihm⟩ := ih m hm
    obtain ⟨s, hs⟩ := List.exists_mem_of_ne_nil _ ihm
    rw [h.leaves_of_group hn hx hnil]
    exact List.ne_nil_of_mem (List.mem_flatMap.2 ⟨m, hm, hs⟩)

theorem exists_root (h : c.Forest x) (ht : c.Tidy) (hn : c.node? p = some n) (hx : n.cell = x) :
    ∃ r ∈ c.topPorts x, c.Under x p r := by
  induction hk : c.count - p.num using Nat.strong_induction_on generalizing p n with
  | h k ih =>
    rcases h.placed hn hx with htop | ⟨g, hg⟩
    · exact ⟨p, htop, .refl⟩
    · obtain ⟨hlt, -⟩ := h.inside hg
      obtain ⟨n', hn', hx', -⟩ := id hg
      have hle : g.num ≤ c.count := by
        obtain ⟨q, hq, -⟩ := Option.map_eq_some_iff.1 hn'
        exact ht.ports.le g (OrderedMap.mem_keys_iff.2 ⟨q, hq⟩)
      obtain ⟨r, hr, hunder⟩ := ih (c.count - g.num) (by omega) hn' hx' rfl
      exact ⟨r, hr, hunder.head hg⟩

theorem mem_bitsOf_iff (h : c.Forest x) (ht : c.Tidy) :
    p ∈ c.bitsOf x ↔ ∃ n, c.node? p = some n ∧ n.cell = x ∧ n.source ≠ .group := by
  rw [bitsOf_eq_leaves, List.mem_flatMap]
  constructor
  · rintro ⟨r, hr, hp⟩
    obtain ⟨n, hn, hx⟩ := h.roots r hr
    obtain ⟨-, n', hn', hx', hnil⟩ := (h.mem_leaves_iff hn hx).1 hp
    exact ⟨n', hn', hx', fun hgroup => (h.groups hn' hx').1 hgroup hnil⟩
  · rintro ⟨n, hn, hx, hsource⟩
    obtain ⟨r, hr, hunder⟩ := h.exists_root ht hn hx
    obtain ⟨n', hn', hx'⟩ := h.roots r hr
    have hnil : n.members = [] := not_not.1 (mt (h.groups hn hx).2 hsource)
    exact ⟨r, hr, (h.mem_leaves_iff hn' hx').2 ⟨hunder, n, hn, hx, hnil⟩⟩

theorem num_le_of_under (h : c.Forest x) (hunder : c.Under x p g) : p.num ≤ g.num := by
  induction hunder with
  | refl => exact Nat.le_refl _
  | tail _ hin ih => exact Nat.le_trans ih (h.inside hin).1.le

theorem under_or_under (h : c.Forest x) (hp : c.Under x s p) (hg : c.Under x s g) :
    c.Under x p g ∨ c.Under x g p :=
  ReflTransGen.total_of_right_unique (fun _ _ _ h₁ h₂ => h.oneGroup h₁ h₂) hp hg

theorem disjoint_leaves (h : c.Forest x) (hp : ∃ n, c.node? p = some n ∧ n.cell = x)
    (hg : ∃ n, c.node? g = some n ∧ n.cell = x) (hpg : ¬c.Under x p g) (hgp : ¬c.Under x g p) :
    List.Disjoint (c.leaves p) (c.leaves g) := by
  obtain ⟨n, hn, hx⟩ := hp
  obtain ⟨n', hn', hx'⟩ := hg
  intro s hs hs'
  rcases h.under_or_under ((h.mem_leaves_iff hn hx).1 hs).1 ((h.mem_leaves_iff hn' hx').1 hs').1 with
    hunder | hunder
  · exact hpg hunder
  · exact hgp hunder

theorem disjoint_roots (h : c.Forest x) (hp : p ∈ c.topPorts x) (hg : g ∈ c.topPorts x)
    (hne : p ≠ g) : List.Disjoint (c.leaves p) (c.leaves g) := by
  have hroot {p g : PortId} (hp : p ∈ c.topPorts x) (hne : p ≠ g) : ¬c.Under x p g := by
    intro hunder
    rcases hunder.cases_head with rfl | ⟨m, hm, -⟩
    · exact hne rfl
    · exact h.apart hm hp
  exact h.disjoint_leaves (h.roots p hp) (h.roots g hg) (hroot hp hne) (hroot hg hne.symm)

theorem disjoint_members (h : c.Forest x) (hp : c.Inside x p r) (hg : c.Inside x g r)
    (hne : p ≠ g) : List.Disjoint (c.leaves p) (c.leaves g) := by
  have hmember {p g : PortId} (hp : c.Inside x p r) (hg : c.Inside x g r) (hne : p ≠ g) :
      ¬c.Under x p g := by
    intro hunder
    rcases hunder.cases_head with rfl | ⟨m, hm, hunder⟩
    · exact hne rfl
    · -- The group would be under its own member.
      obtain rfl : m = r := h.oneGroup hm hp
      have hle := h.num_le_of_under hunder
      have hlt := (h.inside hg).1
      omega
  exact h.disjoint_leaves (h.inside hp).2 (h.inside hg).2 (hmember hp hg hne)
    (hmember hg hp hne.symm)

theorem leaves_nodup (h : c.Forest x)
    (hall : ∀ g n, c.node? g = some n → n.cell = x → n.members.Nodup)
    (hn : c.node? p = some n) (hx : n.cell = x) : (c.leaves p).Nodup := by
  refine h.induct (motive := fun p _ => (c.leaves p).Nodup) ?_ hn hx
  intro p n hn hx ih
  by_cases hnil : n.members = []
  · rw [h.leaves_of_bit hn hx hnil]
    exact List.nodup_singleton p
  · rw [h.leaves_of_group hn hx hnil, List.nodup_flatMap]
    refine ⟨fun m hm => (ih m hm).choose_spec.2.2, ?_⟩
    refine (hall p n hn hx).pairwise_of_forall_ne fun a ha b hb hne => ?_
    exact h.disjoint_members ⟨n, hn, hx, ha⟩ ⟨n, hn, hx, hb⟩ hne

theorem members_nodup (h : c.Forest x) (hunder : c.Under x g p) (hleaves : (c.leaves p).Nodup)
    (hn : c.node? g = some n) (hx : n.cell = x) : n.members.Nodup := by
  have hbelow : (c.leaves g).Nodup := by
    refine hunder.head_induction_on hleaves fun {g r} hin _ ih => ?_
    obtain ⟨n, hn, hx, hm⟩ := hin
    rw [h.leaves_of_group hn hx (List.ne_nil_of_mem hm)] at ih
    exact (List.nodup_flatMap.1 ih).1 g hm
  by_cases hnil : n.members = []
  · rw [hnil]
    exact List.nodup_nil
  · rw [h.leaves_of_group hn hx hnil] at hbelow
    refine (List.nodup_flatMap.1 hbelow).2.imp_of_mem fun {a b} ha _ hdisjoint => ?_
    rintro rfl
    obtain ⟨-, n', hn', hx'⟩ := h.inside ⟨n, hn, hx, ha⟩
    obtain ⟨s, hs⟩ := List.exists_mem_of_ne_nil _ (h.leaves_ne_nil hn' hx')
    exact hdisjoint hs hs

/-- The bits of a cell are listed once each exactly if no group of the cell, and thus no bundle of
it, lists a member twice. -/
theorem bitsOf_nodup_iff (h : c.Forest x) (ht : c.Tidy) : (c.bitsOf x).Nodup ↔
    ∀ g n, c.node? g = some n → n.cell = x → n.isBus = false → n.members.Nodup := by
  rw [bitsOf_eq_leaves, List.nodup_flatMap]
  constructor
  · rintro ⟨hleaves, -⟩ g n hn hx -
    obtain ⟨r, hr, hunder⟩ := h.exists_root ht hn hx
    exact h.members_nodup hunder (hleaves r hr) hn hx
  · intro hbundles
    have hall : ∀ g n, c.node? g = some n → n.cell = x → n.members.Nodup := by
      intro g n hn hx
      cases hbus : n.isBus with
      | true => exact h.buses hn hx hbus
      | false => exact hbundles g n hn hx hbus
    refine ⟨fun r hr => ?_, h.rootsOnce.pairwise_of_forall_ne fun a ha b hb hne =>
      h.disjoint_roots ha hb hne⟩
    obtain ⟨n, hn, hx⟩ := h.roots r hr
    exact h.leaves_nodup hall hn hx

end Forest

/-- The port on top of the stack is taken off. A group leaves its members on the stack, in its
place; another port is noted down. -/
inductive Pops (c : Catalog) :
    List PortId × List PortId → List PortId × List PortId → Prop
  | bit {p : PortId} {n : PortNode} {stack bits : List PortId} (hn : c.node? p = some n)
      (hnil : n.members = []) : c.Pops (p :: stack, bits) (stack, bits ++ [p])
  | group {p : PortId} {n : PortNode} {stack bits : List PortId} (hn : c.node? p = some n)
      (hne : n.members ≠ []) : c.Pops (p :: stack, bits) (n.members ++ stack, bits)

theorem Pops.unique {s t t' : List PortId × List PortId} (h : c.Pops s t) (h' : c.Pops s t') :
    t = t' := by
  cases h with
  | bit hn hnil =>
    cases h' with
    | bit => rfl
    | group hn' hne => exact absurd (Option.some.inj (hn.symm.trans hn') ▸ hnil) hne
  | group hn hne =>
    cases h' with
    | bit hn' hnil => exact absurd (Option.some.inj (hn'.symm.trans hn) ▸ hnil) hne
    | group hn' => rw [Option.some.inj (hn.symm.trans hn')]

theorem pops_of_pops {s t : List PortId × List PortId} {bits : List PortId}
    (hend : ReflTransGen c.Pops s ([], bits)) (h : ReflTransGen c.Pops s t) :
    ReflTransGen c.Pops t ([], bits) := by
  have hunique : Relator.RightUnique c.Pops := fun _ _ _ => Pops.unique
  rcases ReflTransGen.total_of_right_unique hunique h hend with h | h
  · exact h
  · rcases h.cases_head with rfl | ⟨_, s, -⟩
    · exact .refl
    · cases s

theorem pops_flatMap (c : Catalog) (ports : List PortId)
    (h : ∀ p ∈ ports, ∀ stack bits,
      ReflTransGen c.Pops (p :: stack, bits) (stack, bits ++ c.leaves p))
    (stack bits : List PortId) :
    ReflTransGen c.Pops (ports ++ stack, bits) (stack, bits ++ ports.flatMap c.leaves) := by
  induction ports generalizing bits with
  | nil =>
    rw [List.nil_append, List.flatMap_nil, List.append_nil]
  | cons p ports ih =>
    have hone := h p List.mem_cons_self (ports ++ stack) bits
    have hrest := ih (fun p' hp' => h p' (List.mem_cons_of_mem p hp')) (bits ++ c.leaves p)
    rw [List.append_assoc] at hrest
    rw [List.flatMap_cons]
    exact hone.trans hrest

theorem Forest.pops (h : c.Forest x) (hn : c.node? p = some n) (hx : n.cell = x)
    (stack bits : List PortId) :
    ReflTransGen c.Pops (p :: stack, bits) (stack, bits ++ c.leaves p) := by
  revert stack bits
  refine h.induct (motive := fun p _ => ∀ stack bits,
    ReflTransGen c.Pops (p :: stack, bits) (stack, bits ++ c.leaves p)) ?_ hn hx
  intro p n hn hx ih stack bits
  by_cases hnil : n.members = []
  · rw [h.leaves_of_bit hn hx hnil]
    exact .single (.bit hn hnil)
  · rw [h.leaves_of_group hn hx hnil]
    refine .head (.group hn hnil) (pops_flatMap c _ (fun m hm => ?_) stack bits)
    exact (ih m hm).choose_spec.2.2

/-- Starting with the top-level ports on the stack, the loop ends, and has then noted down the bits
of the cell. -/
theorem Forest.pops_bitsOf (h : c.Forest x) :
    ReflTransGen c.Pops (c.topPorts x, []) ([], c.bitsOf x) := by
  have hall := pops_flatMap c (c.topPorts x) (fun p hp stack bits => by
    obtain ⟨n, hn, hx⟩ := h.roots p hp
    exact h.pops hn hx stack bits) [] []
  rw [List.append_nil, List.nil_append] at hall
  exact hall

end Catalog
end DesignView
