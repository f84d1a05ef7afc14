import DesignView.Proofs.Catalog.Buses
import DesignView.Proofs.Catalog.Forest

/-!
The forests under changes of the catalog. A new port is a new root, a new group takes roots below
it, and a removed cell takes its forest with it; links and directions are no matter of the forest.
-/

namespace DesignView.Catalog

variable {c c' c'' : Catalog} {x z cell : CellId} {p : PortId} {n : PortNode}

def Planted (c : Catalog) : Prop := ∀ x, c.Forest x

theorem topPorts_eq (c : Catalog) (x : CellId) :
    c.topPorts x = ((c.cells.find? x).map (·.ports)).getD [] := by
  unfold topPorts
  cases c.cells.find? x <;> rfl

theorem Tidy.node?_next (h : c.Tidy) : c.node? ⟨c.count + 1⟩ = none := by
  rw [node?, h.ports.find?_fresh rfl, Option.map_none]

theorem Tidy.num_le_of_node? (h : c.Tidy) (hn : c.node? p = some n) : p.num ≤ c.count := by
  obtain ⟨q, hq, -⟩ := Option.map_eq_some_iff.1 hn
  exact h.ports.le p (OrderedMap.mem_keys_iff.2 ⟨q, hq⟩)

theorem Forest.next_not_mem (h : c.Forest x) (ht : c.Tidy) : ⟨c.count + 1⟩ ∉ c.topPorts x := by
  intro hp
  obtain ⟨n, hn, -⟩ := h.roots _ hp
  cases ht.node?_next.symm.trans hn

theorem forest_of_none (htop : c.topPorts x = []) (hnone : ∀ p n, c.node? p = some n → n.cell ≠ x) :
    c.Forest x := by
  have hinside {p g : PortId} : ¬c.Inside x p g := fun ⟨n, hn, hx, _⟩ => hnone g n hn hx
  refine ⟨fun p hp => ?_, htop ▸ List.nodup_nil, fun p n hn hx => absurd hx (hnone p n hn),
    fun p g h => absurd h hinside, fun p n hn hx => absurd hx (hnone p n hn),
    fun p g h => absurd h hinside, fun p g g' h => absurd h hinside,
    fun p n hn hx => absurd hx (hnone p n hn)⟩
  rw [htop] at hp
  cases hp

theorem forest_empty (x : CellId) : ({} : Catalog).Forest x :=
  forest_of_none rfl fun _ _ h => by cases h

theorem Forest.congr (h : c.Forest x) (htop : c'.topPorts x = c.topPorts x)
    (hnodes : ∀ p n, n.cell = x → (c'.node? p = some n ↔ c.node? p = some n)) : c'.Forest x := by
  have hinside {p g : PortId} : c'.Inside x p g ↔ c.Inside x p g := by
    refine exists_congr fun n => ⟨fun ⟨hn, hx, hm⟩ => ?_, fun ⟨hn, hx, hm⟩ => ?_⟩
    · exact ⟨(hnodes g n hx).1 hn, hx, hm⟩
    · exact ⟨(hnodes g n hx).2 hn, hx, hm⟩
  refine ⟨fun p hp => ?_, htop ▸ h.rootsOnce, fun p n hn hx => h.groups ((hnodes p n hx).1 hn) hx,
    fun p g hg => ?_, fun p n hn hx => ?_, fun p g hg => ?_, fun p g g' hg hg' => ?_,
    fun g n hn hx => h.buses ((hnodes g n hx).1 hn) hx⟩
  · obtain ⟨n, hn, hx⟩ := h.roots p (htop ▸ hp)
    exact ⟨n, (hnodes p n hx).2 hn, hx⟩
  · obtain ⟨hlt, n, hn, hx⟩ := h.inside (hinside.1 hg)
    exact ⟨hlt, n, (hnodes p n hx).2 hn, hx⟩
  · rcases h.placed ((hnodes p n hx).1 hn) hx with hp | ⟨g, hg⟩
    · exact .inl (htop ▸ hp)
    · exact .inr ⟨g, hinside.2 hg⟩
  · rw [htop]
    exact h.apart (hinside.1 hg)
  · exact h.oneGroup (hinside.1 hg) (hinside.1 hg')

/-- A new port becomes a root, and the roots that are its members are below it from then on. -/
theorem Forest.add (h : c.Forest x) (ht : c.Tidy) {source : PortSource} {members : List PortId}
    {isBus : Bool} (hsource : source = .group ↔ members ≠ [])
    (hmembers : ∀ p ∈ members, p ∈ c.topPorts x) (hbus : isBus = true → members.Nodup)
    (hmem : ∀ p, p ∈ c'.topPorts x ↔ p = ⟨c.count + 1⟩ ∨ p ∈ c.topPorts x ∧ p ∉ members)
    (honce : (c'.topPorts x).Nodup)
    (hnode : ∀ p, c'.node? p = if p = ⟨c.count + 1⟩ then some ⟨x, source, members, isBus⟩
      else c.node? p) : c'.Forest x := by
  have hnew : c'.node? ⟨c.count + 1⟩ = some ⟨x, source, members, isBus⟩ :=
    (hnode _).trans (if_pos rfl)
  have hold {p : PortId} {n : PortNode} (hn : c.node? p = some n) : c'.node? p = some n := by
    rw [hnode, if_neg, hn]
    rintro rfl
    cases ht.node?_next.symm.trans hn
  have hcases {p : PortId} {n : PortNode} (hn : c'.node? p = some n) :
      c.node? p = some n ∨ p = ⟨c.count + 1⟩ ∧ n = ⟨x, source, members, isBus⟩ := by
    rw [hnode] at hn
    split at hn
    · next hp => exact .inr ⟨hp, (Option.some.inj hn).symm⟩
    · exact .inl hn
  have hinside {p g : PortId} : c'.Inside x p g ↔
      c.Inside x p g ∨ g = ⟨c.count + 1⟩ ∧ p ∈ members := by
    constructor
    · rintro ⟨n, hn, hx, hm⟩
      rcases hcases hn with hn | ⟨rfl, rfl⟩
      · exact .inl ⟨n, hn, hx, hm⟩
      · exact .inr ⟨rfl, hm⟩
    · rintro (⟨n, hn, hx, hm⟩ | ⟨rfl, hm⟩)
      · exact ⟨n, hold hn, hx, hm⟩
      · exact ⟨_, hnew, rfl, hm⟩
  have hfresh : (⟨c.count + 1⟩ : PortId) ∉ c.topPorts x := h.next_not_mem ht
  refine ⟨fun p hp => ?_, honce, fun p n hn hx => ?_, fun p g hg => ?_, fun p n hn hx => ?_,
    fun p g hg => ?_, fun p g g' hg hg' => ?_, fun g n hn hx hb => ?_⟩
  · rcases (hmem p).1 hp with rfl | ⟨hp, -⟩
    · exact ⟨_, hnew, rfl⟩
    · obtain ⟨n, hn, hx⟩ := h.roots p hp
      exact ⟨n, hold hn, hx⟩
  · rcases hcases hn with hn | ⟨-, rfl⟩
    · exact h.groups hn hx
    · exact hsource
  · rcases hinside.1 hg with hg | ⟨rfl, hp⟩
    · obtain ⟨hlt, n, hn, hx⟩ := h.inside hg
      exact ⟨hlt, n, hold hn, hx⟩
    · obtain ⟨n, hn, hx⟩ := h.roots p (hmembers p hp)
      exact ⟨Nat.lt_succ_of_le (ht.num_le_of_node? hn), n, hold hn, hx⟩
  · rcases hcases hn with hn | ⟨rfl, -⟩
    · rcases h.placed hn hx with hp | ⟨g, hg⟩
      · by_cases hin : p ∈ members
        · exact .inr ⟨_, hinside.2 (.inr ⟨rfl, hin⟩)⟩
        · exact .inl ((hmem p).2 (.inr ⟨hp, hin⟩))
      · exact .inr ⟨g, hinside.2 (.inl hg)⟩
    · exact .inl ((hmem _).2 (.inl rfl))
  · rw [hmem, not_or, not_and, not_not]
    rcases hinside.1 hg with hg | ⟨rfl, hp⟩
    · refine ⟨?_, fun hp => absurd hp (h.apart hg)⟩
      rintro rfl
      obtain ⟨-, n, hn, -⟩ := h.inside hg
      cases ht.node?_next.symm.trans hn
    · refine ⟨?_, fun _ => hp⟩
      rintro rfl
      exact hfresh (hmembers _ hp)
  · -- The members of the new group were roots, so they were in no other group.
    rcases hinside.1 hg with hg | ⟨rfl, hp⟩ <;> rcases hinside.1 hg' with hg' | ⟨rfl, hp'⟩
    · exact h.oneGroup hg hg'
    · exact absurd (hmembers p hp') (h.apart hg)
    · exact absurd (hmembers p hp) (h.apart hg')
    · rfl
  · rcases hcases hn with hn | ⟨-, rfl⟩
    · exact h.buses hn hx hb
    · exact hbus hb

theorem Forest.plant (h : c.Forest x) (ht : c.Tidy) {source : PortSource} (hs : source ≠ .group)
    (htop : c'.topPorts x = c.topPorts x ++ [⟨c.count + 1⟩])
    (hnode : ∀ p, c'.node? p = if p = ⟨c.count + 1⟩ then some ⟨x, source, [], false⟩
      else c.node? p) : c'.Forest x := by
  refine h.add ht (by simp [hs]) (by simp) (fun _ => List.nodup_nil) (fun p => ?_) ?_ hnode
  · rw [htop, List.mem_append, List.mem_singleton, or_comm]
    simp
  · rw [htop, List.nodup_append]
    refine ⟨h.rootsOnce, List.nodup_singleton _, fun a ha b hb hab => ?_⟩
    rw [hab, List.mem_singleton.1 hb] at ha
    exact h.next_not_mem ht ha

theorem nodup_regroup {ports members : List PortId} {g : PortId} (hnodup : ports.Nodup)
    (hg : g ∉ ports) : (regroup ports members g).Nodup := by
  have hsplit : ports.takeWhile (· ∉ members) ++ ports.dropWhile (· ∉ members) = ports :=
    List.takeWhile_append_dropWhile
  have hsub : (ports.takeWhile (· ∉ members) ++
      (ports.dropWhile (· ∉ members)).filter (· ∉ members)).Sublist ports := by
    conv => rhs; rw [← hsplit]
    exact List.Sublist.append (.refl _) List.filter_sublist
  rw [regroup, List.nodup_middle, List.nodup_cons]
  exact ⟨fun hin => hg (hsub.subset hin), hnodup.sublist hsub⟩

/-- A new group takes the place of some roots. -/
theorem Forest.graft (h : c.Forest x) (ht : c.Tidy) {members : List PortId} {isBus : Bool}
    (hne : members ≠ []) (hmembers : ∀ p ∈ members, p ∈ c.topPorts x)
    (hbus : isBus = true → members.Nodup)
    (htop : c'.topPorts x = regroup (c.topPorts x) members ⟨c.count + 1⟩)
    (hnode : ∀ p, c'.node? p = if p = ⟨c.count + 1⟩ then some ⟨x, .group, members, isBus⟩
      else c.node? p) : c'.Forest x := by
  refine h.add ht (iff_of_true rfl hne) hmembers hbus (fun p => ?_) ?_ hnode
  · rw [htop]
    exact mem_regroup
  · rw [htop]
    exact nodup_regroup h.rootsOnce (h.next_not_mem ht)

theorem MakesBus.node? {bus : String} {bits : List (Nat × PortId)}
    (m : c.MakesBus cell bus bits c') (p : PortId) : c'.node? p =
      if p = ⟨c.count + 1⟩ then some ⟨cell, .group, bits.map (·.2), true⟩ else c.node? p := by
  split
  · next hp =>
    obtain ⟨first, last, -, -, hbus⟩ := m.made
    rw [hp]
    exact node?_of_find? hbus
  · next hp =>
    by_cases hin : p ∈ bits.map (·.2)
    · obtain ⟨b, hb, rfl⟩ := List.mem_map.1 hin
      obtain ⟨q, hq, hscalar⟩ := m.scalar b hb
      rw [node?_of_find? (m.bit b hb q hq), node?_of_find? hq, Port.node, Port.node, hscalar]
      rfl
    · rw [Catalog.node?, m.other p hin hp, Catalog.node?]

structure SameNodes (c c' : Catalog) : Prop where
  nodes : ∀ p, c'.node? p = c.node? p
  tops : ∀ x, c'.topPorts x = c.topPorts x

namespace SameNodes

theorem refl (c : Catalog) : c.SameNodes c := ⟨fun _ => rfl, fun _ => rfl⟩

theorem trans (h : c.SameNodes c') (h' : c'.SameNodes c'') : c.SameNodes c'' :=
  ⟨fun p => (h'.nodes p).trans (h.nodes p), fun x => (h'.tops x).trans (h.tops x)⟩

theorem forest (h : c.SameNodes c') (hc : c.Forest x) : c'.Forest x :=
  hc.congr (h.tops x) fun p n _ => by rw [h.nodes]

theorem planted (h : c.SameNodes c') (hc : c.Planted) : c'.Planted := fun x => h.forest (hc x)

theorem modifyPort (c : Catalog) (port : PortId) {f : Port → Port} (hf : ∀ q, (f q).node = q.node) :
    c.SameNodes { c with ports := c.ports.modify port f } :=
  ⟨fun p => OrderedMap.map_find?_modify hf c.ports port p, fun _ => rfl⟩

theorem setDirection (c : Catalog) (port : PortId) (direction : PortDirection) :
    c.SameNodes (c.setDirection port direction) := modifyPort c port fun _ => rfl

theorem setCellTiming (c : Catalog) (cell : CellId) (ref : TimingCellRef) :
    c.SameNodes (c.setCellTiming cell ref) := by
  refine ⟨fun _ => rfl, fun x => ?_⟩
  have hports : ((c.setCellTiming cell ref).cells.find? x).map (·.ports) =
      (c.cells.find? x).map (·.ports) :=
    OrderedMap.map_find?_modify (f := fun y : Cell => { y with timing := some ref })
      (fun _ => rfl) ..
  rw [topPorts_eq, hports, topPorts_eq]

theorem linkPort (c : Catalog) (library : TimingId) (timing : TimingCell) (id : PortId) :
    c.SameNodes (c.linkPort library timing id) := by
  unfold Catalog.linkPort
  split
  · exact refl c
  · split
    · exact modifyPort c id fun _ => rfl
    · exact refl c

theorem link (c : Catalog) (cell : CellId) (id : TimingId) (library : String)
    (timing : TimingCell) : c.SameNodes (c.link cell id library timing).1 :=
  List.foldlRecOn (motive := c.SameNodes) _ _ (setCellTiming c cell ⟨id, timing.name⟩)
    fun c' hc' p _ => hc'.trans (linkPort c' id timing p)

end SameNodes

section

variable {f : List PortId → List PortId}

theorem topPorts_modify_self
    (hcells : c'.cells = c.cells.modify cell fun y => { y with ports := f y.ports }) {y : Cell}
    (hy : c.cells.find? cell = some y) : c'.topPorts cell = f (c.topPorts cell) := by
  have hy' : c'.cells.find? cell = some { y with ports := f y.ports } := by
    rw [hcells, OrderedMap.find?_modify, if_pos rfl, hy, Option.map_some]
  rw [topPorts_eq, hy', topPorts_eq, hy]
  rfl

theorem topPorts_modify_of_ne
    (hcells : c'.cells = c.cells.modify cell fun y => { y with ports := f y.ports })
    (hx : x ≠ cell) : c'.topPorts x = c.topPorts x := by
  rw [topPorts_eq, hcells, OrderedMap.find?_modify, if_neg hx, topPorts_eq]

end

theorem find?_cells_addPort {y : Cell} (hy : c.cells.find? cell = some y) (name : String)
    (source : PortSource) (direction : PortDirection) :
    (c.addPort cell name source direction).2.cells.find? cell =
      some { y with ports := y.ports ++ [⟨c.count + 1⟩] } := by
  refine (OrderedMap.find?_modify ..).trans ?_
  rw [if_pos rfl, hy, Option.map_some]

theorem topPorts_addPort {y : Cell} (hy : c.cells.find? cell = some y) (name : String)
    (source : PortSource) (direction : PortDirection) :
    (c.addPort cell name source direction).2.topPorts cell =
      c.topPorts cell ++ [⟨c.count + 1⟩] :=
  topPorts_modify_self (f := fun ports => ports ++ [⟨c.count + 1⟩]) rfl hy

theorem find?_cells_addCell (c : Catalog) (library : LibraryId) (name : String)
    (source : CellSource) : (c.addCell library name source).2.cells.find? ⟨c.count + 1⟩ =
      some { name, library, source } :=
  (OrderedMap.find?_insert ..).trans (if_pos rfl)

theorem Forest.elsewhere (h : c.Forest x) (ht : c.Tidy) (hx : n.cell ≠ x)
    (htop : c'.topPorts x = c.topPorts x)
    (hnode : ∀ p, c'.node? p = if p = ⟨c.count + 1⟩ then some n else c.node? p) :
    c'.Forest x := by
  refine h.congr htop fun p n' hx' => ?_
  rw [hnode]
  split
  · next hp =>
    rw [hp, ht.node?_next]
    refine iff_of_false ?_ nofun
    rintro ⟨⟩
    exact hx hx'
  · rfl

theorem planted_empty : ({} : Catalog).Planted := forest_empty

namespace Planted

variable {name : String} {y : Cell}

theorem addLibrary (h : c.Planted) (name : String) (s : LibrarySource) :
    (c.addLibrary name s).2.Planted := by
  have hsame : c.SameNodes (c.addLibrary name s).2 := ⟨fun _ => rfl, fun _ => rfl⟩
  exact hsame.planted h

theorem addPort (h : c.Planted) (ht : c.Tidy) (hy : c.cells.find? cell = some y)
    {source : PortSource} (hs : source ≠ .group) (name : String) (direction : PortDirection) :
    (c.addPort cell name source direction).2.Planted := by
  have hnode (p : PortId) : (c.addPort cell name source direction).2.node? p =
      if p = ⟨c.count + 1⟩ then some ⟨cell, source, [], false⟩ else c.node? p :=
    OrderedMap.map_find?_insert ..
  intro x
  by_cases hx : x = cell
  · subst hx
    exact (h x).plant ht hs (topPorts_addPort hy name source direction) hnode
  · exact (h x).elsewhere ht (Ne.symm hx)
      (topPorts_modify_of_ne (f := fun ports => ports ++ [⟨c.count + 1⟩]) rfl hx) hnode

theorem addPorts (h : c.Planted) (ht : c.Tidy) (hy : c.cells.find? cell = some y)
    {ps : List PortSpec} (hs : ∀ s ∈ ps, s.source ≠ .group) : (c.addPorts cell ps).Planted := by
  induction ps generalizing c y with
  | nil => exact h
  | cons s ps ih =>
    have hone := h.addPort ht hy (hs s List.mem_cons_self) s.name s.direction
    exact ih hone (ht.tidy_addPort ..) (find?_cells_addPort hy ..) fun s' hs' =>
      hs s' (List.mem_cons_of_mem s hs')

theorem addCell (h : c.Planted) (hi : c.Intact) (library : LibraryId) (name : String)
    (source : CellSource) : (c.addCell library name source).2.Planted := by
  have hfind (x : CellId) : (c.addCell library name source).2.cells.find? x =
      if x = ⟨c.count + 1⟩ then some { name, library, source } else c.cells.find? x :=
    OrderedMap.find?_insert ..
  intro x
  by_cases hx : x = ⟨c.count + 1⟩
  · refine forest_of_none ?_ fun p n hn hcell => ?_
    · rw [topPorts_eq, hfind, if_pos hx]
      rfl
    · obtain ⟨q, hq, rfl⟩ := Option.map_eq_some_iff.1 hn
      have howns : c.Owns ⟨c.count + 1⟩ p := ⟨q.label, portLabel?_of_find? hq, hx ▸ hcell⟩
      exact hi.not_owns hi.tidy.cellLabel?_next howns
  · refine (h x).congr ?_ fun _ _ _ => Iff.rfl
    rw [topPorts_eq, hfind, if_neg hx, topPorts_eq]

theorem buildCell (h : c.Planted) (hi : c.Intact) (library : LibraryId) (name : String)
    (source : CellSource) {ps : List PortSpec} (hs : ∀ s ∈ ps, s.source ≠ .group) :
    (c.buildCell library name source ps).Planted :=
  (h.addCell hi library name source).addPorts (hi.tidy.tidy_addCell ..)
    (find?_cells_addCell c library name source) hs

theorem groups {members : List PortId} {isBus : Bool} (h : c.Planted) (ht : c.Tidy)
    (hmembers : ∀ p ∈ members, p ∈ c.topPorts cell) (hne : members ≠ [])
    (hbus : isBus = true → members.Nodup)
    (hcells : c'.cells = c.cells.modify cell fun y =>
      { y with ports := regroup y.ports members ⟨c.count + 1⟩ })
    (hnode : ∀ p, c'.node? p = if p = ⟨c.count + 1⟩ then some ⟨cell, .group, members, isBus⟩
      else c.node? p) : c'.Planted := by
  obtain ⟨m, hm⟩ := List.exists_mem_of_ne_nil members hne
  obtain ⟨y, hy, -⟩ := mem_topPorts.1 (hmembers m hm)
  intro x
  by_cases hx : x = cell
  · subst hx
    exact (h x).graft ht hne hmembers hbus
      (topPorts_modify_self (f := fun ports => regroup ports members ⟨c.count + 1⟩) hcells hy) hnode
  · exact (h x).elsewhere ht (Ne.symm hx)
      (topPorts_modify_of_ne (f := fun ports => regroup ports members ⟨c.count + 1⟩) hcells hx)
      hnode

theorem makesBus {bus : String} {bits : List (Nat × PortId)} (h : c.Planted) (ht : c.Tidy)
    (m : c.MakesBus cell bus bits c') : c'.Planted := by
  have hcells : c'.cells = c.cells.modify cell fun y =>
      { y with ports := regroup y.ports (bits.map (·.2)) ⟨c.count + 1⟩ } := by
    rw [m.frame]
  exact h.groups ht m.top m.nonempty (fun _ => m.nodup) hcells m.node?

theorem groupBuses (h : c.Planted) (ht : c.Tidy) (cell : CellId) (msbFirst : String → Bool) :
    (c.groupBuses cell msbFirst).1.Planted := by
  obtain ⟨-, -, hplanted⟩ := groupBuses_makes (motive := fun _ c _ => c.Planted) msbFirst ht
    (h cell).rootsOnce h (fun _ _ _ _ _ _ _ _ _ h₁ => h₁) fun _ c₁ c₂ _ _ _ _ ht₁ m h₁ =>
      h₁.makesBus ht₁ m
  exact hplanted

theorem bundle (h : c.Planted) (ht : c.Tidy) {members : List PortId} {r : Option PortId}
    (e : c.bundle cell name members = .ok (r, c')) : c'.Planted := by
  rcases bundle_eq_ok e with rfl | ⟨hne, -, ⟨y, hy, hall⟩, rfl⟩
  · exact h
  · have hnode (p : PortId) : (c.addGroup cell name (.bundle members)).2.node? p =
        if p = ⟨c.count + 1⟩ then some ⟨cell, .group, members, false⟩ else c.node? p :=
      OrderedMap.map_find?_insert ..
    exact h.groups ht (fun p hp => mem_topPorts.2 ⟨y, hy, hall p hp⟩) hne Bool.noConfusion rfl hnode

theorem removeLibrary (h : c.Planted) (ht : c.Tidy) (id : LibraryId) :
    (c.removeLibrary id).Planted := by
  have hnode (p : PortId) : (c.removeLibrary id).node? p =
      (c.node? p).filter fun n => !c.within id n.cell := by
    rw [node?, ht.ports_removeLibrary, node?]
    cases c.ports.find? p with
    | none => rfl
    | some q =>
      have hcell : q.node.cell = q.cell := rfl
      cases hin : c.within id q.cell <;> simp [Option.filter, hin, hcell]
  intro x
  cases hin : c.within id x with
  | true =>
    refine forest_of_none ?_ fun p n hn hx => ?_
    · rw [topPorts_eq, ht.cells_removeLibrary]
      cases hy : c.cells.find? x with
      | none => rfl
      | some y =>
        have hlibrary : y.library = id := by
          rw [within, cellLabel?_of_find? hy] at hin
          exact of_decide_eq_true hin
        simp [Option.filter, hlibrary]
    · rw [hnode, Option.filter_eq_some_iff, hx, hin] at hn
      cases hn.2
  | false =>
    refine (h x).congr ?_ fun p n hx => ?_
    · rw [topPorts_eq, ht.cells_removeLibrary, topPorts_eq]
      cases hy : c.cells.find? x with
      | none => rfl
      | some y =>
        have hlibrary : y.library ≠ id := by
          rw [within, cellLabel?_of_find? hy] at hin
          exact of_decide_eq_false hin
        simp [Option.filter, hlibrary]
    · rw [hnode, Option.filter_eq_some_iff, hx, hin]
      simp

end Planted

end DesignView.Catalog
