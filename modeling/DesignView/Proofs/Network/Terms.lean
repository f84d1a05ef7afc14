import DesignView.Proofs.Network.Connectivity

/-!
Terms and their pins. The index of boundary terminals that is built when the design is loaded goes
on to say what the design says, and so the way from a pin down to its term and the way from a term
up to its pin undo each other.
-/

namespace DesignView

def Design.LiveTerm (d : Design) : Term → Prop
  | .boundary t => t ∈ d.bterms.ids
  | .moduleBoundary t => t ∈ d.modBTerms.ids

namespace Network

variable {n : Network} {d : Design}

theorem Sound.termOf_module (h : n.Sound) (hd : n.design? = some d) {t : ModITermId}
    (ht : t ∈ d.modITerms.ids) : ∃ r, n.termOf (.module t) = .ok r ∧
      ∀ s, r = some s ↔ ∃ b, s = .moduleBoundary b ∧ d.Opposite t b := by
  obtain ⟨inner?, hinner, hopposite⟩ := h.innerOf_ok hd ht
  refine ⟨inner?.map .moduleBoundary, bind_eq_ok.2 ⟨inner?, hinner, rfl⟩, fun s => ?_⟩
  rw [Option.map_eq_some_iff]
  constructor
  · rintro ⟨b, hb, rfl⟩
    exact ⟨b, rfl, (hopposite b).1 hb⟩
  · rintro ⟨b, rfl, hb⟩
    exact ⟨b, (hopposite b).2 hb, rfl⟩

theorem Sound.pinOfTerm_moduleBoundary (h : n.Sound) (hd : n.design? = some d) {b : ModBTermId}
    (hb : b ∈ d.modBTerms.ids) : ∃ p, n.pinOfTerm (.moduleBoundary b) = .ok p ∧
      (∀ t, d.Opposite t b → p = .module t) ∧
      ((∃ t, p = .module t ∧ d.Opposite t b) ∨ p = .moduleBoundary b) := by
  obtain ⟨outer?, houter, hopposite⟩ := h.outerOf_ok hd hb
  cases outer? with
  | some t =>
    have ht : d.Opposite t b := (hopposite t).1 rfl
    refine ⟨.module t, bind_eq_ok.2 ⟨some t, houter, rfl⟩, fun t' ht' => ?_, .inl ⟨t, rfl, ht⟩⟩
    exact congrArg Pin.module (Option.some.inj ((hopposite t').2 ht'))
  | none =>
    refine ⟨.moduleBoundary b, bind_eq_ok.2 ⟨none, houter, rfl⟩, fun t ht => ?_, .inr rfl⟩
    cases (hopposite t).2 ht

/-- The boundary terminals known since the last load are those of the design. Every term is the term
of its pin, and every pin on the outside of a boundary that has a term is the pin of that term. -/
theorem Reachable.terms_dual (h : n.Reachable) (hd : n.design? = some d) :
    (∀ m ∈ d.modules.ids, ∀ name, d.modBTermOf m name = .ok (n.catalog.boundary? m name)) ∧
    (∀ t, d.LiveTerm t → ∃ p, n.pinOfTerm t = .ok p ∧ n.termOf p = .ok (some t)) ∧
    (∀ b ∈ d.bterms.ids, ∃ r, n.termOf (.boundary b) = .ok r ∧
      ∀ t ∈ r, n.pinOfTerm t = .ok (.boundary b)) ∧
    ∀ m ∈ d.modITerms.ids, ∃ r, n.termOf (.module m) = .ok r ∧
      ∀ t ∈ r, n.pinOfTerm t = .ok (.module m) := by
  have hs : n.Sound := h.current.sound
  refine ⟨fun m hm name => ?_, fun t ht => ?_, fun b _ => ?_, fun m hm => ?_⟩
  · obtain ⟨a, -, hfetch⟩ := fetch_of_mem hm
    have hindex : n.catalog.boundary? m name = d.modBTermNamed? m name := hs.boundaries hd m name
    exact bind_eq_ok.2 ⟨a, hfetch, by rw [hindex]; rfl⟩
  · cases t with
    | boundary b => exact ⟨.boundary b, rfl, rfl⟩
    | moduleBoundary b =>
      obtain ⟨p, hp, -, ⟨t, rfl, hfacing⟩ | rfl⟩ := hs.pinOfTerm_moduleBoundary hd ht
      · have hlive : t ∈ d.modITerms.ids := by
          obtain ⟨_, _, _, hfind, -⟩ := hfacing
          exact Table.mem_ids_of_find? hfind
        obtain ⟨r, hr, hterm⟩ := hs.termOf_module hd hlive
        have hb : r = some (.moduleBoundary b) := (hterm _).2 ⟨b, rfl, hfacing⟩
        exact ⟨.module t, hp, hb ▸ hr⟩
      · exact ⟨.moduleBoundary b, hp, rfl⟩
  · refine ⟨some (.boundary b), rfl, fun t ht => ?_⟩
    cases ht
    rfl
  · obtain ⟨r, hr, hterm⟩ := hs.termOf_module hd hm
    refine ⟨r, hr, fun t ht => ?_⟩
    obtain ⟨b, rfl, hfacing⟩ := (hterm t).1 ht
    have hlive : b ∈ d.modBTerms.ids := by
      obtain ⟨_, _, _, -, hfind, -⟩ := hfacing
      exact Table.mem_ids_of_find? hfind
    obtain ⟨p, hp, hpin, -⟩ := hs.pinOfTerm_moduleBoundary hd hlive
    exact hpin m hfacing ▸ hp

theorem terms_dual_crossing : ∃ n d t b m name, Reachable n ∧ n.design? = some d ∧
    d.Opposite t b ∧ d.modBTermOf m name = .ok (n.catalog.boundary? m name) ∧
    n.termOf (.module t) = .ok (some (.moduleBoundary b)) ∧
    n.pinOfTerm (.moduleBoundary b) = .ok (.module t) := by
  obtain ⟨n, d, h, hd, p, q, -, hfaces, -⟩ := exists_crossing
  obtain ⟨t, b, hopposite⟩ : ∃ t b, d.Opposite t b := by
    cases p <;> cases q
    case module.moduleBoundary t b => exact ⟨t, b, hfaces⟩
    case moduleBoundary.module b t => exact ⟨t, b, hfaces⟩
    all_goals cases hfaces
  obtain ⟨outer, inner, i, houter, hinner, -⟩ := id hopposite
  have hmodule : inner.module ∈ d.modules.ids :=
    (h.current.sound.db.design hd).modBTermModule hinner
  obtain ⟨hindex, hterms, -, hpins⟩ := h.terms_dual hd
  obtain ⟨p, hp, hterm⟩ := hterms (.moduleBoundary b) (Table.mem_ids_of_find? hinner)
  obtain ⟨p', hp', hfacing, -⟩ :=
    h.current.sound.pinOfTerm_moduleBoundary hd (Table.mem_ids_of_find? hinner)
  obtain rfl : p = .module t :=
    (Except.ok.inj (hp.symm.trans hp')).trans (hfacing t hopposite)
  obtain ⟨r, hr, hback⟩ := hpins t (Table.mem_ids_of_find? houter)
  obtain rfl : r = some (.moduleBoundary b) := Except.ok.inj (hr.symm.trans hterm)
  exact ⟨n, d, t, b, inner.module, inner.name, h, hd, hopposite, hindex _ hmodule _, hr,
    hback _ rfl⟩

end Network
end DesignView
