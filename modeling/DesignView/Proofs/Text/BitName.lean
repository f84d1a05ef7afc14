import DesignView.Text.BitName
import DesignView.Text.Pattern
import Mathlib

/-!
Bit names are parsed exactly. A name is that of a bit if it can be taken apart into a bus, a pair of
brackets and ASCII digits, and there is one way to do so at most. Taking a name apart from its end
gives what the greedy pattern for bit names captures, whichever further characters the pattern
takes for digits.
-/

namespace DesignView

namespace Pattern

variable {set : Char → Bool} {p q : Pattern} {cs : List Char} {w : Way}

theorem mem_runs : w ∈ runs set cs ↔ w.captures = [] ∧ w.matched ≠ [] ∧
    (∀ c ∈ w.matched, set c = true) ∧ cs = w.matched ++ w.rest := by
  obtain ⟨matched, captures, rest⟩ := w
  induction cs generalizing matched with
  | nil =>
    simp only [runs, List.not_mem_nil, false_iff]
    rintro ⟨-, hne, -, h⟩
    exact hne (List.append_eq_nil_iff.1 h.symm).1
  | cons c cs ih =>
    rw [runs]
    split
    · next hc =>
      simp only [List.mem_append, List.mem_map, List.mem_singleton, Way.mk.injEq]
      constructor
      · rintro (⟨⟨m, _, _⟩, hw, rfl, rfl, rfl⟩ | ⟨rfl, rfl, rfl⟩)
        · obtain ⟨hcaptures, -, hall, hcs⟩ := (ih m).1 hw
          exact ⟨hcaptures, List.cons_ne_nil _ _, List.forall_mem_cons.2 ⟨hc, hall⟩,
            congrArg (List.cons c) hcs⟩
        · exact ⟨rfl, List.cons_ne_nil _ _, List.forall_mem_singleton.2 hc, rfl⟩
      · rintro ⟨hcaptures, hne, hall, hcs⟩
        obtain ⟨c', m, rfl⟩ := List.exists_cons_of_ne_nil hne
        obtain rfl : c = c' := (List.cons.inj hcs).1
        by_cases hm : m = []
        · subst hm
          exact .inr ⟨rfl, hcaptures, (List.cons.inj hcs).2.symm⟩
        · have hrest := (ih m).2
            ⟨hcaptures, hm, (List.forall_mem_cons.1 hall).2, (List.cons.inj hcs).2⟩
          exact .inl ⟨_, hrest, rfl, rfl, rfl⟩
    · next hc =>
      simp only [List.not_mem_nil, false_iff]
      rintro ⟨-, hne, hall, hcs⟩
      obtain ⟨c', m, rfl⟩ := List.exists_cons_of_ne_nil hne
      obtain ⟨rfl, -⟩ := List.cons.inj hcs
      exact hc (hall c List.mem_cons_self)

theorem mem_ways_one : w ∈ (one set).ways cs ↔
    ∃ c, set c = true ∧ cs = c :: w.rest ∧ w = ⟨[c], [], w.rest⟩ := by
  cases cs with
  | nil => simp [ways]
  | cons c cs =>
    rw [ways]
    split
    · next hc =>
      rw [List.mem_singleton]
      constructor
      · rintro rfl
        exact ⟨c, hc, rfl, rfl⟩
      · rintro ⟨c', -, hcs, hw⟩
        obtain ⟨rfl, rfl⟩ := List.cons.inj hcs
        exact hw
    · next hc =>
      simp only [List.not_mem_nil, false_iff]
      rintro ⟨c', hc', hcs, -⟩
      obtain ⟨rfl, -⟩ := List.cons.inj hcs
      exact hc hc'

theorem mem_ways_seq : w ∈ (seq p q).ways cs ↔ ∃ u ∈ p.ways cs, ∃ v ∈ q.ways u.rest,
    w = ⟨u.matched ++ v.matched, u.captures ++ v.captures, v.rest⟩ := by
  simp only [ways, List.mem_flatMap, List.mem_map, eq_comm]

theorem mem_ways_group : w ∈ (group p).ways cs ↔
    ∃ u ∈ p.ways cs, w = { u with captures := u.matched :: u.captures } := by
  simp only [ways, List.mem_map, eq_comm]

theorem captures_eq_some_iff {captured : List (List Char)}
    (hunique : ∀ u ∈ p.ways cs, ∀ v ∈ p.ways cs, u.rest = [] → v.rest = [] →
      u.captures = v.captures) :
    p.captures cs = some captured ↔ ∃ u ∈ p.ways cs, u.rest = [] ∧ u.captures = captured := by
  rw [captures, Option.map_eq_some_iff]
  constructor
  · rintro ⟨u, hu, rfl⟩
    exact ⟨u, List.mem_of_find?_eq_some hu, by simpa using List.find?_some hu, rfl⟩
  · rintro ⟨u, hu, hrest, rfl⟩
    obtain ⟨v, hv⟩ : ∃ v, (p.ways cs).find? (fun w => w.rest = []) = some v := by
      rw [← Option.isSome_iff_exists, List.find?_isSome]
      exact ⟨u, hu, decide_eq_true hrest⟩
    have hvrest : v.rest = [] := by simpa using List.find?_some hv
    exact ⟨v, hv, hunique v (List.mem_of_find?_eq_some hv) u hu hvrest hrest⟩

end Pattern

namespace BitName

variable {set : Char → Bool} {cs bus ds bus' ds' : List Char} {b b' : Bracket} {i : Nat}

/-- The characters are those of a bus, and of digits of a set in brackets. -/
structure Splits (set : Char → Bool) (cs bus : List Char) (b : Bracket) (ds : List Char) : Prop where
  text : cs = bus ++ b.opening :: (ds ++ [b.closing])
  bus : bus ≠ [] ∧ '\n' ∉ bus
  digits : ds ≠ [] ∧ ∀ c ∈ ds, set c = true

theorem closing_injective (h : b.closing = b'.closing) : b = b' := by
  cases b <;> cases b' <;> first | rfl | exact absurd h (by decide)

theorem append_cons_inj {xs ys : List Char} {x y : Char} (hx : set x = false) (hy : set y = false)
    (hds : ∀ c ∈ ds, set c = true) (hds' : ∀ c ∈ ds', set c = true)
    (h : xs ++ x :: ds = ys ++ y :: ds') : xs = ys ∧ ds = ds' := by
  have hreverse (zs : List Char) {es : List Char} {z : Char} (hz : set z = false)
      (hes : ∀ c ∈ es, set c = true) :
      (zs ++ z :: es).reverse.takeWhile set = es.reverse ∧
        (zs ++ z :: es).reverse.dropWhile set = z :: zs.reverse := by
    have hall : ∀ c ∈ es.reverse, set c = true := fun c hc => hes c (List.mem_reverse.1 hc)
    have hz : ¬set z = true := by simp [hz]
    rw [List.reverse_append, List.reverse_cons, List.append_assoc, List.singleton_append,
      List.takeWhile_append_of_pos hall, List.dropWhile_append_of_pos hall,
      List.takeWhile_cons_of_neg hz, List.dropWhile_cons_of_neg hz, List.append_nil]
    exact ⟨rfl, rfl⟩
  obtain ⟨htake, hdrop⟩ := hreverse xs hx hds
  obtain ⟨htake', hdrop'⟩ := hreverse ys hy hds'
  rw [h] at htake hdrop
  have hrest := List.cons.inj (hdrop.symm.trans hdrop')
  exact ⟨List.reverse_inj.1 hrest.2, List.reverse_inj.1 (htake.symm.trans htake')⟩

theorem Splits.unique (hset : ∀ b : Bracket, set b.opening = false) (h : Splits set cs bus b ds)
    (h' : Splits set cs bus' b' ds') : bus = bus' ∧ b = b' ∧ ds = ds' := by
  have hassoc (bus ds : List Char) (b : Bracket) :
      bus ++ b.opening :: (ds ++ [b.closing]) = (bus ++ b.opening :: ds) ++ [b.closing] := by
    simp
  have htext := h.text.symm.trans h'.text
  rw [hassoc, hassoc] at htext
  obtain ⟨hfront, hclosing⟩ := List.append_inj' htext rfl
  obtain rfl := closing_injective (List.cons.inj hclosing).1
  obtain ⟨hbus, hds⟩ := append_cons_inj (hset b) (hset b) h.digits.2 h'.digits.2 hfront
  exact ⟨hbus, rfl, hds⟩

theorem opening_not_isDigit (b : Bracket) : b.opening.isDigit = false := by
  cases b <;> rfl

theorem ofClosing?_eq_some {c : Char} : Bracket.ofClosing? c = some b ↔ c = b.closing := by
  unfold Bracket.ofClosing?
  cases b <;> grind [Bracket.closing]

theorem splitChars_eq_some_iff : splitChars cs = some (bus, i) ↔
    ∃ b ds, Splits Char.isDigit cs bus b ds ∧ decimal ds = i ∧ i ≤ maxIndex := by
  constructor
  · intro h
    unfold splitChars at h
    split at h
    · next close rest hreverse =>
      obtain ⟨b, hb, h⟩ := Option.bind_eq_some_iff.1 h
      dsimp only at h
      split at h
      · next opening before hdrop =>
        obtain ⟨⟨hopening, hne, hbus, hline, hle⟩, hparts⟩ := Option.ite_none_right_eq_some.1 h
        cases hparts
        subst hopening
        have hrest : rest.takeWhile Char.isDigit ++ b.opening :: before = rest :=
          hdrop ▸ List.takeWhile_append_dropWhile
        have hcs : cs = (close :: rest).reverse := by rw [← hreverse, List.reverse_reverse]
        refine ⟨b, _, ⟨?_, ⟨?_, ?_⟩, hne, fun c hc => ?_⟩, rfl, hle⟩
        · rw [hcs, ofClosing?_eq_some.1 hb, List.reverse_cons]
          conv => lhs; rw [← hrest]
          simp
        · simpa using hbus
        · simpa using hline
        · exact List.mem_takeWhile_imp (List.mem_reverse.1 hc)
      · cases h
    · cases h
  · rintro ⟨b, ds, ⟨rfl, ⟨hbus, hline⟩, hne, hds⟩, rfl, hle⟩
    have hall : ∀ c ∈ ds.reverse, c.isDigit = true := fun c hc => hds c (List.mem_reverse.1 hc)
    have hopening : ¬b.opening.isDigit = true := by simp [opening_not_isDigit]
    have hreverse : (bus ++ b.opening :: (ds ++ [b.closing])).reverse =
        b.closing :: (ds.reverse ++ b.opening :: bus.reverse) := by simp
    have htake : (ds.reverse ++ b.opening :: bus.reverse).takeWhile Char.isDigit = ds.reverse := by
      rw [List.takeWhile_append_of_pos hall, List.takeWhile_cons_of_neg hopening, List.append_nil]
    have hdrop : (ds.reverse ++ b.opening :: bus.reverse).dropWhile Char.isDigit =
        b.opening :: bus.reverse := by
      rw [List.dropWhile_append_of_pos hall, List.dropWhile_cons_of_neg hopening]
    simp [splitChars, hreverse, htake, hdrop, ofClosing?_eq_some.2 rfl, hbus, hline, hne, hle]

theorem decimal_eq (ds : List Char) : decimal ds = Nat.ofDigitChars 10 ds 0 := rfl

theorem decimal_toString (i : Nat) : decimal (toString i).toList = i := by
  rw [decimal_eq, Nat.toString_eq_repr, Nat.repr_eq_ofList_toDigits, String.toList_ofList,
    Nat.ofDigitChars_toDigits (by decide) (by decide)]

theorem toString_digits (i : Nat) :
    (toString i).toList ≠ [] ∧ ∀ c ∈ (toString i).toList, c.isDigit = true := by
  rw [Nat.toString_eq_repr, Nat.repr_eq_ofList_toDigits, String.toList_ofList]
  exact ⟨Nat.toDigits_ne_nil, fun c hc => Nat.isDigit_of_mem_toDigits (by decide) (by decide) hc⟩

/-- Characters that may be taken for digits: the ASCII digits are among them, and no bracket is. -/
structure DigitSet where
  mem : Char → Bool
  ascii : ∀ c, c.isDigit = true → mem c = true
  brackets : ∀ b : Bracket, mem b.opening = false ∧ mem b.closing = false

instance : Inhabited DigitSet :=
  ⟨Char.isDigit, fun _ h => h, fun b => by cases b <;> exact ⟨rfl, rfl⟩⟩

def indexPattern (digits : DigitSet) (b : Bracket) : Pattern :=
  .seq (.one (· = b.opening)) (.seq (.group (.run digits.mem)) (.one (· = b.closing)))

def pattern (digits : DigitSet) : Pattern :=
  .seq (.group (.run (· ≠ '\n')))
    (.either (indexPattern digits .square) (indexPattern digits .angle))

def index? (ds : List Char) : Option Nat :=
  if ds.all Char.isDigit ∧ decimal ds ≤ maxIndex then some (decimal ds) else none

def ofCaptures? : List (List Char) → Option (String × Nat)
  | [bus, ds] => (index? ds).map fun i => (String.ofList bus, i)
  | _ => none

theorem mem_ways_indexPattern {digits : DigitSet} {w : Pattern.Way} :
    w ∈ (indexPattern digits b).ways cs ↔ ∃ ds, cs = b.opening :: (ds ++ b.closing :: w.rest) ∧
      ds ≠ [] ∧ (∀ c ∈ ds, digits.mem c = true) ∧
      w = ⟨b.opening :: (ds ++ [b.closing]), [ds], w.rest⟩ := by
  constructor
  · intro h
    obtain ⟨u, hu, v, hv, rfl⟩ := Pattern.mem_ways_seq.1 h
    obtain ⟨c, hc, hcs, hu⟩ := Pattern.mem_ways_one.1 hu
    obtain ⟨r, hr, e, he, rfl⟩ := Pattern.mem_ways_seq.1 hv
    obtain ⟨t, ht, rfl⟩ := Pattern.mem_ways_group.1 hr
    obtain ⟨hcaptures, hne, hall, hrest⟩ := Pattern.mem_runs.1 ht
    obtain ⟨c', hc', hend, he⟩ := Pattern.mem_ways_one.1 he
    obtain rfl : c = b.opening := of_decide_eq_true hc
    obtain rfl : c' = b.closing := of_decide_eq_true hc'
    refine ⟨t.matched, ?_, hne, hall, ?_⟩
    · rw [hcs, hrest]
      exact congrArg (fun rest => b.opening :: (t.matched ++ rest)) hend
    · rw [hu, he, hcaptures]
      rfl
  · rintro ⟨ds, rfl, hne, hall, hw⟩
    rw [hw]
    refine Pattern.mem_ways_seq.2 ⟨⟨[b.opening], [], ds ++ b.closing :: w.rest⟩, ?_,
      ⟨ds ++ [b.closing], [ds], w.rest⟩, ?_, rfl⟩
    · exact Pattern.mem_ways_one.2 ⟨b.opening, decide_eq_true rfl, rfl, rfl⟩
    · refine Pattern.mem_ways_seq.2 ⟨⟨ds, [ds], b.closing :: w.rest⟩, ?_,
        ⟨[b.closing], [], w.rest⟩, ?_, rfl⟩
      · exact Pattern.mem_ways_group.2 ⟨⟨ds, [], b.closing :: w.rest⟩,
          Pattern.mem_runs.2 ⟨rfl, hne, hall, rfl⟩, rfl⟩
      · exact Pattern.mem_ways_one.2 ⟨b.closing, decide_eq_true rfl, rfl, rfl⟩

theorem mem_ways_indexPatterns {digits : DigitSet} {w : Pattern.Way} :
    w ∈ (Pattern.either (indexPattern digits .square) (indexPattern digits .angle)).ways cs ↔
      ∃ b, w ∈ (indexPattern digits b).ways cs := by
  rw [Pattern.ways, List.mem_append]
  constructor
  · rintro (h | h)
    · exact ⟨.square, h⟩
    · exact ⟨.angle, h⟩
  · rintro ⟨b, h⟩
    cases b
    · exact .inl h
    · exact .inr h

theorem mem_ways_pattern {digits : DigitSet} {w : Pattern.Way} :
    w ∈ (pattern digits).ways cs ∧ w.rest = [] ↔
      ∃ bus b ds, Splits digits.mem cs bus b ds ∧ w = ⟨cs, [bus, ds], []⟩ := by
  constructor
  · rintro ⟨h, hend⟩
    obtain ⟨u, hu, v, hv, rfl⟩ := Pattern.mem_ways_seq.1 h
    obtain ⟨t, ht, rfl⟩ := Pattern.mem_ways_group.1 hu
    obtain ⟨hcaptures, hbus, hline, hcs⟩ := Pattern.mem_runs.1 ht
    obtain ⟨b, hv⟩ := mem_ways_indexPatterns.1 hv
    obtain ⟨ds, hrest, hds, hall, hv⟩ := mem_ways_indexPattern.1 hv
    have hend : v.rest = [] := hend
    rw [hend] at hrest hv
    have hcs : cs = t.matched ++ b.opening :: (ds ++ [b.closing]) :=
      hcs.trans (congrArg (t.matched ++ ·) hrest)
    have hline : '\n' ∉ t.matched := fun hin => of_decide_eq_true (hline _ hin) rfl
    refine ⟨t.matched, b, ds, ⟨hcs, ⟨hbus, hline⟩, hds, hall⟩, ?_⟩
    rw [hv, hcaptures, hcs]
    rfl
  · rintro ⟨bus, b, ds, ⟨rfl, ⟨hbus, hline⟩, hds, hall⟩, rfl⟩
    refine ⟨Pattern.mem_ways_seq.2 ⟨⟨bus, [bus], b.opening :: (ds ++ [b.closing])⟩, ?_,
      ⟨b.opening :: (ds ++ [b.closing]), [ds], []⟩, ?_, rfl⟩, rfl⟩
    · refine Pattern.mem_ways_group.2 ⟨⟨bus, [], b.opening :: (ds ++ [b.closing])⟩, ?_, rfl⟩
      refine Pattern.mem_runs.2 ⟨rfl, hbus, fun c hc => decide_eq_true ?_, rfl⟩
      rintro rfl
      exact hline hc
    · exact mem_ways_indexPatterns.2 ⟨b, mem_ways_indexPattern.2 ⟨ds, rfl, hds, hall, rfl⟩⟩

theorem captures_pattern_eq_some_iff {digits : DigitSet} {captured : List (List Char)} :
    (pattern digits).captures cs = some captured ↔
      ∃ bus b ds, Splits digits.mem cs bus b ds ∧ captured = [bus, ds] := by
  rw [Pattern.captures_eq_some_iff]
  · constructor
    · rintro ⟨w, hw, hend, rfl⟩
      obtain ⟨bus, b, ds, h, rfl⟩ := mem_ways_pattern.1 ⟨hw, hend⟩
      exact ⟨bus, b, ds, h, rfl⟩
    · rintro ⟨bus, b, ds, h, rfl⟩
      obtain ⟨hw, hend⟩ := mem_ways_pattern.2 ⟨bus, b, ds, h, rfl⟩
      exact ⟨_, hw, hend, rfl⟩
  · intro u hu v hv hu' hv'
    obtain ⟨bus, b, ds, h, rfl⟩ := mem_ways_pattern.1 ⟨hu, hu'⟩
    obtain ⟨bus', b', ds', h', rfl⟩ := mem_ways_pattern.1 ⟨hv, hv'⟩
    obtain ⟨rfl, -, rfl⟩ := h.unique (fun b => (digits.brackets b).1) h'
    rfl

/-- Reading what the pattern captures is the same as taking a name apart from its end. -/
theorem parse?_eq_captures (digits : DigitSet) (name : String) :
    parse? name = ((pattern digits).captures name.toList).bind ofCaptures? := by
  refine Option.ext fun ⟨bus, i⟩ => ?_
  rw [parse?, Option.map_eq_some_iff, Option.bind_eq_some_iff]
  simp only [Prod.exists, splitChars_eq_some_iff, captures_pattern_eq_some_iff]
  constructor
  · rintro ⟨chars, j, ⟨b, ds, h, rfl, hle⟩, hbus⟩
    obtain ⟨rfl, rfl⟩ := Prod.mk.inj hbus
    have hindex : index? ds = some (decimal ds) := if_pos ⟨List.all_eq_true.2 h.digits.2, hle⟩
    refine ⟨[chars, ds], ⟨chars, b, ds, ⟨h.text, h.bus, h.digits.1, fun c hc => ?_⟩, rfl⟩, ?_⟩
    · exact digits.ascii c (h.digits.2 c hc)
    · rw [ofCaptures?, hindex, Option.map_some]
  · rintro ⟨-, ⟨chars, b, ds, h, rfl⟩, hread⟩
    obtain ⟨j, hj, hread⟩ := Option.map_eq_some_iff.1 hread
    obtain ⟨rfl, rfl⟩ := Prod.mk.inj hread
    obtain ⟨⟨hascii, hle⟩, hj⟩ := Option.ite_none_right_eq_some.1 hj
    cases hj
    exact ⟨chars, _, ⟨b, ds, ⟨h.text, h.bus, h.digits.1, List.all_eq_true.1 hascii⟩, rfl, hle⟩, rfl⟩

structure Parts where
  bus : String
  bracket : Bracket
  digits : String
  bus_ne_empty : bus ≠ ""
  bus_one_line : '\n' ∉ bus.toList
  digits_ne_empty : digits ≠ ""
  digits_ascii : ∀ c ∈ digits.toList, c.isDigit = true

namespace Parts

def name (p : Parts) : String :=
  p.bus ++ String.singleton p.bracket.opening ++ p.digits ++ String.singleton p.bracket.closing

def index (p : Parts) : Nat := Nat.ofDigitChars 10 p.digits.toList 0

theorem splits (p : Parts) :
    Splits Char.isDigit p.name.toList p.bus.toList p.bracket p.digits.toList where
  text := by simp [name]
  bus := ⟨by simpa using p.bus_ne_empty, p.bus_one_line⟩
  digits := ⟨by simpa using p.digits_ne_empty, p.digits_ascii⟩

theorem name_injective {p q : Parts} (h : p.name = q.name) : p = q := by
  obtain ⟨hbus, hbracket, hdigits⟩ :=
    p.splits.unique opening_not_isDigit (h ▸ q.splits : Splits _ p.name.toList _ _ _)
  obtain ⟨_, _, _, _⟩ := p
  obtain ⟨_, _, _, _⟩ := q
  obtain rfl := String.toList_inj.1 hbus
  obtain rfl := String.toList_inj.1 hdigits
  obtain rfl : _ = _ := hbracket
  rfl

end Parts

theorem parse?_eq_some_iff {name bus : String} :
    parse? name = some (bus, i) ↔
      ∃ p : Parts, p.name = name ∧ p.bus = bus ∧ p.index = i ∧ i ≤ maxIndex := by
  rw [parse?, Option.map_eq_some_iff]
  simp only [Prod.exists, splitChars_eq_some_iff]
  constructor
  · rintro ⟨chars, j, ⟨b, ds, h, rfl, hle⟩, hread⟩
    obtain ⟨rfl, rfl⟩ := Prod.mk.inj hread
    refine ⟨⟨String.ofList chars, b, String.ofList ds, ?_, ?_, ?_, ?_⟩, ?_, rfl, ?_, hle⟩
    · exact fun hempty => h.bus.1 (by simpa using congrArg String.toList hempty)
    · simpa using h.bus.2
    · exact fun hempty => h.digits.1 (by simpa using congrArg String.toList hempty)
    · simpa using h.digits.2
    · exact String.toList_inj.1 (by simp [Parts.name, h.text])
    · simp [Parts.index, decimal_eq]
  · rintro ⟨p, rfl, rfl, rfl, hle⟩
    exact ⟨_, _, ⟨p.bracket, _, p.splits, rfl, hle⟩, by rw [String.ofList_toList]; rfl⟩

def Parts.ofBit (bracket : Bracket) (bus : String) (i : Nat) (hbus : bus ≠ "")
    (hline : '\n' ∉ bus.toList) : Parts where
  bus := bus
  bracket := bracket
  digits := toString i
  bus_ne_empty := hbus
  bus_one_line := hline
  digits_ne_empty hempty := (toString_digits i).1 (congrArg String.toList hempty)
  digits_ascii := (toString_digits i).2

theorem parse?_write (bracket : Bracket) {bus : String} (hbus : bus ≠ "")
    (hline : '\n' ∉ bus.toList) (hi : i ≤ maxIndex) :
    parse? (write bracket bus i) = some (bus, i) :=
  parse?_eq_some_iff.2 ⟨Parts.ofBit bracket bus i hbus hline, rfl, rfl, decimal_toString i, hi⟩

/-- Bit names are read exactly: a name is read as the bit that its only parts spell, whatever
further digits the pattern takes, and what is written for a bit is read as that bit. -/
theorem parse?_exact :
    (∀ name bus i, parse? name = some (bus, i) ↔
      ∃ p : Parts, p.name = name ∧ p.bus = bus ∧ p.index = i ∧ i ≤ 2 ^ 63 - 1) ∧
    (∀ p q : Parts, p.name = q.name → p = q) ∧
    (∀ (bracket : Bracket) (bus : String) (i : Nat), bus ≠ "" → '\n' ∉ bus.toList →
      i ≤ 2 ^ 63 - 1 → parse? (write bracket bus i) = some (bus, i)) ∧
    ∀ (digits : DigitSet) (name : String),
      parse? name = ((pattern digits).captures name.toList).bind ofCaptures? :=
  ⟨fun _ _ _ => parse?_eq_some_iff, fun _ _ h => Parts.name_injective h,
    fun bracket _ _ hbus hline hi => parse?_write bracket hbus hline hi, parse?_eq_captures⟩

theorem parse?_exact_nested : parse? "x[1]<2>" = some ("x[1]", 2) :=
  parse?_exact.2.2.1 .angle "x[1]" 2 (by decide) (by decide) (by decide)

example : parse? "data<007>" = some ("data", 7) ∧ parse? "d[]" = none ∧ parse? "[3]" = none := by
  decide +kernel

end BitName
end DesignView
