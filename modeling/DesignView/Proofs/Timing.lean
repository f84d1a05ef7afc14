import DesignView.Proofs.Container.OrderedMap
import DesignView.Timing

/-!
Timing libraries that are made by their own operations. A library keeps each cell under the name of
the cell, and a cell has one port for each name.
-/

namespace DesignView

inductive TimingCell.Made : TimingCell → Prop
  | new (name : String) : Made { name }
  | addPort {c c' : TimingCell} {name : String} {direction : PortDirection} (h : c.Made)
      (e : c.addPort name direction = .ok c') : Made c'
  | addSupplyPin {c c' : TimingCell} {name : String} {kind : SupplyKind} (h : c.Made)
      (e : c.addSupplyPin name kind = .ok c') : Made c'

theorem TimingCell.Made.ports_nodup {c : TimingCell} (h : c.Made) : c.ports.keys.Nodup := by
  induction h with
  | new => exact List.nodup_nil
  | addPort _ e ih =>
    unfold TimingCell.addPort at e
    split at e
    · cases e
    · cases e
      exact OrderedMap.keys_nodup_insert ih ..
  | addSupplyPin _ e ih =>
    unfold TimingCell.addSupplyPin at e
    split at e
    · cases e
    · cases e
      exact ih

inductive TimingLibrary.Made : TimingLibrary → Prop
  | new (name : String) : Made { name }
  | addCell {l l' : TimingLibrary} {cell : TimingCell} (h : l.Made) (hcell : cell.Made)
      (e : l.addCell cell = .ok l') : Made l'

theorem TimingLibrary.Made.cell {l : TimingLibrary} {name : String} {t : TimingCell} (h : l.Made)
    (ht : l.cell? name = some t) : t.name = name ∧ t.Made := by
  induction h with
  | new => cases ht
  | addCell _ hcell e ih =>
    unfold TimingLibrary.addCell at e
    split at e
    · cases e
    · cases e
      rw [TimingLibrary.cell?, OrderedMap.find?_insert] at ht
      split at ht
      · next hname =>
        cases ht
        exact ⟨hname.symm, hcell⟩
      · exact ih ht

end DesignView
