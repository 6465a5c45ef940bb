import Mathlib.Data.Nat.Basic

namespace RaceControl.Scan

variable {σ β : Type}

/-- A loop around a ring. It moves on, probes where it is, and ends when the probe
answers or when it is back at its start. -/
def scan (advance : σ → σ) (probe : σ → Option β × σ) (back : σ → Bool) (giveUp : σ → β × σ) : Nat → σ → β × σ
  | 0, s => giveUp s
  | passes + 1, s =>
      match probe (advance s) with
      | (some answer, s) => (answer, s)
      | (none, s) => if back s then giveUp s else scan advance probe back giveUp passes s

/-- States stand at the places of a ring of n places, and a probe answers by the
place alone. -/
structure Ring (n : Nat) (Stands : Nat → σ → Prop) (advance : σ → σ) (probe : σ → Option β × σ)
    (answer : Nat → Option (β × σ)) : Prop where
  moves : ∀ j s, j < n → Stands j s → Stands ((j + 1) % n) (advance s)
  answers : ∀ j s r, Stands j s → answer j = some r → probe s = (some r.1, r.2)
  passes : ∀ j s, j < n → Stands j s → answer j = none → ∃ s', probe s = (none, s') ∧ Stands j s'

variable {n start : Nat} {Stands : Nat → σ → Prop} {advance : σ → σ} {probe : σ → Option β × σ}
  {answer : Nat → Option (β × σ)} {back : σ → Bool}

theorem Ring.probe_cases (hring : Ring n Stands advance probe answer) {j : Nat} {s : σ} (hj : j < n)
    (hs : Stands j s) :
    (∃ r, answer j = some r ∧ probe s = (some r.1, r.2)) ∨
      (answer j = none ∧ ∃ s', probe s = (none, s') ∧ Stands j s') := by
  cases ha : answer j with
  | some r => exact .inl ⟨r, rfl, hring.answers j s r hs ha⟩
  | none => exact .inr ⟨rfl, hring.passes j s hj hs ha⟩

/-- From a place before the start, at a distance, the loop ends with the answer of
a place on its way, or gives up at the start when no place on its way answers. -/
theorem scan_way (hring : Ring n Stands advance probe answer) (hn : 0 < n)
    (hback : ∀ j s, j < n → Stands j s → (back s = true ↔ j = start)) (giveUp : σ → β × σ)
    (distance : Nat) (j : Nat) (hend : (j + distance) % n = start)
    (hway : ∀ i, i < distance → (j + i) % n ≠ start) (more : Nat) (s : σ) (hs : Stands (j % n) (advance s)) :
    (∃ i r, i ≤ distance ∧ answer ((j + i) % n) = some r ∧
        scan advance probe back giveUp (distance + 1 + more) s = r) ∨
      ((∀ i, i ≤ distance → answer ((j + i) % n) = none) ∧
        ∃ s', Stands start s' ∧ scan advance probe back giveUp (distance + 1 + more) s = giveUp s') := by
  have hj := Nat.mod_lt j hn
  induction distance generalizing j s with
  | zero =>
      rw [show 0 + 1 + more = more + 1 by omega, scan]
      rcases hring.probe_cases hj hs with ⟨r, ha, hprobe⟩ | ⟨ha, s', hprobe, hs'⟩
      · rw [hprobe]
        exact .inl ⟨0, r, Nat.le_refl 0, ha, rfl⟩
      · rw [hprobe]
        have hstart : j % n = start := hend
        have hb : back s' = true := (hback _ _ hj hs').mpr hstart
        refine .inr ⟨fun i hi => ?_, s', hstart ▸ hs', if_pos hb⟩
        rw [Nat.le_zero.mp hi]
        exact ha
  | succ distance ih =>
      rw [show distance + 1 + 1 + more = distance + 1 + more + 1 by omega, scan]
      rcases hring.probe_cases hj hs with ⟨r, ha, hprobe⟩ | ⟨ha, s', hprobe, hs'⟩
      · rw [hprobe]
        exact .inl ⟨0, r, Nat.zero_le _, ha, rfl⟩
      · rw [hprobe]
        have hb : ¬ back s' = true := fun h => hway 0 (Nat.succ_pos _) ((hback _ _ hj hs').mp h)
        have hmove := hring.moves _ _ hj hs'
        rw [Nat.mod_add_mod] at hmove
        have hend' : (j + 1 + distance) % n = start := by rw [← hend, Nat.add_assoc, Nat.add_comm 1]
        have hway' : ∀ i, i < distance → (j + 1 + i) % n ≠ start := by
          intro i hi
          rw [Nat.add_assoc, Nat.add_comm 1]
          exact hway (i + 1) (Nat.succ_lt_succ hi)
        simp only [if_neg hb]
        rcases ih (j + 1) hend' hway' s' hmove (Nat.mod_lt _ hn) with ⟨i, r, hi, hr, he⟩ | ⟨hclear, hgive⟩
        · refine .inl ⟨i + 1, r, Nat.succ_le_succ hi, ?_, he⟩
          rw [← hr, Nat.add_assoc, Nat.add_comm 1]
        · refine .inr ⟨fun i hi => ?_, hgive⟩
          cases i with
          | zero => exact ha
          | succ i =>
              rw [Nat.add_comm i, ← Nat.add_assoc]
              exact hclear i (Nat.le_of_succ_le_succ hi)

/-- From the start, the loop sees every place of the ring. -/
theorem scan_around (hring : Ring n Stands advance probe answer) (hstart : start < n)
    (hback : ∀ j s, j < n → Stands j s → (back s = true ↔ j = start)) (giveUp : σ → β × σ) (s : σ)
    (hs : Stands start s) :
    (∃ j r, j < n ∧ answer j = some r ∧ scan advance probe back giveUp (n + 1) s = r) ∨
      ((∀ j, j < n → answer j = none) ∧
        ∃ s', Stands start s' ∧ scan advance probe back giveUp (n + 1) s = giveUp s') := by
  have hn : 0 < n := Nat.zero_lt_of_lt hstart
  have hend : (start + 1 + (n - 1)) % n = start := by
    rw [show start + 1 + (n - 1) = start + n by omega, Nat.add_mod_right, Nat.mod_eq_of_lt hstart]
  have hway : ∀ i, i < n - 1 → (start + 1 + i) % n ≠ start := by
    intro i hi
    rcases Nat.lt_or_ge (start + 1 + i) n with h | h
    · rw [Nat.mod_eq_of_lt h]
      omega
    · rw [Nat.mod_eq_sub_mod h, Nat.mod_eq_of_lt (by omega)]
      omega
  have hpasses : n - 1 + 1 + 1 = n + 1 := by omega
  have hscan := scan_way hring hn hback giveUp (n - 1) (start + 1) hend hway 1 s (hring.moves _ _ hstart hs)
  rw [hpasses] at hscan
  rcases hscan with ⟨i, r, -, hr, he⟩ | ⟨hclear, hgive⟩
  · exact .inl ⟨_, r, Nat.mod_lt _ hn, hr, he⟩
  · refine .inr ⟨fun j hj => ?_, hgive⟩
    rcases Nat.lt_or_ge start j with h | h
    · have hj' := hclear (j - start - 1) (by omega)
      rwa [show start + 1 + (j - start - 1) = j by omega, Nat.mod_eq_of_lt hj] at hj'
    · have hj' := hclear (j + n - start - 1) (by omega)
      rwa [show start + 1 + (j + n - start - 1) = j + n by omega, Nat.add_mod_right, Nat.mod_eq_of_lt hj] at hj'

/-- From before the first place, the loop sees the places up to its start. -/
theorem scan_from_first (hring : Ring n Stands advance probe answer) (hstart : start < n)
    (hback : ∀ j s, j < n → Stands j s → (back s = true ↔ j = start)) (giveUp : σ → β × σ) (s : σ)
    (hs : Stands 0 (advance s)) :
    (∃ j r, j ≤ start ∧ answer j = some r ∧ scan advance probe back giveUp (n + 1) s = r) ∨
      ((∀ j, j ≤ start → answer j = none) ∧
        ∃ s', Stands start s' ∧ scan advance probe back giveUp (n + 1) s = giveUp s') := by
  have hn : 0 < n := Nat.zero_lt_of_lt hstart
  have hend : (0 + start) % n = start := by rw [Nat.zero_add, Nat.mod_eq_of_lt hstart]
  have hway : ∀ i, i < start → (0 + i) % n ≠ start := by
    intro i hi
    rw [Nat.zero_add, Nat.mod_eq_of_lt (Nat.lt_trans hi hstart)]
    exact Nat.ne_of_lt hi
  have hpasses : start + 1 + (n - start) = n + 1 := by omega
  have hscan := scan_way hring hn hback giveUp start 0 hend hway (n - start) s (by rwa [Nat.zero_mod])
  rw [hpasses] at hscan
  rcases hscan with ⟨i, r, hi, hr, he⟩ | ⟨hclear, hgive⟩
  · rw [Nat.zero_add, Nat.mod_eq_of_lt (Nat.lt_of_le_of_lt hi hstart)] at hr
    exact .inl ⟨i, r, hi, hr, he⟩
  · refine .inr ⟨fun j hj => ?_, hgive⟩
    have hj' := hclear j hj
    rwa [Nat.zero_add, Nat.mod_eq_of_lt (Nat.lt_of_le_of_lt hj hstart)] at hj'

end RaceControl.Scan
