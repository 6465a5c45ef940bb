import RaceControl.Library.Machine

namespace RaceControl.StartOnce

open Machine

structure Latch where
  set : Bool
  running : Bool
  deriving DecidableEq

inductive Output
  | created (success : Bool)
  | returned
  deriving DecidableEq

/-- A start request comes with the result its task creation would have. The
latch is set whatever that result is. -/
def step (l : Latch) : Option Bool → Latch × List Output
  | none => (l, [])
  | some success =>
      if l.set then (l, [.returned])
      else (⟨true, l.running || success⟩, [.created success, .returned])

def unset : Latch := ⟨false, false⟩

def Honest (l : Latch) (request : Option Bool) : Prop :=
  .returned ∈ (step l request).2 → (step l request).1.running = true

def firstStart (requests : List (Option Bool)) : Option Bool := (requests.filterMap id).head?

theorem created_step (l : Latch) (request : Option Bool) :
    (step l request).2.countP (· == .created true) + (!(step l request).1.set).toNat ≤
      (!l.set).toNat := by
  cases request with
  | none => simp [step]
  | some success =>
      cases hs : l.set with
      | true => simp [step, hs]
      | false => cases success <;> simp [step, hs]

theorem created_le_one (l : Latch) (requests : List (Option Bool)) :
    (trace step l requests).count (.created true) ≤ 1 := by
  have h := countP_le_potential step (P := fun _ => True) (· == .created true)
    (fun l => (!l.set).toNat) (fun _ => 0) requests
    (fun l request _ _ => ⟨trivial, created_step l request⟩) (s := l) trivial
  have hzero : (requests.map fun _ => 0).sum = 0 := by simp
  rw [hzero] at h
  have hone : (!l.set).toNat ≤ 1 := Bool.toNat_le _
  rw [List.count]
  omega

theorem honest_running {l : Latch} (h : l.running = true) (requests : List (Option Bool)) :
    Along step Honest l requests := by
  apply along_of_invariant step (P := fun l => l.running = true) ?_ h
  intro l request hl
  have hnext : (step l request).1.running = true := by
    cases request with
    | none => exact hl
    | some success =>
        simp only [step]
        split
        · exact hl
        · simp [hl]
  exact ⟨hnext, fun _ => hnext⟩

/-- Starts stay honest exactly when the first one creates its task. No later one
makes up for it. -/
theorem honest_iff (requests : List (Option Bool)) :
    Along step Honest unset requests ↔ firstStart requests ≠ some false := by
  induction requests with
  | nil => simp [Along, firstStart]
  | cons request requests ih =>
      cases request with
      | none =>
          have hfirst : firstStart (none :: requests) = firstStart requests := rfl
          rw [hfirst, ← ih]
          simp [Along, Honest, step]
      | some success =>
          have hfirst : firstStart (some success :: requests) = some success := rfl
          rw [hfirst]
          cases success with
          | false => simp [Along, Honest, step, unset]
          | true =>
              have htail : Along step Honest ⟨true, true⟩ requests := honest_running rfl requests
              simpa [Along, Honest, step, unset] using htail

end RaceControl.StartOnce
