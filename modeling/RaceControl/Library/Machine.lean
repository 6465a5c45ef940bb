import Mathlib.Algebra.BigOperators.Group.List.Basic
import Mathlib.Algebra.GroupWithZero.Nat

namespace RaceControl.Machine

variable {σ ι ο κ μ σ' ι' ο' : Type*}

/-- A machine reads one input, moves to its next state and emits a list of
outputs. Everything the environment decides is part of the input. -/
abbrev Step (σ ι ο : Type*) := σ → ι → σ × List ο

def final (step : Step σ ι ο) : σ → List ι → σ
  | s, [] => s
  | s, i :: is => final step (step s i).1 is

def trace (step : Step σ ι ο) : σ → List ι → List ο
  | _, [] => []
  | s, i :: is => (step s i).2 ++ trace step (step s i).1 is

/-- Every step the run takes satisfies R, in the state it is taken from. -/
def Along (step : Step σ ι ο) (R : σ → ι → Prop) : σ → List ι → Prop
  | _, [] => True
  | s, i :: is => R s i ∧ Along step R (step s i).1 is

@[simp] theorem final_nil (step : Step σ ι ο) (s : σ) : final step s [] = s := rfl

@[simp] theorem final_cons (step : Step σ ι ο) (s : σ) (i : ι) (is : List ι) :
    final step s (i :: is) = final step (step s i).1 is := rfl

@[simp] theorem trace_nil (step : Step σ ι ο) (s : σ) : trace step s [] = [] := rfl

@[simp] theorem trace_cons (step : Step σ ι ο) (s : σ) (i : ι) (is : List ι) :
    trace step s (i :: is) = (step s i).2 ++ trace step (step s i).1 is := rfl

theorem final_append (step : Step σ ι ο) (s : σ) (is js : List ι) :
    final step s (is ++ js) = final step (final step s is) js := by
  induction is generalizing s with
  | nil => rfl
  | cons i is ih => exact ih _

theorem trace_append (step : Step σ ι ο) (s : σ) (is js : List ι) :
    trace step s (is ++ js) = trace step s is ++ trace step (final step s is) js := by
  induction is generalizing s with
  | nil => rfl
  | cons i is ih => rw [List.cons_append, trace_cons, trace_cons, ih, List.append_assoc, final_cons]

theorem mem_trace (step : Step σ ι ο) {s : σ} {is : List ι} {o : ο} (h : o ∈ trace step s is) :
    ∃ pre i post, is = pre ++ i :: post ∧ o ∈ (step (final step s pre) i).2 := by
  induction is generalizing s with
  | nil => exact absurd h List.not_mem_nil
  | cons i is ih =>
      rcases List.mem_append.mp h with h | h
      · exact ⟨[], i, is, rfl, h⟩
      · obtain ⟨pre, j, post, rfl, ho⟩ := ih h
        exact ⟨i :: pre, j, post, rfl, ho⟩

/-- Machines that move alike on inputs that correspond reach the same states. -/
theorem final_map (step : Step σ ι ο) (step' : Step σ ι' ο') (input : ι → ι')
    (h : ∀ s i, (step s i).1 = (step' s (input i)).1) (s : σ) (is : List ι) :
    final step s is = final step' s (is.map input) := by
  induction is generalizing s with
  | nil => rfl
  | cons i is ih =>
      rw [final_cons, ih, h]
      rfl

theorem final_invariant (step : Step σ ι ο) {P : σ → Prop}
    (hstep : ∀ s i, P s → P (step s i).1) {s : σ} (hs : P s) (is : List ι) :
    P (final step s is) := by
  induction is generalizing s with
  | nil => exact hs
  | cons i is ih => exact ih (hstep s i hs)

/-- A field that every step either overwrites with a value read off its input or
leaves alone holds the last value written. -/
theorem final_register (step : Step σ ι ο) {P : σ → Prop} (field : σ → κ) (write : ι → Option κ)
    (hstep : ∀ s i, P s → P (step s i).1 ∧ field (step s i).1 = (write i).getD (field s))
    {s : σ} (hs : P s) (is : List ι) :
    field (final step s is) = (is.filterMap write).getLast?.getD (field s) := by
  induction is generalizing s with
  | nil => rfl
  | cons i is ih =>
      obtain ⟨hP, hfield⟩ := hstep s i hs
      rw [final_cons, ih hP, hfield]
      cases hw : write i with
      | none => rw [List.filterMap_cons_none hw, Option.getD_none]
      | some a => rw [List.filterMap_cons_some hw, List.getLast?_cons, Option.getD_some, Option.getD_some]

theorem along_of_invariant (step : Step σ ι ο) {P : σ → Prop} {R : σ → ι → Prop}
    (hstep : ∀ s i, P s → P (step s i).1 ∧ R s i) {s : σ} (hs : P s) (is : List ι) :
    Along step R s is := by
  induction is generalizing s with
  | nil => trivial
  | cons i is ih => exact ⟨(hstep s i hs).2, ih (hstep s i hs).1⟩

/-- A run that keeps to R keeps to R' as well, where an invariant that R
preserves leads from one to the other. -/
theorem along_imp (step : Step σ ι ο) {P : σ → Prop} {R R' : σ → ι → Prop}
    (hstep : ∀ s i, P s → R s i → P (step s i).1 ∧ R' s i) {s : σ} (hs : P s) {is : List ι}
    (h : Along step R s is) : Along step R' s is := by
  induction is generalizing s with
  | nil => trivial
  | cons i is ih =>
      obtain ⟨hP, hR'⟩ := hstep s i hs h.1
      exact ⟨hR', ih hP h.2⟩

/-- A machine whose observable outputs depend, under an invariant, on the input
alone is the stateless rule applied to each input in turn. -/
theorem trace_refines (step : Step σ ι ο) {P : σ → Prop} (view : ο → κ) (rule : ι → List κ)
    (hstep : ∀ s i, P s → P (step s i).1 ∧ (step s i).2.map view = rule i)
    {s : σ} (hs : P s) (is : List ι) : (trace step s is).map view = is.flatMap rule := by
  induction is generalizing s with
  | nil => rfl
  | cons i is ih =>
      rw [trace_cons, List.map_append, List.flatMap_cons, (hstep s i hs).2, ih (hstep s i hs).1]

/-- One machine shows the behaviour of another through a view of its states,
inputs and outputs. -/
def Simulates (step : Step σ ι ο) (step' : Step σ' ι' ο') (P : σ → Prop) (view : σ → σ')
    (input : ι → ι') (output : ο → Option ο') : Prop :=
  ∀ s i, P s → P (step s i).1 ∧ view (step s i).1 = (step' (view s) (input i)).1 ∧
    (step s i).2.filterMap output = (step' (view s) (input i)).2

section Simulation

variable {step : Step σ ι ο} {step' : Step σ' ι' ο'} {P : σ → Prop} {view : σ → σ'}
  {input : ι → ι'} {output : ο → Option ο'}

theorem Simulates.trace (h : Simulates step step' P view input output) {s : σ} (hs : P s) (is : List ι) :
    (trace step s is).filterMap output = trace step' (view s) (is.map input) := by
  induction is generalizing s with
  | nil => rfl
  | cons i is ih =>
      obtain ⟨hP, hview, hout⟩ := h s i hs
      rw [trace_cons, List.filterMap_append, List.map_cons, trace_cons, hout, ih hP, hview]

theorem Simulates.along (h : Simulates step step' P view input output) {R : σ → ι → Prop}
    {R' : σ' → ι' → Prop} (hR : ∀ s i, P s → (R s i ↔ R' (view s) (input i))) {s : σ} (hs : P s)
    (is : List ι) : Along step R s is ↔ Along step' R' (view s) (is.map input) := by
  induction is generalizing s with
  | nil => exact Iff.rfl
  | cons i is ih =>
      obtain ⟨hP, hview, -⟩ := h s i hs
      have htail := ih hP
      rw [hview] at htail
      exact and_congr (hR s i hs) htail

end Simulation

theorem history_invariant (step : Step σ ι ο) {P : List ο → σ → Prop}
    (hstep : ∀ past s i, P past s → P (past ++ (step s i).2) (step s i).1)
    {past : List ο} {s : σ} (hs : P past s) (is : List ι) :
    P (past ++ trace step s is) (final step s is) := by
  induction is generalizing past s with
  | nil => simpa using hs
  | cons i is ih =>
      have h := ih (hstep past s i hs)
      simpa [List.append_assoc] using h

/-- Outputs that are paid for from a potential are bounded by the potential the
run starts with and what its inputs add to it. -/
theorem countP_le_potential (step : Step σ ι ο) {P : σ → Prop} (p : ο → Bool) (potential : σ → Nat)
    (income : ι → Nat) (is : List ι)
    (hstep : ∀ s, ∀ i ∈ is, P s → P (step s i).1 ∧
      (step s i).2.countP p + potential (step s i).1 ≤ potential s + income i)
    {s : σ} (hs : P s) :
    (trace step s is).countP p + potential (final step s is) ≤ potential s + (is.map income).sum := by
  induction is generalizing s with
  | nil => simp
  | cons i is ih =>
      obtain ⟨hP, hle⟩ := hstep s i (by simp) hs
      have h := ih (fun s j hj => hstep s j (by simp [hj])) hP
      simp only [trace_cons, final_cons, List.countP_append, List.map_cons, List.sum_cons]
      omega

/-- What the steps of a run cost, where the cost of a step may depend on the
state it is taken from. -/
def total (step : Step σ ι ο) (cost : σ → ι → Nat) : σ → List ι → Nat
  | _, [] => 0
  | s, i :: is => cost s i + total step cost (step s i).1 is

/-- Where every step balances, so does the run: nothing is gained or lost on
the way but what is accounted for. -/
theorem balance (step : Step σ ι ο) {P : σ → Prop} (spent earned : ο → Bool) (potential : σ → Nat)
    (cost : σ → ι → Nat) (is : List ι)
    (hstep : ∀ s, ∀ i ∈ is, P s → P (step s i).1 ∧
      potential (step s i).1 + (step s i).2.countP spent + cost s i =
        potential s + (step s i).2.countP earned)
    {s : σ} (hs : P s) :
    potential (final step s is) + (trace step s is).countP spent + total step cost s is =
      potential s + (trace step s is).countP earned := by
  induction is generalizing s with
  | nil => rfl
  | cons i is ih =>
      obtain ⟨hP, heq⟩ := hstep s i (by simp) hs
      have h := ih (fun s j hj => hstep s j (by simp [hj])) hP
      simp only [trace_cons, final_cons, List.countP_append, total]
      omega

/-- A machine that comes nearer to an output with every input of a kind, and is not
set back by the others, has made it after enough of them. -/
theorem eventually (step : Step σ ι ο) {P : σ → Prop} (good : ο → Bool) (tick : ι → Bool) (rank : σ → Nat)
    (hstep : ∀ s i, P s → (∃ o ∈ (step s i).2, good o = true) ∨
      P (step s i).1 ∧ rank (step s i).1 + (tick i).toNat ≤ rank s)
    {s : σ} (hs : P s) {is : List ι} (h : rank s < is.countP tick) : ∃ o ∈ trace step s is, good o = true := by
  induction is generalizing s with
  | nil => simp at h
  | cons i is ih =>
      rw [trace_cons]
      rcases hstep s i hs with ⟨o, ho, hgood⟩ | ⟨hP, hrank⟩
      · exact ⟨o, List.mem_append_left _ ho, hgood⟩
      · have hleft : rank (step s i).1 < is.countP tick := by
          rw [List.countP_cons] at h
          cases htick : tick i with
          | true =>
              simp only [htick, Bool.toNat_true, if_true] at h hrank
              omega
          | false =>
              simp only [htick, Bool.toNat_false, Bool.false_eq_true, if_false] at h hrank
              omega
        obtain ⟨o, ho, hgood⟩ := ih hP hleft
        exact ⟨o, List.mem_append_right _ ho, hgood⟩

def monitored (step : Step σ ι ο) (observe : μ → ι → List ο → μ) : Step (σ × μ) ι ο :=
  fun s i => (((step s.1 i).1, observe s.2 i (step s.1 i).2), (step s.1 i).2)

theorem final_monitored (step : Step σ ι ο) (observe : μ → ι → List ο → μ)
    (s : σ × μ) (is : List ι) : (final (monitored step observe) s is).1 = final step s.1 is := by
  induction is generalizing s with
  | nil => rfl
  | cons i is ih => exact ih _

end RaceControl.Machine
