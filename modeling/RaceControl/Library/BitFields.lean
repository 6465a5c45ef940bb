import Mathlib.Algebra.BigOperators.Group.List.Basic
import Mathlib.Algebra.Group.Nat.Defs
import Mathlib.Algebra.GroupWithZero.Nat

namespace RaceControl.BitFields

/-- A word put together from fields, the lowest first, each given by its width
and its value. -/
def assemble : List (Nat × Nat) → Nat
  | [] => 0
  | (width, value) :: fields => value + 2 ^ width * assemble fields

def totalWidth (fields : List (Nat × Nat)) : Nat := (fields.map Prod.fst).sum

def Fit (fields : List (Nat × Nat)) : Prop := ∀ f ∈ fields, f.2 < 2 ^ f.1

/-- The field of a word that starts at a bit. -/
def field (offset width word : Nat) : Nat := word / 2 ^ offset % 2 ^ width

theorem assemble_append (fields more : List (Nat × Nat)) :
    assemble (fields ++ more) = assemble fields + 2 ^ totalWidth fields * assemble more := by
  induction fields with
  | nil => simp [assemble, totalWidth]
  | cons f fields ih =>
      obtain ⟨width, value⟩ := f
      have hwidth : totalWidth ((width, value) :: fields) = width + totalWidth fields := rfl
      rw [List.cons_append, assemble, ih, assemble, hwidth, Nat.pow_add, Nat.mul_add, Nat.mul_assoc, Nat.add_assoc]

theorem assemble_lt {fields : List (Nat × Nat)} (h : Fit fields) : assemble fields < 2 ^ totalWidth fields := by
  induction fields with
  | nil => simp [assemble, totalWidth]
  | cons f fields ih =>
      obtain ⟨width, value⟩ := f
      have hwidth : totalWidth ((width, value) :: fields) = width + totalWidth fields := rfl
      have hvalue : value < 2 ^ width := h (width, value) (by simp)
      have hrest := ih (fun g hg => h g (by simp [hg]))
      rw [assemble, hwidth, Nat.pow_add]
      calc value + 2 ^ width * assemble fields
        _ < 2 ^ width + 2 ^ width * assemble fields := Nat.add_lt_add_right hvalue _
        _ = 2 ^ width * (assemble fields + 1) := by rw [Nat.mul_add, Nat.mul_one, Nat.add_comm]
        _ ≤ 2 ^ width * 2 ^ totalWidth fields := Nat.mul_le_mul_left _ hrest

/-- A field is found again at the total width of the fields below it. -/
theorem field_assemble {fields more : List (Nat × Nat)} {width value : Nat} (h : Fit fields) (hv : value < 2 ^ width) :
    field (totalWidth fields) width (assemble (fields ++ (width, value) :: more)) = value := by
  have hlt := assemble_lt h
  rw [field, assemble_append, assemble, Nat.add_mul_div_left _ _ (Nat.two_pow_pos _), Nat.div_eq_of_lt hlt,
    Nat.zero_add, Nat.add_mul_mod_self_left, Nat.mod_eq_of_lt hv]

/-- Bits that do not meet add up, so a field is added to a word by an or. -/
theorem or_field {fields : List (Nat × Nat)} (h : Fit fields) (width value : Nat) :
    assemble fields ||| value <<< totalWidth fields = assemble (fields ++ [(width, value)]) := by
  rw [Nat.or_comm, ← Nat.shiftLeft_add_eq_or_of_lt (assemble_lt h), assemble_append, Nat.shiftLeft_eq, Nat.add_comm,
    Nat.mul_comm]
  simp [assemble]

theorem and_shiftLeft (x m k : Nat) : x &&& m <<< k = (x >>> k &&& m) <<< k := by
  apply Nat.eq_of_testBit_eq
  intro i
  rw [Nat.testBit_and, Nat.testBit_shiftLeft, Nat.testBit_shiftLeft, Nat.testBit_and, Nat.testBit_shiftRight]
  by_cases hi : k ≤ i
  · rw [Nat.add_sub_cancel' hi]
    simp [hi]
  · simp [hi]

end RaceControl.BitFields
