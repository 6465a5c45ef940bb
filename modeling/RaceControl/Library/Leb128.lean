import Mathlib.Algebra.Group.Nat.Defs
import Mathlib.Data.List.Basic

namespace RaceControl.Leb128

/-- A number in groups of seven bits, the lowest first. The high bit of a byte
says that more groups follow. -/
def encode (n : Nat) : List UInt8 :=
  if n < 128 then [UInt8.ofNat n] else UInt8.ofNat (n % 128 + 128) :: encode (n / 128)
termination_by n
decreasing_by omega

def decode : List UInt8 → Option (Nat × List UInt8)
  | [] => none
  | byte :: bytes =>
      if byte.toNat < 128 then some (byte.toNat, bytes)
      else (decode bytes).map (fun r => (byte.toNat % 128 + 128 * r.1, r.2))

theorem toNat_ofNat {n : Nat} (h : n < 256) : (UInt8.ofNat n).toNat = n :=
  UInt8.toNat_ofNat_of_lt' h

theorem encode_last {n : Nat} (h : n < 128) : encode n = [UInt8.ofNat n] := by
  rw [encode, if_pos h]

theorem encode_group {g m : Nat} (hg : g < 128) (hm : 0 < m) :
    encode (g + 128 * m) = UInt8.ofNat (g + 128) :: encode m := by
  have hlow : (g + 128 * m) % 128 = g := by omega
  have hhigh : (g + 128 * m) / 128 = m := by omega
  rw [encode, if_neg (by omega), hlow, hhigh]

theorem encode_ne_nil (n : Nat) : encode n ≠ [] := by
  rw [encode]
  split <;> simp

theorem decode_last {byte : UInt8} (h : byte.toNat < 128) (bytes : List UInt8) :
    decode (byte :: bytes) = some (byte.toNat, bytes) := by
  rw [decode, if_pos h]

theorem decode_group {byte : UInt8} (h : 128 ≤ byte.toNat) (bytes : List UInt8) :
    decode (byte :: bytes) = (decode bytes).map (fun r => (byte.toNat % 128 + 128 * r.1, r.2)) := by
  rw [decode, if_neg (by omega)]

theorem decode_encode (n : Nat) (rest : List UInt8) : decode (encode n ++ rest) = some (n, rest) := by
  induction n using Nat.strongRecOn with
  | ind n ih =>
      by_cases h : n < 128
      · have hbyte := toNat_ofNat (n := n) (by omega)
        rw [encode_last h, List.singleton_append, decode_last (by omega), hbyte]
      · have hbyte := toNat_ofNat (n := n % 128 + 128) (by omega)
        rw [encode, if_neg h, List.cons_append, decode_group (by omega), ih (n / 128) (by omega), hbyte]
        have hvalue : (n % 128 + 128) % 128 + 128 * (n / 128) = n := by omega
        rw [Option.map_some, hvalue]

theorem decode_cases {byte : UInt8} {bytes rest : List UInt8} {n : Nat}
    (h : decode (byte :: bytes) = some (n, rest)) :
    (byte.toNat < 128 ∧ n = byte.toNat ∧ rest = bytes) ∨
      (128 ≤ byte.toNat ∧ ∃ m, decode bytes = some (m, rest) ∧ n = byte.toNat % 128 + 128 * m) := by
  by_cases hb : byte.toNat < 128
  · rw [decode_last hb] at h
    cases h
    exact .inl ⟨hb, rfl, rfl⟩
  · rw [decode_group (by omega), Option.map_eq_some_iff] at h
    obtain ⟨⟨m, tail⟩, hd, he⟩ := h
    cases he
    exact .inr ⟨by omega, m, hd, rfl⟩

theorem decode_append {bytes rest : List UInt8} {n : Nat} (h : decode bytes = some (n, rest))
    (more : List UInt8) : decode (bytes ++ more) = some (n, rest ++ more) := by
  induction bytes generalizing n with
  | nil => cases h
  | cons byte bytes ih =>
      rcases decode_cases h with ⟨hb, rfl, rfl⟩ | ⟨hb, m, hm, rfl⟩
      · exact decode_last hb _
      · rw [List.cons_append, decode_group hb, ih hm, Option.map_some]

theorem decode_length {bytes rest : List UInt8} {n : Nat} (h : decode bytes = some (n, rest)) :
    rest.length < bytes.length := by
  induction bytes generalizing n with
  | nil => cases h
  | cons byte bytes ih =>
      rcases decode_cases h with ⟨-, -, rfl⟩ | ⟨-, m, hm, -⟩
      · exact Nat.lt_succ_self _
      · exact Nat.lt_succ_of_lt (ih hm)

theorem encode_length {n : Nat} (k : Nat) (h : n < 128 ^ (k + 1)) : (encode n).length ≤ k + 1 := by
  induction k generalizing n with
  | zero => simp [encode_last (n := n) (by omega)]
  | succ k ih =>
      rw [encode]
      split
      · simp
      · have hdiv : n / 128 < 128 ^ (k + 1) := by
          rw [Nat.pow_succ] at h
          omega
        have := ih hdiv
        rw [List.length_cons]
        omega

/-- No other groups with the same number are fewer. -/
theorem encode_shortest {bytes rest : List UInt8} {n : Nat} (h : decode bytes = some (n, rest)) :
    (encode n).length + rest.length ≤ bytes.length := by
  induction bytes generalizing n with
  | nil => cases h
  | cons byte bytes ih =>
      rcases decode_cases h with ⟨hb, rfl, rfl⟩ | ⟨hb, m, hm, rfl⟩
      · rw [encode_last hb, List.length_cons, List.length_cons, List.length_nil]
        omega
      · have hrest := ih hm
        have hmod := Nat.mod_lt byte.toNat (by omega : 128 > 0)
        rw [List.length_cons]
        by_cases hzero : m = 0
        · subst hzero
          have hone : (encode (byte.toNat % 128 + 128 * 0)).length = 1 := by
            rw [encode_last (by omega)]
            rfl
          have hpos := List.length_pos_iff.mpr (encode_ne_nil 0)
          omega
        · rw [encode_group hmod (by omega), List.length_cons]
          omega

end RaceControl.Leb128
