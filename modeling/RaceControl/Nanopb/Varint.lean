import RaceControl.Library.Leb128
import RaceControl.Nanopb.OStream

namespace RaceControl.Nanopb

open Leb128

section Bytes

theorem continues_iff (byte : UInt8) : byte &&& 0x80 ≠ 0 ↔ 128 ≤ byte.toNat := by
  have h : ∀ n < 256, (UInt8.ofNat n &&& 0x80 ≠ 0 ↔ 128 ≤ n) := by decide +kernel
  simpa using h byte.toNat byte.toNat_lt

theorem overflows_iff (byte : UInt8) : byte &&& 0xFE ≠ 0 ↔ 2 ≤ byte.toNat := by
  have h : ∀ n < 256, (UInt8.ofNat n &&& 0xFE ≠ 0 ↔ 2 ≤ n) := by decide +kernel
  simpa using h byte.toNat byte.toNat_lt

theorem group_toNat (byte : UInt8) : (byte &&& 0x7F).toNat = byte.toNat % 128 := by
  rw [UInt8.toNat_and]
  exact Nat.and_two_pow_sub_one_eq_mod byte.toNat 7

theorem low_toNat (byte : UInt8) : (byte &&& 0x0F).toNat = byte.toNat % 16 := by
  rw [UInt8.toNat_and]
  exact Nat.and_two_pow_sub_one_eq_mod byte.toNat 4

theorem continued_toNat {byte : UInt8} (h : byte.toNat < 128) : (byte ||| 0x80).toNat = byte.toNat + 128 := by
  have hall : ∀ n < 128, (UInt8.ofNat n ||| 0x80).toNat = n + 128 := by decide +kernel
  simpa using hall byte.toNat h

/-- Bits that do not meet add up. -/
theorem or_add {a b k : Nat} (h : a < 2 ^ k) : a ||| b * 2 ^ k = a + b * 2 ^ k := by
  rw [Nat.mul_comm, Nat.or_comm, ← Nat.two_pow_add_eq_or_of_lt h, Nat.add_comm]

theorem or_shift64 {result x : UInt64} {k : Nat} (hk : k < 64) (hr : result.toNat < 2 ^ k)
    (hx : x.toNat * 2 ^ k < 2 ^ 64) :
    (result ||| x <<< UInt64.ofNat k).toNat = result.toNat + x.toNat * 2 ^ k := by
  have hshift : (UInt64.ofNat k).toNat % 64 = k := by
    rw [UInt64.toNat_ofNat_of_lt' (by rw [UInt64.size]; omega), Nat.mod_eq_of_lt hk]
  rw [UInt64.toNat_or, UInt64.toNat_shiftLeft, hshift, Nat.shiftLeft_eq, Nat.mod_eq_of_lt hx, or_add hr]

theorem or_shift32 {result x : UInt32} {k : Nat} (hk : k < 32) (hr : result.toNat < 2 ^ k)
    (hx : x.toNat * 2 ^ k < 2 ^ 32) :
    (result ||| x <<< UInt32.ofNat k).toNat = result.toNat + x.toNat * 2 ^ k := by
  have hshift : (UInt32.ofNat k).toNat % 32 = k := by
    rw [UInt32.toNat_ofNat_of_lt' (by rw [UInt32.size]; omega), Nat.mod_eq_of_lt hk]
  rw [UInt32.toNat_or, UInt32.toNat_shiftLeft, hshift, Nat.shiftLeft_eq, Nat.mod_eq_of_lt hx, or_add hr]

end Bytes

section Readers

theorem pbSkipVarint_eq (stream : IStream) : pbSkipVarint stream =
    match decode stream with
    | none => .error .endOfStream
    | some (_, rest) => .ok ((), rest) := by
  induction stream with
  | nil => rfl
  | cons byte stream ih =>
      rw [pbSkipVarint]
      by_cases hb : 128 ≤ byte.toNat
      · rw [if_pos ((continues_iff byte).mpr hb), ih, decode_group hb]
        cases decode stream <;> rfl
      · rw [if_neg (fun h => hb ((continues_iff byte).mp h)), decode_last (by omega)]

theorem pow_group (k : Nat) : 2 ^ (7 * (k + 1)) = 128 * 2 ^ (7 * k) := by
  rw [Nat.mul_add, Nat.pow_add, Nat.mul_comm]

theorem add_group (g n k : Nat) :
    g * 2 ^ (7 * k) + n * 2 ^ (7 * (k + 1)) = (g + 128 * n) * 2 ^ (7 * k) := by
  rw [pow_group, Nat.add_mul, ← Nat.mul_assoc, Nat.mul_comm n 128]

theorem varintLoop_group {k : Nat} (hk : k ≤ 8) {result : UInt64} (hr : result.toNat < 2 ^ (7 * k)) (byte : UInt8) :
    (result ||| (byte &&& 0x7F).toUInt64 <<< UInt64.ofNat (7 * k)).toNat =
      result.toNat + byte.toNat % 128 * 2 ^ (7 * k) := by
  have hpow : 2 ^ (7 * k) ≤ 2 ^ 56 := Nat.pow_le_pow_right (by omega) (by omega)
  have hgroup : (byte &&& 0x7F).toUInt64.toNat = byte.toNat % 128 := by
    rw [UInt8.toNat_toUInt64, group_toNat]
  have hlt : byte.toNat % 128 * 2 ^ (7 * k) < 128 * 2 ^ (7 * k) :=
    Nat.mul_lt_mul_of_pos_right (Nat.mod_lt _ (by omega)) (Nat.two_pow_pos _)
  rw [or_shift64 (by omega) hr (by rw [hgroup]; omega), hgroup]

theorem varintLoop_step {k : Nat} (hk : k ≤ 8) (result : UInt64) (byte : UInt8) (stream : IStream) :
    varintLoop (7 * k) result (byte :: stream) =
      let next := result ||| (byte &&& 0x7F).toUInt64 <<< UInt64.ofNat (7 * k)
      if 128 ≤ byte.toNat then varintLoop (7 * (k + 1)) next stream else .ok (next, stream) := by
  rw [varintLoop, if_neg (by omega)]
  dsimp only
  by_cases hb : 128 ≤ byte.toNat
  · rw [if_pos ((continues_iff byte).mpr hb), if_pos hb, Nat.mul_add]
  · rw [if_neg (fun h => hb ((continues_iff byte).mp h)), if_neg hb]

/-- The tenth group has room for one bit. -/
theorem varintLoop_last {result : UInt64} (hr : result.toNat < 2 ^ 63) (byte : UInt8)
    (stream rest : IStream) (w : UInt64) :
    varintLoop 63 result (byte :: stream) = .ok (w, rest) ↔
      byte.toNat < 2 ∧ rest = stream ∧ w.toNat = result.toNat + byte.toNat * 2 ^ 63 := by
  rw [varintLoop]
  by_cases hover : 2 ≤ byte.toNat
  · rw [if_pos ⟨by omega, (overflows_iff byte).mpr hover⟩]
    constructor
    · intro h
      cases h
    · rintro ⟨hb, -⟩
      omega
  · have hgroup : (byte &&& 0x7F).toUInt64.toNat = byte.toNat := by
      rw [UInt8.toNat_toUInt64, group_toNat, Nat.mod_eq_of_lt (by omega)]
    have hnext := or_shift64 (x := (byte &&& 0x7F).toUInt64) (k := 63) (by omega) hr
      (by rw [hgroup]; omega)
    rw [if_neg (fun h => hover ((overflows_iff byte).mp h.2))]
    dsimp only
    rw [if_neg (fun h => hover (by have := (continues_iff byte).mp h; omega))]
    simp only [Except.ok.injEq, Prod.mk.injEq]
    rw [hgroup] at hnext
    constructor
    · rintro ⟨rfl, rfl⟩
      exact ⟨by omega, rfl, hnext⟩
    · rintro ⟨-, rfl, hw⟩
      exact ⟨UInt64.toNat_inj.mp (hnext.trans hw.symm), rfl⟩

/-- The reader of long varints, k groups into the number. It accepts ten groups
and values of 64 bits. -/
theorem varintLoop_ok (k : Nat) (hk : k ≤ 9) {result : UInt64} (hr : result.toNat < 2 ^ (7 * k))
    (stream rest : IStream) (w : UInt64) :
    varintLoop (7 * k) result stream = .ok (w, rest) ↔
      ∃ n, decode stream = some (n, rest) ∧ stream.length + k ≤ rest.length + 10 ∧
        w.toNat = result.toNat + n * 2 ^ (7 * k) := by
  induction stream generalizing k result with
  | nil => simp [varintLoop, decode]
  | cons byte stream ih =>
      have hw := w.toNat_lt
      by_cases hlast : k = 9
      · subst hlast
        rw [varintLoop_last hr]
        constructor
        · rintro ⟨hb, rfl, hval⟩
          have hlen : (byte :: rest).length = rest.length + 1 := List.length_cons
          exact ⟨byte.toNat, decode_last (by omega) _, by omega, hval⟩
        · rintro ⟨n, hd, hlen, hval⟩
          rcases decode_cases hd with ⟨-, rfl, rfl⟩ | ⟨-, m, hm, -⟩
          · exact ⟨by omega, rfl, hval⟩
          · have := decode_length hm
            rw [List.length_cons] at hlen
            omega
      · have hnext := varintLoop_group (by omega : k ≤ 8) hr byte
        have hlt := Nat.mod_lt byte.toNat (by omega : 128 > 0)
        rw [varintLoop_step (by omega)]
        generalize result ||| (byte &&& 0x7F).toUInt64 <<< UInt64.ofNat (7 * k) = next at hnext
        dsimp only
        by_cases hb : 128 ≤ byte.toNat
        · have hsmall : next.toNat < 2 ^ (7 * (k + 1)) := by
            rw [hnext, pow_group]
            have := Nat.mul_le_mul_right (2 ^ (7 * k)) (by omega : byte.toNat % 128 + 1 ≤ 128)
            rw [Nat.add_mul] at this
            omega
          rw [if_pos hb, ih (k + 1) (by omega) hsmall]
          constructor
          · rintro ⟨n, hd, hlen, hval⟩
            refine ⟨byte.toNat % 128 + 128 * n, ?_, by rw [List.length_cons]; omega, ?_⟩
            · rw [decode_group hb, hd, Option.map_some]
            · rw [hval, hnext, Nat.add_assoc, add_group]
          · rintro ⟨n, hd, hlen, hval⟩
            rcases decode_cases hd with ⟨hs, -, -⟩ | ⟨-, m, hm, rfl⟩
            · omega
            · refine ⟨m, hm, by rw [List.length_cons] at hlen; omega, ?_⟩
              rw [hval, hnext, Nat.add_assoc, add_group]
        · have hvalue : byte.toNat % 128 = byte.toNat := Nat.mod_eq_of_lt (by omega)
          rw [if_neg hb]
          simp only [Except.ok.injEq, Prod.mk.injEq]
          rw [hvalue] at hnext
          constructor
          · rintro ⟨rfl, rfl⟩
            exact ⟨byte.toNat, decode_last (by omega) _, by rw [List.length_cons]; omega, hnext⟩
          · rintro ⟨n, hd, -, hval⟩
            rcases decode_cases hd with ⟨-, rfl, rfl⟩ | ⟨hs, -⟩
            · exact ⟨UInt64.toNat_inj.mp (hnext.trans hval.symm), rfl⟩
            · omega

theorem pbDecodeVarint_ok (stream rest : IStream) (w : UInt64) :
    pbDecodeVarint stream = .ok (w, rest) ↔
      decode stream = some (w.toNat, rest) ∧ stream.length ≤ rest.length + 10 := by
  have h := varintLoop_ok 0 (by omega) (show (0 : UInt64).toNat < 2 ^ (7 * 0) by decide) stream rest w
  rw [Nat.mul_zero] at h
  rw [pbDecodeVarint, h]
  constructor
  · rintro ⟨n, hd, hlen, hval⟩
    have hn : w.toNat = n := by simpa using hval
    exact ⟨hn ▸ hd, hlen⟩
  · rintro ⟨hd, hlen⟩
    exact ⟨w.toNat, hd, hlen, by simp⟩

theorem noExtension_iff (byte : UInt8) : byte &&& 0x7F = 0 ↔ byte.toNat % 128 = 0 := by
  rw [← UInt8.toNat_inj, group_toNat]
  rfl

theorem fifth_zero_iff (byte : UInt8) : byte &&& 0x70 = 0 ↔ byte.toNat % 128 < 16 := by
  have h : ∀ n < 256, (UInt8.ofNat n &&& 0x70 = 0 ↔ n % 128 < 16) := by decide +kernel
  simpa using h byte.toNat byte.toNat_lt

theorem fifth_sign_iff (byte : UInt8) : byte &&& 0x78 = 0x78 ↔ 120 ≤ byte.toNat % 128 := by
  have h : ∀ n < 256, (UInt8.ofNat n &&& 0x78 = 0x78 ↔ 120 ≤ n % 128) := by decide +kernel
  simpa using h byte.toNat byte.toNat_lt

theorem signBit_iff (result : UInt32) : result >>> 31 ≠ 0 ↔ 2 ^ 31 ≤ result.toNat := by
  have hlt := result.toNat_lt
  have hshift : (result >>> 31).toNat = result.toNat / 2 ^ 31 := by
    rw [UInt32.toNat_shiftRight]
    exact Nat.shiftRight_eq_div_pow _ 31
  rw [Ne, ← UInt32.toNat_inj, hshift]
  simp only [UInt32.toNat_zero]
  omega

theorem group_lt {k : Nat} {result : UInt32} (hr : result.toNat < 2 ^ (7 * k)) (byte : UInt8) :
    result.toNat + byte.toNat % 128 * 2 ^ (7 * k) < 2 ^ (7 * (k + 1)) := by
  have hlt := Nat.mod_lt byte.toNat (by omega : 128 > 0)
  have := Nat.mul_le_mul_right (2 ^ (7 * k)) (by omega : byte.toNat % 128 + 1 ≤ 128)
  rw [Nat.add_mul] at this
  rw [pow_group]
  omega

/-- In front of the fifth group nothing is lost. -/
theorem varint32Byte_low {k : Nat} (hk : k ≤ 3) {result : UInt32} (hr : result.toNat < 2 ^ (7 * k)) (byte : UInt8) :
    ∃ next, varint32Byte (7 * k) result byte = .ok next ∧
      next.toNat = result.toNat + byte.toNat % 128 * 2 ^ (7 * k) := by
  have hgroup : (byte &&& 0x7F).toUInt32.toNat = byte.toNat % 128 := by
    rw [UInt8.toNat_toUInt32, group_toNat]
  have hlt := group_lt hr byte
  have hpow : 2 ^ (7 * (k + 1)) ≤ 2 ^ 28 := Nat.pow_le_pow_right (by omega) (by omega)
  refine ⟨_, by rw [varint32Byte, if_neg (by omega), if_neg (by omega)], ?_⟩
  rw [or_shift32 (by omega) hr (by rw [hgroup]; omega), hgroup]

/-- The fifth group keeps four of its bits. The others are a sign extension. -/
theorem varint32Byte_fifth {result : UInt32} (hr : result.toNat < 2 ^ 28) (byte : UInt8) :
    varint32Byte 28 result byte = (if byte.toNat % 128 < 16 ∨ 120 ≤ byte.toNat % 128 then
        .ok (result ||| (byte &&& 0x0F).toUInt32 <<< UInt32.ofNat 28) else .error .varintOverflow) ∧
      (result ||| (byte &&& 0x0F).toUInt32 <<< UInt32.ofNat 28).toNat =
        result.toNat + byte.toNat % 16 * 2 ^ 28 := by
  constructor
  · rw [varint32Byte, if_neg (by omega), if_pos rfl]
    by_cases hz : byte.toNat % 128 < 16
    · rw [if_neg (fun h => h.1 ((fifth_zero_iff byte).mpr hz)), if_pos (.inl hz)]
    · by_cases hs : 120 ≤ byte.toNat % 128
      · rw [if_neg (fun h => h.2 ((fifth_sign_iff byte).mpr hs)), if_pos (.inr hs)]
      · rw [if_pos ⟨fun h => hz ((fifth_zero_iff byte).mp h), fun h => hs ((fifth_sign_iff byte).mp h)⟩,
          if_neg (by omega)]
  · have hlow : (byte &&& 0x0F).toUInt32.toNat = byte.toNat % 16 := by
      rw [UInt8.toNat_toUInt32, low_toNat]
    rw [or_shift32 (by omega) hr (by rw [hlow]; omega), hlow]

theorem eq_byte_iff (byte : UInt8) {n : Nat} (hn : n < 256) : byte = UInt8.ofNat n ↔ byte.toNat = n := by
  rw [← UInt8.toNat_inj, toNat_ofNat hn]

/-- Later groups only extend the number, by zeros or by its sign. -/
theorem varint32Byte_high {k : Nat} (hk : 5 ≤ k) (result : UInt32) (byte : UInt8) :
    varint32Byte (7 * k) result byte =
      if k ≤ 9 ∧ (byte.toNat % 128 = 0 ∨
          2 ^ 31 ≤ result.toNat ∧ byte.toNat = if k < 9 then 255 else 1) then
        .ok result else .error .varintOverflow := by
  have hsign : byte = (if 7 * k < 63 then 0xFF else 0x01) ↔ byte.toNat = if k < 9 then 255 else 1 := by
    by_cases hlast : k < 9
    · rw [if_pos (by omega), if_pos hlast]
      exact eq_byte_iff byte (n := 255) (by decide)
    · rw [if_neg (by omega), if_neg hlast]
      exact eq_byte_iff byte (n := 1) (by decide)
  have hfits : 64 ≤ 7 * k ↔ ¬ k ≤ 9 := by omega
  rw [varint32Byte, if_pos (by omega)]
  dsimp only
  by_cases hvalid : k ≤ 9 ∧ (byte.toNat % 128 = 0 ∨
      2 ^ 31 ≤ result.toNat ∧ byte.toNat = if k < 9 then 255 else 1)
  · rw [if_pos hvalid, if_neg]
    rw [← signBit_iff, ← noExtension_iff, ← hsign] at hvalid
    simpa [hfits, or_iff_not_imp_left] using hvalid
  · rw [if_neg hvalid, if_pos]
    rw [← signBit_iff, ← noExtension_iff, ← hsign] at hvalid
    simpa [hfits, or_iff_not_imp_left] using hvalid

theorem varint32Loop_step {k : Nat} {result next : UInt32} {byte : UInt8} (stream : IStream)
    (h : varint32Byte (7 * k) result byte = .ok next) : varint32Loop (7 * k) result (byte :: stream) =
      if 128 ≤ byte.toNat then varint32Loop (7 * (k + 1)) next stream else .ok (next, stream) := by
  rw [varint32Loop, h]
  dsimp only
  by_cases hb : 128 ≤ byte.toNat
  · rw [if_pos ((continues_iff byte).mpr hb), if_pos hb, Nat.mul_add]
  · rw [if_neg (fun h => hb ((continues_iff byte).mp h)), if_neg hb]

/-- What one accepted byte does, whichever of the three kinds of group it is. -/
theorem varint32Byte_ok {k : Nat} {result next : UInt32} {byte : UInt8}
    (hr : k ≤ 4 → result.toNat < 2 ^ (7 * k)) (h : varint32Byte (7 * k) result byte = .ok next) :
    k ≤ 9 ∧ (k = 9 → byte.toNat % 128 < 2) ∧
      (k + 1 ≤ 4 → next.toNat < 2 ^ (7 * (k + 1))) ∧
      next.toNat = (result.toNat + byte.toNat % 128 * 2 ^ (7 * k)) % 2 ^ 32 := by
  have hnext := next.toNat_lt
  by_cases hlow : k ≤ 3
  · obtain ⟨next', hok, hval⟩ := varint32Byte_low hlow (hr (by omega)) byte
    rw [hok] at h
    cases h
    have hlt := group_lt (hr (by omega)) byte
    exact ⟨by omega, by omega, fun _ => by omega, by rw [← hval, Nat.mod_eq_of_lt hnext]⟩
  · by_cases hfifth : k = 4
    · subst hfifth
      obtain ⟨hok, hval⟩ := varint32Byte_fifth (hr (by omega)) byte
      by_cases hvalid : byte.toNat % 128 < 16 ∨ 120 ≤ byte.toNat % 128
      · have hsmall := hr (by omega)
        rw [hok, if_pos hvalid] at h
        cases h
        refine ⟨by omega, by omega, by omega, ?_⟩
        rw [hval]
        omega
      · rw [hok, if_neg hvalid] at h
        cases h
    · rw [varint32Byte_high (by omega)] at h
      by_cases hvalid : k ≤ 9 ∧ (byte.toNat % 128 = 0 ∨
          2 ^ 31 ≤ result.toNat ∧ byte.toNat = if k < 9 then 255 else 1)
      · rw [if_pos hvalid] at h
        cases h
        obtain ⟨hk, hext⟩ := hvalid
        have hmul : byte.toNat % 128 * 2 ^ (7 * k) = 2 ^ 32 * (byte.toNat % 128 * 2 ^ (7 * k - 32)) := by
          have hpow : 2 ^ (7 * k) = 2 ^ 32 * 2 ^ (7 * k - 32) := by
            rw [← Nat.pow_add]
            congr 1
            omega
          rw [hpow, Nat.mul_left_comm]
        refine ⟨hk, ?_, by omega, ?_⟩
        · rintro rfl
          rw [if_neg (Nat.lt_irrefl 9)] at hext
          omega
        · rw [hmul, Nat.add_mul_mod_self_left, Nat.mod_eq_of_lt hnext]
      · rw [if_neg hvalid] at h
        cases h

/-- Whatever the reader of short varints accepts is the number modulo 2^32. -/
theorem varint32Loop_ok {k : Nat} {result : UInt32} (hr : k ≤ 4 → result.toNat < 2 ^ (7 * k))
    {stream rest : IStream} {v : UInt32} (h : varint32Loop (7 * k) result stream = .ok (v, rest)) :
    ∃ n, decode stream = some (n, rest) ∧ stream.length + k ≤ rest.length + 10 ∧
      n < 2 ^ (64 - 7 * k) ∧ v.toNat = (result.toNat + n * 2 ^ (7 * k)) % 2 ^ 32 := by
  induction stream generalizing k result with
  | nil => cases h
  | cons byte stream ih =>
      cases hbyte : varint32Byte (7 * k) result byte with
      | error e =>
          rw [varint32Loop, hbyte] at h
          cases h
      | ok next =>
          obtain ⟨hk, hlast, hlow, hval⟩ := varint32Byte_ok hr hbyte
          have hg := Nat.mod_lt byte.toNat (by omega : 128 > 0)
          rw [varint32Loop_step stream hbyte] at h
          split at h
          · rename_i hb
            obtain ⟨n, hd, hlen, hn, hv⟩ := ih hlow h
            have hdl := decode_length hd
            have hpow : 2 ^ (64 - 7 * k) = 128 * 2 ^ (64 - 7 * (k + 1)) := by
              rw [← Nat.pow_add 2 7]
              congr 1
              omega
            refine ⟨byte.toNat % 128 + 128 * n, ?_, by rw [List.length_cons]; omega, by omega, ?_⟩
            · rw [decode_group hb, hd, Option.map_some]
            · rw [hv, hval, Nat.mod_add_mod, Nat.add_assoc, add_group]
          · rename_i hb
            cases h
            have hvalue : byte.toNat % 128 = byte.toNat := Nat.mod_eq_of_lt (by omega)
            refine ⟨byte.toNat, decode_last (by omega) _, by rw [List.length_cons]; omega, ?_, ?_⟩
            · by_cases hnine : k = 9
              · have := hlast hnine
                subst hnine
                omega
              · have hpow : 2 ^ 7 ≤ 2 ^ (64 - 7 * k) := Nat.pow_le_pow_right (by omega) (by omega)
                omega
            · rw [hval, hvalue]

/-- The quick case of a single byte is the loop as well. -/
theorem pbDecodeVarint32_eq (stream : IStream) : pbDecodeVarint32 stream = varint32Loop (7 * 0) 0 stream := by
  cases stream with
  | nil => rfl
  | cons byte stream =>
      obtain ⟨next, hok, hval⟩ := varint32Byte_low (Nat.zero_le 3) (show (0 : UInt32).toNat < 2 ^ (7 * 0) by decide) byte
      have hnext : next = (byte &&& 0x7F).toUInt32 := by
        apply UInt32.toNat_inj.mp
        rw [hval, UInt8.toNat_toUInt32, group_toNat]
        simp
      rw [varint32Loop_step stream hok, hnext, pbDecodeVarint32]
      by_cases hb : 128 ≤ byte.toNat
      · rw [if_neg ((continues_iff byte).mpr hb), if_pos hb]
      · have hsingle : byte.toUInt32 = (byte &&& 0x7F).toUInt32 := by
          apply UInt32.toNat_inj.mp
          rw [UInt8.toNat_toUInt32, UInt8.toNat_toUInt32, group_toNat, Nat.mod_eq_of_lt (by omega)]
        rw [if_pos (by simpa using mt (continues_iff byte).mp hb), if_neg hb, hsingle]

theorem pbDecodeVarint32_ok {stream rest : IStream} {v : UInt32} (h : pbDecodeVarint32 stream = .ok (v, rest)) :
    ∃ n, decode stream = some (n, rest) ∧ stream.length ≤ rest.length + 10 ∧ n < 2 ^ 64 ∧
      v.toNat = n % 2 ^ 32 := by
  rw [pbDecodeVarint32_eq] at h
  obtain ⟨n, hd, hlen, hn, hv⟩ := varint32Loop_ok (fun _ => by decide) h
  exact ⟨n, hd, hlen, hn, by simpa using hv⟩

/-- The number ends in an extension by zeros or by its sign bit. -/
theorem varint32Loop_extension {k : Nat} (hk : 5 ≤ k) {result : UInt32} {stream rest : IStream} {n : Nat}
    (hd : decode stream = some (n, rest)) (hlen : stream.length + k ≤ rest.length + 10)
    (hn : n = 0 ∨ 2 ^ 31 ≤ result.toNat ∧ n + 1 = 2 ^ (64 - 7 * k)) :
    varint32Loop (7 * k) result stream = .ok (result, rest) := by
  induction stream generalizing k n with
  | nil => cases hd
  | cons byte stream ih =>
      have hdl := decode_length hd
      rw [List.length_cons] at hlen hdl
      have hpow : k ≤ 8 → 2 ^ (64 - 7 * k) = 128 * 2 ^ (64 - 7 * (k + 1)) := by
        intro hk8
        rw [← Nat.pow_add 2 7]
        congr 1
        omega
      have htwo : k ≤ 8 → 2 ^ 1 ≤ 2 ^ (64 - 7 * (k + 1)) := fun hk8 =>
        Nat.pow_le_pow_right (by omega) (by omega)
      rcases decode_cases hd with ⟨hb, rfl, rfl⟩ | ⟨hb, m, hm, rfl⟩
      · have hvalid : k ≤ 9 ∧ (byte.toNat % 128 = 0 ∨
            2 ^ 31 ≤ result.toNat ∧ byte.toNat = if k < 9 then 255 else 1) := by
          by_cases hlast : k < 9
          · have := hpow (by omega)
            have := htwo (by omega)
            omega
          · obtain rfl : k = 9 := by omega
            rw [if_neg hlast]
            omega
        rw [varint32Loop_step _ ((varint32Byte_high hk result byte).trans (if_pos hvalid)),
          if_neg (by omega)]
      · have hml := decode_length hm
        have hvalid : k ≤ 9 ∧ (byte.toNat % 128 = 0 ∨
            2 ^ 31 ≤ result.toNat ∧ byte.toNat = if k < 9 then 255 else 1) := by
          rw [if_pos (by omega : k < 9)]
          have := hpow (by omega)
          have := byte.toNat_lt
          omega
        rw [varint32Loop_step stream ((varint32Byte_high hk result byte).trans (if_pos hvalid)), if_pos hb]
        refine ih (by omega) hm (by omega) ?_
        have := hpow (by omega)
        omega

/-- The fifth group is where the number ends and an extension may start. -/
theorem varint32Loop_fifth {result : UInt32} (hr : result.toNat < 2 ^ 28) {stream rest : IStream} {n : Nat}
    (hd : decode stream = some (n, rest)) (hlen : stream.length + 4 ≤ rest.length + 10)
    (hn : n < 16 ∨ 2 ^ 36 - 8 ≤ n ∧ n < 2 ^ 36) : ∃ v, varint32Loop (7 * 4) result stream = .ok (v, rest) := by
  cases stream with
  | nil => cases hd
  | cons byte stream =>
      obtain ⟨hok, hval⟩ := varint32Byte_fifth hr byte
      rw [List.length_cons] at hlen
      rcases decode_cases hd with ⟨hb, rfl, rfl⟩ | ⟨hb, m, hm, rfl⟩
      · rw [varint32Loop_step _ (hok.trans (if_pos (by omega))), if_neg (by omega)]
        exact ⟨_, rfl⟩
      · rw [varint32Loop_step _ (hok.trans (if_pos (by omega))), if_pos hb]
        exact ⟨_, varint32Loop_extension (Nat.le_refl 5) hm (by omega) (by omega)⟩

theorem varint32Loop_complete {k : Nat} (hk : k ≤ 4) {result : UInt32} (hr : result.toNat < 2 ^ (7 * k))
    {stream rest : IStream} {n : Nat} (hd : decode stream = some (n, rest))
    (hlen : stream.length + k ≤ rest.length + 10)
    (hn : result.toNat + n * 2 ^ (7 * k) < 2 ^ 32 ∨
      2 ^ 64 - 2 ^ 31 ≤ result.toNat + n * 2 ^ (7 * k) ∧ result.toNat + n * 2 ^ (7 * k) < 2 ^ 64) :
    ∃ v, varint32Loop (7 * k) result stream = .ok (v, rest) := by
  induction stream generalizing k result n with
  | nil => cases hd
  | cons byte stream ih =>
      by_cases hfifth : k = 4
      · subst hfifth
        exact varint32Loop_fifth hr hd hlen (by omega)
      · obtain ⟨next, hok, hval⟩ := varint32Byte_low (by omega) hr byte
        have hlt := group_lt hr byte
        rw [List.length_cons] at hlen
        rw [varint32Loop_step stream hok]
        rcases decode_cases hd with ⟨hb, rfl, rfl⟩ | ⟨hb, m, hm, rfl⟩
        · rw [if_neg (by omega)]
          exact ⟨next, rfl⟩
        · rw [if_pos hb]
          rw [← add_group, ← Nat.add_assoc, ← hval] at hn
          exact ih (by omega) (by omega) hm (by omega) hn

/-- Every number of 32 bits is accepted, and so is every negative one in its
extension to 64 bits. -/
theorem pbDecodeVarint32_of_decode {stream rest : IStream} {n : Nat} (hd : decode stream = some (n, rest))
    (hlen : stream.length ≤ rest.length + 10) (hn : n < 2 ^ 32 ∨ 2 ^ 64 - 2 ^ 31 ≤ n ∧ n < 2 ^ 64) :
    pbDecodeVarint32 stream = .ok (UInt32.ofNat n, rest) := by
  obtain ⟨v, hv⟩ := varint32Loop_complete (Nat.zero_le 4) (show (0 : UInt32).toNat < 2 ^ (7 * 0) by decide) hd hlen
    (by simpa using hn)
  rw [← pbDecodeVarint32_eq] at hv
  obtain ⟨m, hm, -, -, hval⟩ := pbDecodeVarint32_ok hv
  rw [hd] at hm
  cases hm
  have heq : v = UInt32.ofNat n := by
    apply UInt32.toNat_inj.mp
    rw [hval, UInt32.toNat_ofNat']
  rw [hv, heq]

theorem pbSkipVarint_of_decode {stream rest : IStream} {w : UInt64} (h : pbDecodeVarint stream = .ok (w, rest)) :
    pbSkipVarint stream = .ok ((), rest) := by
  rw [pbSkipVarint_eq, ((pbDecodeVarint_ok _ _ _).mp h).1]

theorem pbDecodeVarint_of_varint32 {stream rest : IStream} {v : UInt32} (h : pbDecodeVarint32 stream = .ok (v, rest)) :
    ∃ w, pbDecodeVarint stream = .ok (w, rest) ∧ v = w.toUInt32 := by
  obtain ⟨n, hd, hlen, hn, hv⟩ := pbDecodeVarint32_ok h
  have hw : (UInt64.ofNat n).toNat = n := UInt64.toNat_ofNat_of_lt' hn
  refine ⟨UInt64.ofNat n, (pbDecodeVarint_ok _ _ _).mpr ⟨by rw [hw]; exact hd, hlen⟩, ?_⟩
  apply UInt32.toNat_inj.mp
  rw [hv, UInt64.toNat_toUInt32, hw]

theorem pbDecodeVarint32_of_varint {stream rest : IStream} {w : UInt64} (h : pbDecodeVarint stream = .ok (w, rest))
    (hw : w.toNat < 2 ^ 32 ∨ 2 ^ 64 - 2 ^ 31 ≤ w.toNat) : pbDecodeVarint32 stream = .ok (w.toUInt32, rest) := by
  obtain ⟨hd, hlen⟩ := (pbDecodeVarint_ok _ _ _).mp h
  have hlt := w.toNat_lt
  have hv : UInt32.ofNat w.toNat = w.toUInt32 := by
    apply UInt32.toNat_inj.mp
    rw [UInt32.toNat_ofNat', UInt64.toNat_toUInt32]
  rw [pbDecodeVarint32_of_decode hd hlen (hw.imp_right fun hle => ⟨hle, hlt⟩), hv]

/-- The three readers of varints agree wherever the narrower one accepts, and it
accepts all numbers of 32 bits with or without their sign extension. -/
theorem varint_readers_agree (stream : IStream) :
    (∀ w rest, pbDecodeVarint stream = .ok (w, rest) → pbSkipVarint stream = .ok ((), rest)) ∧
      (∀ v rest, pbDecodeVarint32 stream = .ok (v, rest) →
        ∃ w, pbDecodeVarint stream = .ok (w, rest) ∧ v = w.toUInt32) ∧
      (∀ w rest, pbDecodeVarint stream = .ok (w, rest) → w.toNat < 2 ^ 32 ∨ 2 ^ 64 - 2 ^ 31 ≤ w.toNat →
        pbDecodeVarint32 stream = .ok (w.toUInt32, rest)) :=
  ⟨fun _ _ => pbSkipVarint_of_decode, fun _ _ => pbDecodeVarint_of_varint32, fun _ _ => pbDecodeVarint32_of_varint⟩

end Readers

section Writer

theorem shift7_toNat (value : UInt32) : (value >>> 7).toNat = value.toNat / 128 := by
  rw [UInt32.toNat_shiftRight]
  exact Nat.shiftRight_eq_div_pow _ 7

theorem low7_toNat (value : UInt32) : (value &&& 0x7F).toUInt8.toNat = value.toNat % 128 := by
  have hand : (value &&& 0x7F).toNat = value.toNat % 128 := by
    rw [UInt32.toNat_and]
    exact Nat.and_two_pow_sub_one_eq_mod value.toNat 7
  rw [UInt32.toNat_toUInt8, hand]
  omega

theorem continued_eq {byte : UInt8} (h : byte.toNat < 128) : byte ||| 0x80 = UInt8.ofNat (byte.toNat + 128) := by
  apply UInt8.toNat_inj.mp
  rw [continued_toNat h, toNat_ofNat (by omega)]

theorem varintHighLoop_eq (passes : Nat) {high : UInt32} {byte : UInt8} (hb : byte.toNat < 128)
    (hh : high.toNat < 128 ^ passes) (buffer : List UInt8) :
    (varintHighLoop passes high byte buffer).1 ++ [(varintHighLoop passes high byte buffer).2] =
      buffer ++ encode (byte.toNat + 128 * high.toNat) := by
  induction passes generalizing high byte buffer with
  | zero =>
      have hzero : high.toNat = 0 := by omega
      rw [varintHighLoop, hzero, Nat.mul_zero, Nat.add_zero, encode_last hb, UInt8.ofNat_toNat]
  | succ passes ih =>
      rw [varintHighLoop]
      by_cases hzero : high = 0
      · subst hzero
        rw [if_neg (by simp), UInt32.toNat_zero, Nat.mul_zero, Nat.add_zero, encode_last hb, UInt8.ofNat_toNat]
      · have hpos : 0 < high.toNat := Nat.pos_of_ne_zero fun h => hzero (UInt32.toNat_inj.mp h)
        have hnext : (high >>> 7).toNat < 128 ^ passes := by
          rw [Nat.pow_succ] at hh
          rw [shift7_toNat]
          omega
        rw [if_pos hzero, ih (by rw [low7_toNat]; omega) hnext, low7_toNat, shift7_toNat, Nat.mod_add_div,
          continued_eq hb, encode_group hb hpos, List.append_assoc]
        rfl

theorem varintLowLoop_zero (passes : Nat) (low : UInt32) (byte : UInt8) (buffer : List UInt8) :
    varintLowLoop 0 passes low byte buffer = varintHighLoop passes low byte buffer := by
  induction passes generalizing low byte buffer with
  | zero => rfl
  | succ passes ih =>
      rw [varintLowLoop, varintHighLoop]
      simp only [ne_eq, not_true_eq_false, or_false]
      split
      · exact ih _ _ _
      · rfl

/-- With a high part all four passes of the first loop are made. -/
theorem varintLowLoop_four {high : UInt32} (hh : high ≠ 0) (low : UInt32) (byte : UInt8) :
    varintLowLoop high 4 low byte [] =
      ([byte ||| 0x80, (low &&& 0x7F).toUInt8 ||| 0x80, (low >>> 7 &&& 0x7F).toUInt8 ||| 0x80,
        (low >>> 7 >>> 7 &&& 0x7F).toUInt8 ||| 0x80], (low >>> 7 >>> 7 >>> 7 &&& 0x7F).toUInt8) := by
  simp [varintLowLoop, hh]

theorem splitGroup_toNat (high : UInt32) (byte : UInt8) (hb : byte.toNat < 16) :
    (byte ||| ((high &&& 0x07) <<< 4).toUInt8).toNat = byte.toNat + 16 * (high.toNat % 8) := by
  have hand : (high &&& 0x07).toNat = high.toNat % 8 := by
    rw [UInt32.toNat_and]
    exact Nat.and_two_pow_sub_one_eq_mod high.toNat 3
  have hshift : ((high &&& 0x07) <<< 4).toUInt8.toNat = high.toNat % 8 * 2 ^ 4 := by
    rw [UInt32.toNat_toUInt8, UInt32.toNat_shiftLeft, hand]
    have h4 : (4 : UInt32).toNat % 32 = 4 := by decide
    rw [h4, Nat.shiftLeft_eq]
    omega
  rw [UInt8.toNat_or, hshift, or_add hb]
  omega

/-- The two halves of the number make one sequence of groups. -/
theorem encode_halves {low high : Nat} (hh : 0 < high) :
    encode (low + 2 ^ 32 * high) =
      [UInt8.ofNat (low % 128 + 128), UInt8.ofNat (low / 128 % 128 + 128),
        UInt8.ofNat (low / 128 / 128 % 128 + 128), UInt8.ofNat (low / 128 / 128 / 128 % 128 + 128)] ++
      encode (low / 128 / 128 / 128 / 128 + 16 * (high % 8) + 128 * (high / 8)) := by
  have hsplit : low + 2 ^ 32 * high = low % 128 + 128 * (low / 128 % 128 + 128 * (low / 128 / 128 % 128 +
      128 * (low / 128 / 128 / 128 % 128 +
        128 * (low / 128 / 128 / 128 / 128 + 16 * (high % 8) + 128 * (high / 8))))) := by omega
  rw [hsplit, encode_group (by omega) (by omega), encode_group (by omega) (by omega),
    encode_group (by omega) (by omega), encode_group (by omega) (by omega)]
  rfl

theorem varint32Bytes_eq (low high : UInt32) : varint32Bytes low high = encode (low.toNat + 2 ^ 32 * high.toNat) := by
  have hlow := low.toNat_lt
  have hhigh := high.toNat_lt
  rw [varint32Bytes]
  by_cases hh : high = 0
  · subst hh
    have hbyte : (low &&& 0x7F).toUInt8.toNat < 128 := by
      rw [low7_toNat]
      omega
    have hrest : (low >>> 7).toNat < 128 ^ 4 := by
      rw [shift7_toNat]
      omega
    have h := varintHighLoop_eq 4 hbyte hrest []
    rw [low7_toNat, shift7_toNat, Nat.mod_add_div] at h
    rw [varintLowLoop_zero]
    dsimp only
    rw [if_neg (by simp)]
    exact h
  · have hpos : 0 < high.toNat := Nat.pos_of_ne_zero fun h => hh (UInt32.toNat_inj.mp h)
    have hrest : (high >>> 3).toNat = high.toNat / 8 := by
      rw [UInt32.toNat_shiftRight]
      exact Nat.shiftRight_eq_div_pow _ 3
    have hbyte : (low >>> 7 >>> 7 >>> 7 >>> 7 &&& 0x7F).toUInt8.toNat = low.toNat / 128 / 128 / 128 / 128 := by
      simp only [low7_toNat, shift7_toNat]
      omega
    have hsplit := splitGroup_toNat high _ (by rw [hbyte]; omega : _ < 16)
    rw [hbyte] at hsplit
    rw [varintLowLoop_four hh]
    dsimp only
    rw [if_pos hh, varintHighLoop_eq 5 (by rw [hsplit]; omega) (by rw [hrest]; omega), hsplit, hrest,
      encode_halves hpos]
    simp only [continued_eq, low7_toNat, shift7_toNat, Nat.mod_lt, Nat.reduceLT]

theorem pbEncodeVarint_eq (value : UInt64) (stream : OStream) :
    pbEncodeVarint value stream = pbWrite (encode value.toNat) stream := by
  have hlt := value.toNat_lt
  rw [pbEncodeVarint]
  by_cases hsmall : value ≤ 0x7F
  · have hle : value.toNat ≤ 127 := UInt64.le_iff_toNat_le.mp hsmall
    have hbyte : value.toUInt8 = UInt8.ofNat value.toNat := by
      apply UInt8.toNat_inj.mp
      rw [UInt64.toNat_toUInt8, toNat_ofNat (by omega)]
      omega
    rw [if_pos hsmall, hbyte, encode_last (by omega)]
  · have hhigh : (value >>> 32).toUInt32.toNat = value.toNat / 2 ^ 32 := by
      rw [UInt64.toNat_toUInt32, UInt64.toNat_shiftRight]
      have h32 : (32 : UInt64).toNat % 64 = 32 := by decide
      rw [h32, Nat.shiftRight_eq_div_pow]
      omega
    rw [if_neg hsmall, pbEncodeVarint32, varint32Bytes_eq, UInt64.toNat_toUInt32, hhigh, Nat.mod_add_div]

theorem pbEncodeTag_eq {wireType : UInt32} (hw : wireType.toNat < 8) (tag : UInt32) (stream : OStream) :
    pbEncodeTag wireType tag stream = pbWrite (encode (8 * tag.toNat + wireType.toNat)) stream := by
  have hlt := tag.toNat_lt
  have h3 : (3 : UInt64).toNat % 64 = 3 := by decide
  have hvalue : (tag.toUInt64 <<< 3 ||| wireType.toUInt64).toNat = 8 * tag.toNat + wireType.toNat := by
    rw [UInt64.toNat_or, UInt64.toNat_shiftLeft, UInt32.toNat_toUInt64, UInt32.toNat_toUInt64, h3,
      Nat.shiftLeft_eq, Nat.mod_eq_of_lt (by omega), Nat.or_comm, or_add (by omega)]
    omega
  rw [pbEncodeTag, pbEncodeVarint_eq, hvalue]

end Writer

end RaceControl.Nanopb
