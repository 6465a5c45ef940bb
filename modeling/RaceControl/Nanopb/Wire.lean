import RaceControl.Nanopb.Capacity
import RaceControl.Nanopb.Varint

namespace RaceControl.Nanopb

open Leb128

/-- What encoding does to each kind of stream: it counts the bytes, writes all of
them, or writes the part of them it has come to when the stream is full. -/
structure Appends (bytes : List UInt8) (encode : OStream → Encoded) : Prop where
  sizing : ∀ stream, stream.sizing = true →
    encode stream = .ok { stream with bytesWritten := stream.bytesWritten + bytes.length }
  room : ∀ stream, stream.sizing = false → stream.bytesWritten + bytes.length ≤ stream.maxSize →
    encode stream = .ok { stream with
      bytesWritten := stream.bytesWritten + bytes.length
      buf := stream.buf ++ bytes }
  full : ∀ stream, stream.sizing = false → stream.bytesWritten ≤ stream.maxSize →
    stream.maxSize < stream.bytesWritten + bytes.length →
    ∃ k, stream.bytesWritten + k ≤ stream.maxSize ∧ encode stream = ⟨some .streamFull, { stream with
      bytesWritten := stream.bytesWritten + k
      buf := stream.buf ++ bytes.take k }⟩

theorem appends_ok : Appends [] Encoded.ok where
  sizing _ _ := rfl
  room stream _ _ := by simp
  full stream _ hle hlt := by
    rw [List.length_nil] at hlt
    omega

theorem pbWrite_appends (bytes : List UInt8) : Appends bytes (pbWrite bytes) where
  sizing stream hs := by simp [pbWrite, hs]
  room stream hs hroom := by
    by_cases hempty : bytes = []
    · simp [pbWrite, hempty]
    · rw [pbWrite, if_pos ⟨hempty, hs⟩, if_neg (by omega)]
  full stream hs hle hlt := by
    have hne : bytes ≠ [] := by
      rintro rfl
      rw [List.length_nil] at hlt
      omega
    refine ⟨0, hle, ?_⟩
    rw [pbWrite, if_pos ⟨hne, hs⟩, if_pos hlt]
    simp

theorem Appends.andThen {first second : List UInt8} {encode next : OStream → Encoded}
    (h : Appends first encode) (hn : Appends second next) :
    Appends (first ++ second) (fun stream => (encode stream).andThen next) where
  sizing stream hs := by
    have hnext := hn.sizing { stream with bytesWritten := stream.bytesWritten + first.length } hs
    rw [h.sizing stream hs]
    simp only [Encoded.andThen, Encoded.ok] at hnext ⊢
    rw [hnext, List.length_append, Nat.add_assoc]
  room stream hs hroom := by
    rw [List.length_append] at hroom
    have hnext := hn.room { stream with
      bytesWritten := stream.bytesWritten + first.length
      buf := stream.buf ++ first } hs (by dsimp only; omega)
    rw [h.room stream hs (by omega)]
    simp only [Encoded.andThen, Encoded.ok] at hnext ⊢
    rw [hnext, List.length_append, Nat.add_assoc, List.append_assoc]
  full stream hs hle hlt := by
    rw [List.length_append] at hlt
    by_cases hfirst : stream.bytesWritten + first.length ≤ stream.maxSize
    · obtain ⟨k, hk, hfull⟩ := hn.full { stream with
        bytesWritten := stream.bytesWritten + first.length
        buf := stream.buf ++ first } hs hfirst (by dsimp only; omega)
      refine ⟨first.length + k, by dsimp only at hk; omega, ?_⟩
      rw [h.room stream hs hfirst]
      simp only [Encoded.andThen, Encoded.ok]
      rw [hfull, List.take_length_add_append, List.append_assoc, Nat.add_assoc]
    · obtain ⟨k, hk, hfull⟩ := h.full stream hs hle (by omega)
      refine ⟨k, hk, ?_⟩
      rw [hfull]
      simp only [Encoded.andThen]
      rw [List.take_append_of_le_length (by omega)]

/-- The window has exactly the size that is written into it. -/
theorem encodeWindow_appends {bytes : List UInt8} {encode : OStream → Encoded} (h : Appends bytes encode) :
    Appends bytes (encodeWindow encode bytes.length) where
  sizing stream hs := by rw [encodeWindow, if_pos hs]
  room stream hs hroom := by
    have hsub := h.room ⟨false, bytes.length, 0, stream.buf⟩ rfl (by simp)
    rw [encodeWindow, if_neg (by simp [hs]), if_neg (by omega), hsub]
    simp [Encoded.ok]
  full stream hs hle hlt := by
    refine ⟨0, hle, ?_⟩
    rw [encodeWindow, if_neg (by simp [hs]), if_pos hlt]
    simp

theorem pbEncodeVarint_appends (value : UInt64) : Appends (encode value.toNat) (pbEncodeVarint value) := by
  have heq : pbEncodeVarint value = pbWrite (encode value.toNat) := funext (pbEncodeVarint_eq value)
  rw [heq]
  exact pbWrite_appends _

theorem pbEncodeTag_appends {wireType : UInt32} (hw : wireType.toNat < 8) (tag : UInt32) :
    Appends (encode (8 * tag.toNat + wireType.toNat)) (pbEncodeTag wireType tag) := by
  have heq : pbEncodeTag wireType tag = pbWrite (encode (8 * tag.toNat + wireType.toNat)) :=
    funext (pbEncodeTag_eq hw tag)
  rw [heq]
  exact pbWrite_appends _

theorem pbEncodeSubmessage_appends {bytes : List UInt8} {encodeSub : OStream → Encoded}
    (h : Appends bytes encodeSub) (hlen : bytes.length < 2 ^ 32) :
    Appends (encode bytes.length ++ bytes) (pbEncodeSubmessage encodeSub) := by
  have hsized := h.sizing pbOStreamSizing rfl
  have hlength : (UInt64.ofNat bytes.length).toNat = bytes.length :=
    UInt64.toNat_ofNat_of_lt' (by rw [UInt64.size]; omega)
  have hvarint := pbEncodeVarint_appends (UInt64.ofNat bytes.length)
  rw [hlength] at hvarint
  have heq : pbEncodeSubmessage encodeSub = fun stream =>
      (pbEncodeVarint (UInt64.ofNat bytes.length) stream).andThen (encodeWindow encodeSub bytes.length) := by
    funext stream
    rw [pbEncodeSubmessage, hsized]
    simp only [Encoded.ok, pbOStreamSizing, Nat.zero_add]
  rw [heq]
  exact hvarint.andThen (encodeWindow_appends h)

end RaceControl.Nanopb
