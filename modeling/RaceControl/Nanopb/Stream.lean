import Mathlib.Data.List.Basic

namespace RaceControl.Nanopb

inductive PbError
  | endOfStream | ioError | varintOverflow | invalidWireType | parentStreamTooShort
  | wrongWireType | integerTooLarge | zeroTag | streamFull | submsgSizeChanged
  | invalidDataSize | invalidFieldType | invalidFieldDescriptor
  deriving DecidableEq, Repr

def PbError.errmsg : PbError → String
  | .endOfStream => "end-of-stream"
  | .ioError => "io error"
  | .varintOverflow => "varint overflow"
  | .invalidWireType => "invalid wire_type"
  | .parentStreamTooShort => "parent stream too short"
  | .wrongWireType => "wrong wire type"
  | .integerTooLarge => "integer too large"
  | .zeroTag => "zero tag"
  | .streamFull => "stream full"
  | .submsgSizeChanged => "submsg size changed"
  | .invalidDataSize => "invalid data_size"
  | .invalidFieldType => "invalid field type"
  | .invalidFieldDescriptor => "invalid field descriptor"

theorem errmsg_injective : Function.Injective PbError.errmsg := by
  intro e f h
  cases e <;> cases f <;> first | rfl | exact absurd h (by decide)

/-- What is left to read of a buffer stream: the next bytes_left bytes. -/
abbrev IStream := List UInt8

abbrev Read (α : Type) := Except PbError (α × IStream)

def pbRead (count : Nat) (stream : IStream) : Read (List UInt8) :=
  if stream.length < count then .error .endOfStream
  else .ok (stream.take count, stream.drop count)

def varint32Byte (bitpos : Nat) (result : UInt32) (byte : UInt8) : Except PbError UInt32 :=
  if 32 ≤ bitpos then
    let signExtension : UInt8 := if bitpos < 63 then 0xFF else 0x01
    let validExtension := byte &&& 0x7F == 0 || (result >>> 31 != 0 && byte == signExtension)
    if 64 ≤ bitpos || !validExtension then .error .varintOverflow else .ok result
  else if bitpos = 28 then
    if byte &&& 0x70 ≠ 0 ∧ byte &&& 0x78 ≠ 0x78 then .error .varintOverflow
    else .ok (result ||| (byte &&& 0x0F).toUInt32 <<< UInt32.ofNat bitpos)
  else .ok (result ||| (byte &&& 0x7F).toUInt32 <<< UInt32.ofNat bitpos)

def varint32Loop (bitpos : Nat) (result : UInt32) : IStream → Read UInt32
  | [] => .error .endOfStream
  | byte :: stream =>
      match varint32Byte bitpos result byte with
      | .error e => .error e
      | .ok result =>
          if byte &&& 0x80 ≠ 0 then varint32Loop (bitpos + 7) result stream
          else .ok (result, stream)

def pbDecodeVarint32 : IStream → Read UInt32
  | [] => .error .endOfStream
  | byte :: stream =>
      if byte &&& 0x80 = 0 then .ok (byte.toUInt32, stream)
      else varint32Loop 7 (byte &&& 0x7F).toUInt32 stream

def varintLoop (bitpos : Nat) (result : UInt64) : IStream → Read UInt64
  | [] => .error .endOfStream
  | byte :: stream =>
      if 63 ≤ bitpos ∧ byte &&& 0xFE ≠ 0 then .error .varintOverflow
      else
        let result := result ||| (byte &&& 0x7F).toUInt64 <<< UInt64.ofNat bitpos
        if byte &&& 0x80 ≠ 0 then varintLoop (bitpos + 7) result stream
        else .ok (result, stream)

def pbDecodeVarint (stream : IStream) : Read UInt64 := varintLoop 0 0 stream

def pbSkipVarint : IStream → Read Unit
  | [] => .error .endOfStream
  | byte :: stream => if byte &&& 0x80 ≠ 0 then pbSkipVarint stream else .ok ((), stream)

def pbSkipString (stream : IStream) : Read Unit :=
  match pbDecodeVarint32 stream with
  | .error e => .error e
  | .ok (length, stream) => (pbRead length.toNat stream).map (fun r => ((), r.2))

def pbWtVarint : UInt32 := 0
def pbWt64bit : UInt32 := 1
def pbWtString : UInt32 := 2
def pbWt32bit : UInt32 := 5

def pbSkipField (wireType : UInt32) (stream : IStream) : Read Unit :=
  if wireType = pbWtVarint then pbSkipVarint stream
  else if wireType = pbWt64bit then (pbRead 8 stream).map (fun r => ((), r.2))
  else if wireType = pbWtString then pbSkipString stream
  else if wireType = pbWt32bit then (pbRead 4 stream).map (fun r => ((), r.2))
  else .error .invalidWireType

structure Tag where
  wireType : UInt32
  tag : UInt32

-- The caller has tested for the end of the stream.
def pbDecodeTag (stream : IStream) : Read Tag :=
  match pbDecodeVarint32 stream with
  | .error e => .error e
  | .ok (temp, stream) => .ok (⟨temp &&& 7, temp >>> 3⟩, stream)

def pbMakeStringSubstream (stream : IStream) : Read IStream :=
  match pbDecodeVarint32 stream with
  | .error e => .error e
  | .ok (size, stream) =>
      if stream.length < size.toNat then .error .parentStreamTooShort
      else .ok (stream.take size.toNat, stream.drop size.toNat)

def littleEndian : List UInt8 → Nat
  | [] => 0
  | byte :: bytes => byte.toNat + 256 * littleEndian bytes

def pbDecodeFixed32 (stream : IStream) : Read UInt32 :=
  (pbRead 4 stream).map (fun r => (UInt32.ofNat (littleEndian r.1), r.2))

def pbDecodeFixed64 (stream : IStream) : Read UInt64 :=
  (pbRead 8 stream).map (fun r => (UInt64.ofNat (littleEndian r.1), r.2))

/-- A successful read takes at least k bytes off the stream. -/
def Consumes {α : Type} (k : Nat) (read : IStream → Read α) : Prop :=
  ∀ stream a rest, read stream = .ok (a, rest) → rest.length + k ≤ stream.length

theorem Consumes.mono {α : Type} {j k : Nat} {read : IStream → Read α}
    (h : Consumes k read) (hj : j ≤ k) : Consumes j read := by
  intro stream a rest hr
  have := h stream a rest hr
  omega

theorem Consumes.map {α β : Type} {k : Nat} {read : IStream → Read α}
    (h : Consumes k read) (f : α → β) :
    Consumes k (fun stream => (read stream).map (fun r => (f r.1, r.2))) := by
  intro stream b rest hr
  cases hd : read stream with
  | error e => simp [hd, Except.map] at hr
  | ok r =>
      simp only [hd, Except.map, Except.ok.injEq, Prod.mk.injEq] at hr
      rw [← hr.2]
      exact h stream r.1 r.2 hd

theorem pbRead_consumes (count : Nat) : Consumes count (pbRead count) := by
  intro stream a rest h
  rw [pbRead] at h
  split at h
  · cases h
  · cases h
    simp only [List.length_drop]
    omega

theorem varint32Loop_consumes (bitpos : Nat) (result : UInt32) :
    Consumes 1 (varint32Loop bitpos result) := by
  intro stream a rest h
  induction stream generalizing bitpos result with
  | nil => cases h
  | cons byte stream ih =>
      rw [varint32Loop] at h
      split at h
      · cases h
      · split at h
        · have := ih _ _ h
          simp only [List.length_cons]
          omega
        · cases h
          simp

theorem pbDecodeVarint32_consumes : Consumes 1 pbDecodeVarint32 := by
  intro stream a rest h
  cases stream with
  | nil => cases h
  | cons byte stream =>
      rw [pbDecodeVarint32] at h
      split at h
      · cases h
        simp
      · have := varint32Loop_consumes _ _ _ _ _ h
        simp only [List.length_cons]
        omega

theorem varintLoop_consumes (bitpos : Nat) (result : UInt64) :
    Consumes 1 (varintLoop bitpos result) := by
  intro stream a rest h
  induction stream generalizing bitpos result with
  | nil => cases h
  | cons byte stream ih =>
      rw [varintLoop] at h
      split at h
      · cases h
      · dsimp only at h
        split at h
        · have := ih _ _ h
          simp only [List.length_cons]
          omega
        · cases h
          simp

theorem pbDecodeVarint_consumes : Consumes 1 pbDecodeVarint := varintLoop_consumes 0 0

theorem pbSkipVarint_consumes : Consumes 1 pbSkipVarint := by
  intro stream a rest h
  induction stream with
  | nil => cases h
  | cons byte stream ih =>
      rw [pbSkipVarint] at h
      split at h
      · have := ih h
        simp only [List.length_cons]
        omega
      · cases h
        simp

theorem pbSkipString_consumes : Consumes 1 pbSkipString := by
  intro stream a rest h
  rw [pbSkipString] at h
  split at h
  · cases h
  · rename_i length stream' hd
    have hl := pbDecodeVarint32_consumes _ _ _ hd
    have hr := (pbRead_consumes length.toNat).map (fun _ => ()) _ _ _ h
    omega

theorem pbSkipField_consumes (wireType : UInt32) : Consumes 1 (pbSkipField wireType) := by
  intro stream a rest h
  rw [pbSkipField] at h
  split at h
  · exact pbSkipVarint_consumes _ _ _ h
  · split at h
    · exact ((pbRead_consumes 8).mono (by omega)).map (fun _ => ()) _ _ _ h
    · split at h
      · exact pbSkipString_consumes _ _ _ h
      · split at h
        · exact ((pbRead_consumes 4).mono (by omega)).map (fun _ => ()) _ _ _ h
        · cases h

theorem pbDecodeTag_consumes : Consumes 1 pbDecodeTag := by
  intro stream a rest h
  rw [pbDecodeTag] at h
  split at h
  · cases h
  · rename_i temp stream' hd
    cases h
    exact pbDecodeVarint32_consumes _ _ _ hd

theorem pbDecodeFixed32_consumes : Consumes 1 pbDecodeFixed32 :=
  ((pbRead_consumes 4).mono (by omega : 1 ≤ 4)).map (fun bytes => UInt32.ofNat (littleEndian bytes))

theorem pbDecodeFixed64_consumes : Consumes 1 pbDecodeFixed64 :=
  ((pbRead_consumes 8).mono (by omega : 1 ≤ 8)).map (fun bytes => UInt64.ofNat (littleEndian bytes))

end RaceControl.Nanopb
