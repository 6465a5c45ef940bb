import RaceControl.Nanopb.OStream

namespace RaceControl.Nanopb

/-- The outcome of decoding into a destination. A failure leaves behind what was
stored in the destination before the error. -/
inductive Decoded (α : Type)
  | ok (dest : α) (stream : IStream)
  | fail (error : PbError) (dest : α)

def Decoded.map {α β : Type} (f : α → β) : Decoded α → Decoded β
  | .ok dest stream => .ok (f dest) stream
  | .fail error dest => .fail error (f dest)

def Decoded.dest {α : Type} : Decoded α → α
  | .ok dest _ => dest
  | .fail _ dest => dest

def Decoded.ofRead {α β : Type} (read : Read α) (store : α → β) (dest : β) : Decoded β :=
  match read with
  | .ok (a, stream) => .ok (store a) stream
  | .error e => .fail e dest

def Decoded.Within {α : Type} (n : Nat) : Decoded α → Prop
  | .ok _ stream => stream.length ≤ n
  | .fail _ _ => True

theorem within_map {α β : Type} (f : α → β) {n : Nat} {d : Decoded α} (h : d.Within n) :
    (d.map f).Within n := by
  cases d <;> exact h

theorem within_ofRead {α β : Type} {k : Nat} {read : IStream → Read α} (h : Consumes k read)
    (store : α → β) (dest : β) (stream : IStream) :
    (Decoded.ofRead (read stream) store dest).Within stream.length := by
  cases hr : read stream with
  | error e => trivial
  | ok r => exact Nat.le_trans (Nat.le_add_right _ k) (h stream r.1 r.2 hr)

/-- The scalar types of the schema, each with the size it has in a message
struct. Floating point values are kept as their bit patterns. -/
inductive Scalar
  | bool | int32 | int64 | uenum | float | double
  deriving DecidableEq

def Scalar.Value : Scalar → Type
  | .bool => Bool
  | .int32 => Int32
  | .int64 => Int64
  | .uenum => UInt32
  | .float => UInt32
  | .double => UInt64

def Scalar.zero : (t : Scalar) → t.Value
  | .bool => false
  | .int32 => (0 : Int32)
  | .int64 => (0 : Int64)
  | .uenum | .float => (0 : UInt32)
  | .double => (0 : UInt64)

instance (t : Scalar) : DecidableEq t.Value :=
  match t with
  | .bool => inferInstanceAs (DecidableEq Bool)
  | .int32 => inferInstanceAs (DecidableEq Int32)
  | .int64 => inferInstanceAs (DecidableEq Int64)
  | .uenum | .float => inferInstanceAs (DecidableEq UInt32)
  | .double => inferInstanceAs (DecidableEq UInt64)

def Scalar.wireType : Scalar → UInt32
  | .bool | .int32 | .int64 | .uenum => pbWtVarint
  | .float => pbWt32bit
  | .double => pbWt64bit

-- The value is stored in its field before it is compared with what was read.
def pbDecUvarint (dest : UInt32) (stream : IStream) : Decoded UInt32 :=
  match pbDecodeVarint stream with
  | .error e => .fail e dest
  | .ok (value, stream) =>
      let clamped := value.toUInt32
      if clamped.toUInt64 ≠ value then .fail .integerTooLarge clamped
      else .ok clamped stream

def decodeScalar : (t : Scalar) → t.Value → IStream → Decoded t.Value
  | .bool, dest, stream => .ofRead (pbDecodeVarint32 stream) (fun value => value != 0) dest
  | .int32, dest, stream =>
      .ofRead (pbDecodeVarint stream) (fun value => value.toUInt32.toInt32) dest
  | .int64, dest, stream => .ofRead (pbDecodeVarint stream) (fun value => value.toInt64) dest
  | .uenum, dest, stream => pbDecUvarint dest stream
  | .float, dest, stream => .ofRead (pbDecodeFixed32 stream) (fun value => value) dest
  | .double, dest, stream => .ofRead (pbDecodeFixed64 stream) (fun value => value) dest

def encodeScalar : (t : Scalar) → t.Value → OStream → Encoded
  | .bool, value => pbEncodeVarint (bif value then 1 else 0)
  | .int32, value => pbEncodeVarint (Int32.toInt64 value).toUInt64
  | .int64, value => pbEncodeVarint (Int64.toUInt64 value)
  | .uenum, value => pbEncodeVarint (UInt32.toUInt64 value)
  | .float, value => pbEncodeFixed32 value
  | .double, value => pbEncodeFixed64 value

theorem decodeScalar_within (t : Scalar) (dest : t.Value) (stream : IStream) :
    (decodeScalar t dest stream).Within stream.length := by
  cases t with
  | bool => exact within_ofRead pbDecodeVarint32_consumes _ _ _
  | int32 | int64 => exact within_ofRead pbDecodeVarint_consumes _ _ _
  | uenum =>
      simp only [decodeScalar, pbDecUvarint]
      split
      · trivial
      · rename_i value stream' hr
        have hl := pbDecodeVarint_consumes _ _ _ hr
        split
        · trivial
        · exact Nat.le_trans (Nat.le_add_right _ 1) hl
  | float => exact within_ofRead pbDecodeFixed32_consumes _ _ _
  | double => exact within_ofRead pbDecodeFixed64_consumes _ _ _

theorem encodeScalar_stores (t : Scalar) (value : t.Value) : Stores (encodeScalar t value) := by
  cases t with
  | bool | int32 | int64 | uenum => exact pbEncodeVarint_stores _
  | float | double => exact pbWrite_stores _

end RaceControl.Nanopb
