import RaceControl.Nanopb.Codec
import RaceControl.Nanopb.StructView

namespace RaceControl.Nanopb

open Record Struct

/-- The macros PB_LTYPE_MAP. -/
def Scalar.ltype : Scalar → PbType
  | .bool => pbLtypeBool
  | .int32 => pbLtypeVarint
  | .int64 => pbLtypeVarint
  | .uenum => pbLtypeUvarint
  | .float => pbLtypeFixed32
  | .double => pbLtypeFixed64

def Scalar.size : Scalar → Nat
  | .bool => 1
  | .int32 => 4
  | .int64 => 8
  | .uenum => 4
  | .float => 4
  | .double => 8

/-- The value that the bytes of a field stand for. -/
def Scalar.load : (t : Scalar) → Mem → Int → t.Value
  | .bool, mem, a => safeReadBool mem a
  | .int32, mem, a => (UInt32.ofNat (littleEndian (read mem a 4))).toInt32
  | .int64, mem, a => (UInt64.ofNat (littleEndian (read mem a 8))).toInt64
  | .uenum, mem, a => UInt32.ofNat (littleEndian (read mem a 4))
  | .float, mem, a => UInt32.ofNat (littleEndian (read mem a 4))
  | .double, mem, a => UInt64.ofNat (littleEndian (read mem a 8))

namespace Struct

variable {δ σ τ : Type} {schema : Schema δ} {view : Mem → Int → σ} {depth : Nat} {values : FieldValues δ}

section Loads

theorem load_congr (t : Scalar) {mem mem' : Mem} {a : Int} (h : ∀ x, a ≤ x → x < a + t.size → mem' x = mem x) :
    t.load mem' a = t.load mem a := by
  cases t with
  | bool => exact congrArg (fun cells : List UInt8 => cells.any (· != 0)) (read_congr h)
  | int32 => exact congrArg (fun cells => (UInt32.ofNat (littleEndian cells)).toInt32) (read_congr h)
  | int64 => exact congrArg (fun cells => (UInt64.ofNat (littleEndian cells)).toInt64) (read_congr h)
  | uenum | float => exact congrArg (fun cells => UInt32.ofNat (littleEndian cells)) (read_congr h)
  | double => exact congrArg (fun cells => UInt64.ofNat (littleEndian cells)) (read_congr h)

theorem load_zero (t : Scalar) {mem : Mem} {a : Int} (h : ∀ x, a ≤ x → x < a + t.size → mem x = 0) :
    t.load mem a = t.zero := by
  cases t with
  | bool => exact congrArg (fun cells : List UInt8 => cells.any (· != 0)) (read_replicate h)
  | int32 => exact congrArg (fun cells => (UInt32.ofNat (littleEndian cells)).toInt32) (read_replicate h)
  | int64 => exact congrArg (fun cells => (UInt64.ofNat (littleEndian cells)).toInt64) (read_replicate h)
  | uenum | float => exact congrArg (fun cells => UInt32.ofNat (littleEndian cells)) (read_replicate h)
  | double => exact congrArg (fun cells => UInt64.ofNat (littleEndian cells)) (read_replicate h)

theorem read_littleEndian (mem : Mem) (a : Int) (k n : Nat) :
    littleEndian (read (write mem a (littleEndianBytes k n)) a k) = n % 256 ^ k := by
  have hread := read_write mem a (littleEndianBytes k n)
  rw [littleEndianBytes_length] at hread
  rw [hread, littleEndian_mod]

theorem word_stored (mem : Mem) (a : Int) (n : Nat) :
    UInt32.ofNat (littleEndian (read (write mem a (littleEndianBytes 4 n)) a 4)) = UInt32.ofNat n := by
  rw [read_littleEndian]
  apply UInt32.toNat_inj.mp
  rw [UInt32.toNat_ofNat', UInt32.toNat_ofNat']
  omega

theorem long_stored (mem : Mem) (a : Int) (n : Nat) :
    UInt64.ofNat (littleEndian (read (write mem a (littleEndianBytes 8 n)) a 8)) = UInt64.ofNat n := by
  rw [read_littleEndian]
  apply UInt64.toNat_inj.mp
  rw [UInt64.toNat_ofNat', UInt64.toNat_ofNat']
  omega

theorem bool_stored (mem : Mem) (a : Int) (b : UInt8) : safeReadBool (write mem a [b]) a = (b != 0) := by
  have hread : read (write mem a [b]) a 1 = [b] := read_write mem a [b]
  rw [safeReadBool, hread]
  simp

theorem littleEndian_zero (cells : List UInt8) : littleEndian cells = 0 ↔ ∀ b ∈ cells, b = 0 := by
  induction cells with
  | nil => simp [littleEndian]
  | cons b cells ih =>
      have hb : b.toNat = 0 ↔ b = 0 := UInt8.toNat_inj (b := 0)
      rw [littleEndian, List.forall_mem_cons, ← ih, ← hb]
      omega

theorem littleEndian_lt (cells : List UInt8) : littleEndian cells < 256 ^ cells.length := by
  induction cells with
  | nil => simp [littleEndian]
  | cons b cells ih =>
      have hb := b.toNat_lt
      rw [littleEndian, List.length_cons, Nat.pow_succ]
      omega

theorem word_eq_zero {n : Nat} (h : n < 256 ^ 4) : UInt32.ofNat n = 0 ↔ n = 0 := by
  rw [← UInt32.toNat_inj, UInt32.toNat_ofNat', UInt32.toNat_zero]
  omega

theorem long_eq_zero {n : Nat} (h : n < 256 ^ 8) : UInt64.ofNat n = 0 ↔ n = 0 := by
  rw [← UInt64.toNat_inj, UInt64.toNat_ofNat', UInt64.toNat_zero]
  omega

/-- A value is zero when all its bytes are. -/
theorem load_eq_zero (t : Scalar) (mem : Mem) (a : Int) :
    t.load mem a = t.zero ↔ ∀ b ∈ read mem a t.size, b = 0 := by
  have hlt := littleEndian_lt (read mem a t.size)
  rw [read_length] at hlt
  cases t with
  | bool =>
      have hany : safeReadBool mem a = false ↔ ∀ b ∈ read mem a 1, b = 0 := by simp [safeReadBool]
      exact hany
  | int32 =>
      rw [← littleEndian_zero, ← word_eq_zero hlt]
      exact ⟨fun h => congrArg Int32.toUInt32 h, fun h => congrArg UInt32.toInt32 h⟩
  | int64 =>
      rw [← littleEndian_zero, ← long_eq_zero hlt]
      exact ⟨fun h => congrArg Int64.toUInt64 h, fun h => congrArg UInt64.toInt64 h⟩
  | uenum | float =>
      rw [← littleEndian_zero, ← word_eq_zero hlt]
      rfl
  | double =>
      rw [← littleEndian_zero, ← long_eq_zero hlt]
      rfl

end Loads

/-- A static field of a rule and a type that lies at an offset of its struct. -/
structure Kind (htype ltype : PbType) (offset size : Nat) (submsg : Option δ) (values : FieldValues δ) : Prop where
  atype : pbAtype values.type = pbAtypeStatic
  htype : pbHtype values.type = htype
  ltype : pbLtype values.type = ltype
  pData : values.pData = .member offset
  dataSize : values.dataSize.toNat = size
  submsgDesc : values.submsgDesc = submsg

theorem dataAt_kind {htype ltype : PbType} {offset size : Nat} {submsg : Option δ}
    (h : Kind htype ltype offset size submsg values) (a : Int) : dataAt a values = a + offset := by
  rw [dataAt, h.pData, address]

theorem decodeField_static {htype ltype : PbType} {offset size : Nat} {submsg : Option δ}
    (h : Kind htype ltype offset size submsg values) {descs : δ → MsgDesc δ} {defaults : Defaults δ}
    {inner : DecodeInner δ} (a : Int) (wireType : UInt32) (mem : Mem) (stream : IStream) :
    decodeField descs defaults inner a values wireType mem stream =
      decodeStaticField descs defaults inner a values wireType mem stream := by
  rw [decodeField, if_pos h.atype]

section Singular

variable {t : Scalar} {offset : Nat} {get : σ → t.Value} {set : t.Value → σ → σ}

theorem map_ofRead {α : Type} {read : Read α} {store : α → Mem} {mem : Mem} {a : Int} {value : α → t.Value}
    (hset : set (get (view mem a)) (view mem a) = view mem a)
    (hstore : ∀ v, view (store v) a = set (value v) (view mem a)) :
    (Decoded.ofRead read store mem).map (view · a) =
      (Decoded.ofRead read value (get (view mem a))).map (fun v => set v (view mem a)) := by
  cases read with
  | error e => exact congrArg (Decoded.fail e) hset.symm
  | ok r => exact congrArg (Decoded.ok · r.2) (hstore r.1)

/-- What a number becomes in a signed field. -/
def signedOf (size : Nat) (value : UInt64) : Int64 :=
  if size = 8 then value.toInt64 else value.toUInt32.toInt32.toInt64

theorem pbDecVarint_signed {size : Nat} (hsize : size = 4 ∨ size = 8)
    (h : Kind pbHtypeOptional pbLtypeVarint offset size none values) (mem : Mem) (a : Int) (stream : IStream) :
    pbDecVarint a values mem stream = .ofRead (pbDecodeVarint stream)
      (fun value => write mem (a + offset) (littleEndianBytes size (signedOf size value).toUInt64.toNat)) mem := by
  rw [pbDecVarint, dataAt_kind h, h.ltype, h.dataSize]
  cases pbDecodeVarint stream with
  | error e => rfl
  | ok r =>
      obtain ⟨value, rest⟩ := r
      have hcast : castSigned (signedOf size value) size = some (signedOf size value) := by
        rcases hsize with rfl | rfl
        · exact congrArg (fun v : Int32 => some v.toInt64) (Int32.toInt32_toInt64 _)
        · rfl
      have hvarint : ¬ pbLtypeVarint = pbLtypeUvarint := by decide
      dsimp only
      rw [if_neg hvarint, ← signedOf, hcast]
      exact if_neg fun hne => hne rfl

theorem int32_loaded (mem : Mem) (a : Int) (value : UInt64) :
    Scalar.load .int32 (write mem a (littleEndianBytes 4 (signedOf 4 value).toUInt64.toNat)) a =
      value.toUInt32.toInt32 := by
  have hword : (UInt32.ofNat (signedOf 4 value).toUInt64.toNat).toInt32 = value.toUInt32.toInt32 :=
    int32_truncated value.toUInt32.toInt32
  rw [Scalar.load, word_stored, hword]

theorem int64_loaded (mem : Mem) (a : Int) (value : UInt64) :
    Scalar.load .int64 (write mem a (littleEndianBytes 8 (signedOf 8 value).toUInt64.toNat)) a = value.toInt64 := by
  have hlong : (UInt64.ofNat (signedOf 8 value).toUInt64.toNat).toInt64 = value.toInt64 :=
    congrArg UInt64.toInt64 UInt64.ofNat_toNat
  rw [Scalar.load, long_stored, hlong]

theorem pbDecVarint_uenum {get : σ → UInt32} {set : UInt32 → σ → σ}
    (h : Kind pbHtypeOptional pbLtypeUvarint offset 4 none values)
    (hpiece : Piece view (Span offset 4) (fun mem a => UInt32.ofNat (littleEndian (read mem (a + offset) 4))) get set)
    (mem : Mem) (a : Int) (stream : IStream) :
    (pbDecVarint a values mem stream).map (view · a) =
      (pbDecUvarint (get (view mem a)) stream).map (fun v => set v (view mem a)) := by
  rw [pbDecVarint, dataAt_kind h, h.ltype, h.dataSize, pbDecUvarint]
  cases pbDecodeVarint stream with
  | error e => exact congrArg (Decoded.fail e) (hpiece.set_get mem a).symm
  | ok r =>
      obtain ⟨value, rest⟩ := r
      have hstored : view (write mem (a + offset) (littleEndianBytes 4 value.toUInt32.toUInt64.toNat)) a =
          set value.toUInt32 (view mem a) := by
        have hword : UInt32.ofNat value.toUInt32.toUInt64.toNat = value.toUInt32 := by
          rw [UInt32.toNat_toUInt64, UInt32.ofNat_toNat]
        have hframe := frame_write mem (a + offset) (littleEndianBytes 4 value.toUInt32.toUInt64.toNat)
        rw [littleEndianBytes_length] at hframe
        rw [hpiece.frame hframe, word_stored, hword]
      have hcast : castUnsigned value 4 = some value.toUInt32.toUInt64 := rfl
      dsimp only
      rw [if_pos rfl, hcast]
      dsimp only
      split
      · exact congrArg (Decoded.fail .integerTooLarge) hstored
      · exact congrArg (Decoded.ok · rest) hstored

/-- The function that decode_basic_field calls for a scalar type. -/
def storeScalar (t : Scalar) (message : Int) (field : FieldValues δ) (mem : Mem) (stream : IStream) : Decoded Mem :=
  match t with
  | .bool => pbDecBool message field mem stream
  | .int32 | .int64 | .uenum => pbDecVarint message field mem stream
  | .float => decFixed32 message field mem stream
  | .double => decFixed64 message field mem stream

theorem decodeBasicField_scalar {inner : DecodeInner δ} (h : pbLtype values.type = t.ltype) (wireType : UInt32)
    (mem : Mem) (a : Int) (stream : IStream) :
    decodeBasicField inner a values wireType mem stream =
      if wireType ≠ t.wireType then .fail .wrongWireType mem else storeScalar t a values mem stream := by
  rw [decodeBasicField, h]
  cases t <;> rfl

/-- What is decoded for a scalar field is stored at its bytes. -/
theorem storeScalar_view (h : Kind pbHtypeOptional t.ltype offset t.size none values)
    (hpiece : Piece view (Span offset t.size) (fun mem a => t.load mem (a + offset)) get set)
    (mem : Mem) (a : Int) (stream : IStream) :
    (storeScalar t a values mem stream).map (view · a) =
      (decodeScalar t (get (view mem a)) stream).map (fun value => set value (view mem a)) := by
  have hkeep := hpiece.set_get mem a
  have hwrite : ∀ (cells : List UInt8) (v : t.Value), cells.length = t.size →
      t.load (write mem (a + offset) cells) (a + offset) = v →
      view (write mem (a + offset) cells) a = set v (view mem a) := by
    intro cells v hlen hload
    have hframe := frame_write mem (a + offset) cells
    rw [hlen] at hframe
    rw [hpiece.frame hframe, hload]
  cases t with
  | bool =>
      rw [storeScalar, pbDecBool, dataAt_kind h]
      refine map_ofRead hkeep fun v => hwrite _ (v != 0) rfl ?_
      rw [Scalar.load, bool_stored]
      cases v != 0 <;> rfl
  | int32 =>
      rw [storeScalar, pbDecVarint_signed (.inl rfl) h]
      exact map_ofRead hkeep fun v => hwrite _ _ (littleEndianBytes_length _ _) (int32_loaded _ _ v)
  | int64 =>
      rw [storeScalar, pbDecVarint_signed (.inr rfl) h]
      exact map_ofRead hkeep fun v => hwrite _ _ (littleEndianBytes_length _ _) (int64_loaded _ _ v)
  | uenum => exact pbDecVarint_uenum h hpiece mem a stream
  | float =>
      rw [storeScalar, decFixed32, dataAt_kind h]
      refine map_ofRead hkeep fun v => hwrite _ v (littleEndianBytes_length _ _) ?_
      rw [Scalar.load, word_stored, UInt32.ofNat_toNat]
  | double =>
      rw [storeScalar, decFixed64, dataAt_kind h]
      refine map_ofRead hkeep fun v => hwrite _ v (littleEndianBytes_length _ _) ?_
      rw [Scalar.load, long_stored, UInt64.ofNat_toNat]

theorem decodeField_singular {descs : δ → MsgDesc δ} {defaults : Defaults δ} {inner : DecodeInner δ}
    (h : Kind pbHtypeOptional t.ltype offset t.size none values) (hsize : values.pSize = .null) (a : Int)
    (wireType : UInt32) (mem : Mem) (stream : IStream) :
    decodeField descs defaults inner a values wireType mem stream =
      decodeBasicField inner a values wireType mem stream := by
  have hrequired : ¬ pbHtypeOptional = pbHtypeRequired := by decide
  rw [decodeField_static h, decodeStaticField, h.htype, if_neg hrequired, if_pos rfl, if_pos hsize]

theorem default_singular {descs : δ → MsgDesc δ} {defaults : Defaults δ}
    (h : Kind pbHtypeOptional t.ltype offset t.size none values) (hsize : values.pSize = .null)
    (hpiece : Piece view (Span offset t.size) (fun mem a => t.load mem (a + offset)) get set) (mem : Mem) (a : Int) :
    view (pbFieldSetToDefault descs defaults a values mem) a = set t.zero (view mem a) := by
  have hset : pbFieldSetToDefault descs defaults a values mem =
      write mem (a + offset) (List.replicate t.size 0) := by
    have hflag : ¬ (pbHtypeOptional = pbHtypeOptional ∧ values.pSize ≠ .null) := fun hand => hand.2 hsize
    have hcount : ¬ (pbHtypeOptional = pbHtypeRepeated ∨ pbHtypeOptional = pbHtypeOneof) := by decide
    rw [pbFieldSetToDefault, h.htype, h.submsgDesc, h.dataSize, dataAt_kind h]
    dsimp only
    rw [if_neg hflag, if_neg hcount]
  have hframe := frame_write mem (a + offset) (List.replicate t.size 0)
  rw [List.length_replicate] at hframe
  rw [hset, hpiece.frame hframe, load_zero t fun x hle hlt => write_replicate mem _ _ 0 hle hlt]

theorem pbEncodeTagForField_scalar (h : pbLtype values.type = t.ltype) (stream : OStream) :
    pbEncodeTagForField values stream = pbEncodeTag t.wireType values.tag.toUInt32 stream := by
  rw [pbEncodeTagForField, h]
  cases t <;> rfl

theorem encodeBasicField_scalar {inner : EncodeInner δ}
    (h : Kind pbHtypeOptional t.ltype offset t.size none values) (mem : Mem) (a : Int) (stream : OStream) :
    encodeBasicField inner a values mem stream =
      encodeTagged t.wireType values.tag.toUInt32 (encodeScalar t (t.load mem (a + offset))) stream := by
  rw [encodeBasicField, pbEncodeTagForField_scalar h.ltype, encodeTagged]
  congr 1
  funext stream
  rw [h.ltype]
  cases t with
  | bool =>
      refine Eq.trans (b := pbEncBool a values mem stream) rfl ?_
      rw [pbEncBool, dataAt_kind h, encodeScalar, Scalar.load]
      cases safeReadBool mem (a + offset) <;> rfl
  | int32 =>
      have hvarint : ¬ Scalar.ltype .int32 = pbLtypeUvarint := by decide
      have hload : ∀ n, loadSigned n (Scalar.size .int32) = some (UInt32.ofNat n).toInt32.toInt64 := fun _ => rfl
      refine Eq.trans (b := pbEncVarint a values mem stream) rfl ?_
      rw [pbEncVarint, dataAt_kind h, h.ltype, h.dataSize, if_neg hvarint, hload]
      rfl
  | int64 =>
      have hvarint : ¬ Scalar.ltype .int64 = pbLtypeUvarint := by decide
      have hload : ∀ n, loadSigned n (Scalar.size .int64) = some (UInt64.ofNat n).toInt64 := fun _ => rfl
      refine Eq.trans (b := pbEncVarint a values mem stream) rfl ?_
      rw [pbEncVarint, dataAt_kind h, h.ltype, h.dataSize, if_neg hvarint, hload]
      rfl
  | uenum =>
      have huvarint : Scalar.ltype .uenum = pbLtypeUvarint := rfl
      have hload : ∀ n, loadUnsigned n (Scalar.size .uenum) = some (UInt32.ofNat n).toUInt64 := fun _ => rfl
      refine Eq.trans (b := pbEncVarint a values mem stream) rfl ?_
      rw [pbEncVarint, dataAt_kind h, h.ltype, h.dataSize, if_pos huvarint, hload]
      rfl
  | float =>
      have hfour : Scalar.size .float = 4 := rfl
      refine Eq.trans (b := pbEncFixed a values mem stream) rfl ?_
      rw [pbEncFixed, dataAt_kind h, h.dataSize, if_pos hfour]
      rfl
  | double =>
      have hfour : ¬ Scalar.size .double = 4 := by decide
      have height : Scalar.size .double = 8 := rfl
      refine Eq.trans (b := pbEncFixed a values mem stream) rfl ?_
      rw [pbEncFixed, dataAt_kind h, h.dataSize, if_neg hfour, if_pos height]
      rfl

theorem checkDefault_scalar (h : Kind pbHtypeOptional t.ltype offset t.size none values) (mem : Mem) (a : Int) :
    pbCheckProto3DefaultValue a values mem = true ↔ t.load mem (a + offset) = t.zero := by
  rw [load_eq_zero, pbCheckProto3DefaultValue, h.dataSize, dataAt_kind h, List.all_eq_true]
  simp only [beq_iff_eq]

theorem handles_singular {tag : UInt32} (htag : values.tag.toUInt32 = tag)
    (h : Kind pbHtypeOptional t.ltype offset t.size none values) (hsize : values.pSize = .null)
    (hpiece : Piece view (Span offset t.size) (fun mem a => t.load mem (a + offset)) get set) :
    Handles schema depth view values (singular tag t get set) where
  default mem a := default_singular h hsize hpiece mem a
  decode passes wireType mem a stream _ := by
    rw [decodeField_singular h hsize, decodeBasicField_scalar h.ltype, singular]
    dsimp only
    split
    · rfl
    · exact storeScalar_view h hpiece mem a stream
  encode mem a stream := by
    have honeof : ¬ pbHtypeOptional = pbHtypeOneof := by decide
    have hcheck := checkDefault_scalar h mem a
    rw [encodeField, h.htype, if_neg honeof, if_pos rfl, if_neg (not_not.mpr hsize), encodeBasicField_scalar h, htag,
      singular]
    dsimp only
    rw [hpiece.reads]
    cases hzero : pbCheckProto3DefaultValue a values mem with
    | true => rw [if_pos (hcheck.mp hzero), if_neg (by decide)]
    | false =>
        have hne : ¬ t.load mem (a + offset) = t.zero := fun heq => Bool.false_ne_true (hzero ▸ hcheck.mpr heq)
        rw [if_neg hne, if_pos (by decide)]

end Singular

section Submessage

variable {sub : δ} {viewSub : Mem → Int → τ} {zero : τ} {fields : List (PbField τ)} {nesting offset : Nat}
  {htype : PbType}

theorem innerLoop_frame (schema : Schema δ) (depth passes : Nat) (sub : δ) (a : Int) (mem : Mem) (stream : IStream) :
    Frame a (schema.size sub) mem (innerLoop schema depth passes sub a mem stream).dest :=
  decodeLoop_frame depth passes sub a _ (rests_begin (schema.bindable sub)) 0 mem stream

/-- A submessage is decoded inside its own struct. -/
theorem pbDecSubmessage_inside (schema : Schema δ) (depth passes : Nat)
    (h : Kind htype pbLtypeSubmessage offset (schema.size sub) (some sub) values) (mem : Mem) (a : Int)
    (stream : IStream) :
    Frame (a + offset) (schema.size sub) mem
      (pbDecSubmessage (innerLoop schema depth passes) a values mem stream).dest := by
  have hstored : Frame (dataAt a values) (schema.size sub) mem
      (pbDecSubmessage (innerLoop schema depth passes) a values mem stream).dest :=
    pbDecSubmessage_stored h.submsgDesc (fun mem stream => innerLoop_frame schema depth passes sub _ mem stream) mem stream
  rwa [dataAt_kind h] at hstored

theorem decodeBasicField_submsg {size : Nat} {inner : DecodeInner δ}
    (h : Kind htype pbLtypeSubmessage offset size (some sub) values) (a : Int) (wireType : UInt32) (mem : Mem)
    (stream : IStream) :
    decodeBasicField inner a values wireType mem stream =
      if wireType ≠ pbWtString then .fail .wrongWireType mem else pbDecSubmessage inner a values mem stream := by
  have hsubmsg : pbLtypeIsSubmsg values.type = true := by
    rw [pbLtypeIsSubmsg, h.ltype]
    decide
  rw [decodeBasicField, h.ltype, hsubmsg]
  rfl

theorem substream_le {stream substream rest : IStream} (h : pbMakeStringSubstream stream = .ok (substream, rest)) :
    substream.length ≤ stream.length := by
  rw [pbMakeStringSubstream] at h
  split at h
  · cases h
  · rename_i size stream' hread
    have hconsumed := pbDecodeVarint32_consumes _ _ _ hread
    split at h
    · cases h
    · cases h
      rw [List.length_take]
      omega

/-- A submessage is decoded into the value its bytes stand for. -/
theorem pbDecSubmessage_view (hsub : Realizes schema nesting sub viewSub zero fields) (hdepth : nesting ≤ depth)
    (h : Kind htype pbLtypeSubmessage offset (schema.size sub) (some sub) values) {passes : Nat} (mem : Mem) (a : Int)
    {stream : IStream} (hlen : stream.length ≤ passes) :
    (pbDecSubmessage (innerLoop schema depth passes) a values mem stream).map (viewSub · (a + offset)) =
      Nanopb.pbDecSubmessage fields (viewSub mem (a + offset)) stream := by
  rw [pbDecSubmessage, Nanopb.pbDecSubmessage, h.submsgDesc, dataAt_kind h]
  cases hparts : pbMakeStringSubstream stream with
  | error e => rfl
  | ok parts =>
      obtain ⟨substream, rest⟩ := parts
      have hshort : substream.length ≤ passes := (substream_le hparts).trans hlen
      have hinner : (innerLoop schema depth passes sub (a + offset) mem substream).map (viewSub · (a + offset)) =
          Nanopb.pbDecodeInner fields (viewSub mem (a + offset)) substream :=
        hsub.decode depth hdepth passes _ (rests_begin (schema.bindable sub)) 0 mem (a + offset) substream hshort
      dsimp only
      rw [← hinner]
      cases innerLoop schema depth passes sub (a + offset) mem substream <;> rfl

theorem encodeBasicField_submsg {size : Nat} {inner : EncodeInner δ}
    (h : Kind htype pbLtypeSubmessage offset size (some sub) values) (mem : Mem) (a : Int) (stream : OStream) :
    encodeBasicField inner a values mem stream =
      encodeTagged pbWtString values.tag.toUInt32 (pbEncodeSubmessage (inner sub (a + offset))) stream := by
  have hsubmsg : pbLtypeIsSubmsg values.type = true := by
    rw [pbLtypeIsSubmsg, h.ltype]
    decide
  rw [encodeBasicField, pbEncodeTagForField, h.ltype, hsubmsg, encodeTagged]
  congr 1
  funext stream
  refine Eq.trans (b := pbEncSubmessage inner a values stream) rfl ?_
  rw [pbEncSubmessage, h.submsgDesc, dataAt_kind h]

/-- What a submessage field is cleared to is zero, be it by its bytes or by the
defaults of its own fields. -/
theorem cleared_view (hsub : Realizes schema nesting sub viewSub zero fields) (hdepth : nesting ≤ depth)
    (mem : Mem) (p : Int) :
    viewSub (if nests (schema.desc sub) then setDefaults schema.desc depth sub p mem
      else write mem p (List.replicate (schema.size sub) 0)) p = zero := by
  split
  · rw [hsub.default depth hdepth, hsub.reset]
  · exact hsub.zeroed _ p fun x hle hlt => write_replicate mem p _ 0 hle hlt

theorem cleared_frame (schema : Schema δ) (depth : Nat) (sub : δ) (mem : Mem) (p : Int) :
    Frame p (schema.size sub) mem (if nests (schema.desc sub) then setDefaults schema.desc depth sub p mem
      else write mem p (List.replicate (schema.size sub) 0)) := by
  split
  · exact setDefaults_frame depth sub p mem
  · have hframe := frame_write mem p (List.replicate (schema.size sub) (0 : UInt8))
    rwa [List.length_replicate] at hframe

/-- A change of the cells of a part, and a change of the part. -/
theorem map_stored {part : Mem → Int → τ} {get : σ → τ} {set : τ → σ → σ} {size : Nat}
    (hpiece : Piece view (Span offset size) part get set) {mem : Mem} {a : Int} {stored : Decoded Mem}
    (hframe : Frame (a + offset) size mem stored.dest) :
    stored.map (view · a) = (stored.map (part · a)).map (fun v => set v (view mem a)) := by
  cases stored with
  | ok dest stream => exact congrArg (Decoded.ok · stream) (hpiece.frame hframe)
  | fail e dest => exact congrArg (Decoded.fail e) (hpiece.frame hframe)

section Optional

variable {hasAt : Nat} {has : σ → Bool} {setHas : Bool → σ → σ} {get : σ → τ} {set : τ → σ → σ} {tag : UInt32}

theorem handles_optional (hsub : Realizes schema nesting sub viewSub zero fields) (hdepth : nesting ≤ depth)
    (htag : values.tag.toUInt32 = tag)
    (h : Kind pbHtypeOptional pbLtypeSubmessage offset (schema.size sub) (some sub) values)
    (hsize : values.pSize = .member hasAt)
    (hhas : Piece view (Span hasAt 1) (fun mem a => safeReadBool mem (a + hasAt)) has setHas)
    (hpiece : Piece view (Span offset (schema.size sub)) (fun mem a => viewSub mem (a + offset)) get set)
    (hget : ∀ b x, get (setHas b x) = get x) :
    Handles schema depth view values (optional tag fields has setHas get set) where
  default mem a := by
    have hcleared := cleared_frame schema depth sub (write mem (a + hasAt) [0]) (a + offset)
    have hzero := cleared_view hsub hdepth (write mem (a + hasAt) [0]) (a + offset)
    have hflag : view (write mem (a + hasAt) [0]) a = setHas false (view mem a) := by
      have hframe : Frame (a + hasAt) 1 mem (write mem (a + hasAt) [0]) := frame_write mem _ [0]
      rw [hhas.frame hframe, bool_stored]
      rfl
    have hset : pbFieldSetToDefault schema.desc (setDefaults schema.desc depth) a values mem =
        if nests (schema.desc sub) then setDefaults schema.desc depth sub (a + offset) (write mem (a + hasAt) [0])
        else write (write mem (a + hasAt) [0]) (a + offset) (List.replicate (schema.size sub) 0) := by
      have hpresent : pbHtypeOptional = pbHtypeOptional ∧ values.pSize ≠ .null := ⟨rfl, by rw [hsize]; nofun⟩
      have hcount : ¬ (pbHtypeOptional = pbHtypeRepeated ∨ pbHtypeOptional = pbHtypeOneof) := by decide
      rw [pbFieldSetToDefault, h.htype, h.submsgDesc, h.dataSize, dataAt_kind h, sizeAt, hsize, address]
      dsimp only
      rw [← hsize, if_pos hpresent, if_neg hcount]
    rw [hset, hpiece.frame hcleared, hzero, hflag, optional]
    dsimp only
    rw [hsub.reset]
  decode passes wireType mem a stream hlen := by
    have hrequired : ¬ pbHtypeOptional = pbHtypeRequired := by decide
    have hflag : view (write mem (a + hasAt) [1]) a = setHas true (view mem a) := by
      have hframe : Frame (a + hasAt) 1 mem (write mem (a + hasAt) [1]) := frame_write mem _ [1]
      rw [hhas.frame hframe, bool_stored]
      rfl
    have hpresent : ¬ values.pSize = .null := by
      rw [hsize]
      nofun
    have hstored := pbDecSubmessage_inside schema depth passes h (write mem (a + hasAt) [1]) a stream
    rw [decodeField_static h, decodeStaticField, h.htype, if_neg hrequired, if_pos rfl, if_neg hpresent, sizeAt, hsize,
      address, decodeBasicField_submsg h, optional]
    dsimp only
    split
    · exact congrArg (Decoded.fail .wrongWireType) hflag
    · rw [map_stored hpiece hstored, pbDecSubmessage_view hsub hdepth h _ a hlen, hflag, ← hpiece.reads, hflag, hget]
  encode mem a stream := by
    have honeof : ¬ pbHtypeOptional = pbHtypeOneof := by decide
    have hpresent : values.pSize ≠ .null := by
      rw [hsize]
      nofun
    have hinner : pbEncode schema.desc mem depth sub (a + offset) = Nanopb.pbEncode fields (viewSub mem (a + offset)) :=
      funext fun stream => hsub.encode depth hdepth mem _ stream
    rw [encodeField, h.htype, if_neg honeof, if_pos rfl, if_pos hpresent, sizeAt, hsize, address,
      encodeBasicField_submsg h, htag, hinner, optional]
    dsimp only
    rw [hhas.reads, hpiece.reads]
    cases safeReadBool mem (a + hasAt) <;> rfl

end Optional

section Oneof

variable {whichAt : Nat} {clear : σ → σ} {select : σ → Option τ} {store : τ → σ → σ} {tag : UInt32}

def selector (whichAt : Nat) (mem : Mem) (a : Int) : Nat := littleEndian (read mem (a + whichAt) 2)

theorem whichField_eq (hsize : values.pSize = .member whichAt) (mem : Mem) (a : Int) :
    whichField a values mem = selector whichAt mem a := by
  rw [whichField, sizeAt, hsize, address, selector]

theorem setWhichField_eq (hsize : values.pSize = .member whichAt) (n : Nat) (mem : Mem) (a : Int) :
    setWhichField a values n mem = write mem (a + whichAt) (littleEndianBytes 2 n) := by
  rw [setWhichField, sizeAt, hsize, address]

theorem selector_stored {n : Nat} (hn : n < 65536) (mem : Mem) (a : Int) :
    selector whichAt (write mem (a + whichAt) (littleEndianBytes 2 n)) a = n := by
  rw [selector, read_littleEndian]
  exact Nat.mod_eq_of_lt hn

theorem selector_frame (n : Nat) (mem : Mem) (a : Int) :
    Frame (a + whichAt) 2 mem (write mem (a + whichAt) (littleEndianBytes 2 n)) := by
  have hframe := frame_write mem (a + whichAt) (littleEndianBytes 2 n)
  rwa [littleEndianBytes_length] at hframe

/-- After another member was selected, a member is zero. -/
theorem clearUnion_view (hsub : Realizes schema nesting sub viewSub zero fields) (hdepth : nesting ≤ depth)
    (h : Kind pbHtypeOneof pbLtypeSubmessage offset (schema.size sub) (some sub) values)
    (hsize : values.pSize = .member whichAt) (mem : Mem) (a : Int) :
    Frame (a + offset) (schema.size sub) mem (clearUnion schema.desc (setDefaults schema.desc depth) a values mem) ∧
      viewSub (clearUnion schema.desc (setDefaults schema.desc depth) a values mem) (a + offset) =
        if selector whichAt mem a = values.tag.toNat then viewSub mem (a + offset) else zero := by
  have hsubmsg : pbLtypeIsSubmsg values.type = true := by
    rw [pbLtypeIsSubmsg, h.ltype]
    decide
  rw [clearUnion, whichField_eq hsize, h.submsgDesc, h.dataSize, dataAt_kind h]
  by_cases hwhich : selector whichAt mem a = values.tag.toNat
  · have hkeep : ¬ (pbLtypeIsSubmsg values.type = true ∧ selector whichAt mem a ≠ values.tag.toNat) :=
      fun hand => hand.2 hwhich
    rw [if_neg hkeep, if_pos hwhich]
    exact ⟨.refl _ _ mem, rfl⟩
  · rw [if_pos ⟨hsubmsg, hwhich⟩, if_neg hwhich]
    have hframe := frame_write mem (a + offset) (List.replicate (schema.size sub) (0 : UInt8))
    rw [List.length_replicate] at hframe
    dsimp only
    split
    · exact ⟨hframe.trans (setDefaults_frame depth sub _ _), by rw [hsub.default depth hdepth, hsub.reset]⟩
    · exact ⟨hframe, hsub.zeroed _ _ fun x hle hlt => write_replicate mem _ _ 0 hle hlt⟩

/-- A selected member is as it was or zero, and nothing outside the union and its
selector has changed. -/
theorem selected_view (hsub : Realizes schema nesting sub viewSub zero fields) (hdepth : nesting ≤ depth)
    (h : Kind pbHtypeOneof pbLtypeSubmessage offset (schema.size sub) (some sub) values)
    (hsize : values.pSize = .member whichAt) (hapart : whichAt + 2 ≤ offset ∨ offset + schema.size sub ≤ whichAt)
    (mem : Mem) (a : Int) {selected : Mem}
    (hselected : setWhichField a values values.tag.toNat
      (clearUnion schema.desc (setDefaults schema.desc depth) a values mem) = selected) :
    (∀ x, ¬ (Span whichAt 2 (x - a) ∨ Span offset (schema.size sub) (x - a)) → selected x = mem x) ∧
      selector whichAt selected a = values.tag.toNat ∧
      viewSub selected (a + offset) =
        if selector whichAt mem a = values.tag.toNat then viewSub mem (a + offset) else zero := by
  obtain ⟨hcleared, hview⟩ := clearUnion_view hsub hdepth h hsize mem a
  rw [setWhichField_eq hsize] at hselected
  have hframe : Frame (a + whichAt) 2 (clearUnion schema.desc (setDefaults schema.desc depth) a values mem) selected :=
    hselected ▸ selector_frame values.tag.toNat _ a
  refine ⟨fun x hx => ?_, ?_, ?_⟩
  · have hnot := not_or.mp hx
    rw [Span, Span] at hnot
    rw [hframe x (by omega), hcleared x (by omega)]
  · rw [← hselected]
    exact selector_stored values.tag.toNat_lt _ a
  · rw [← hview]
    exact hsub.within _ _ _ fun x hle hlt => hframe x (by omega)

theorem handles_oneof (hsub : Realizes schema nesting sub viewSub zero fields) (hdepth : nesting ≤ depth)
    (htag : values.tag.toUInt32 = tag)
    (h : Kind pbHtypeOneof pbLtypeSubmessage offset (schema.size sub) (some sub) values)
    (hsize : values.pSize = .member whichAt)
    (hchoice : Choice view (fun x => Span whichAt 2 x ∨ Span offset (schema.size sub) x) (selector whichAt)
      values.tag.toNat (fun mem a => viewSub mem (a + offset)) clear select store)
    (hapart : whichAt + 2 ≤ offset ∨ offset + schema.size sub ≤ whichAt) :
    Handles schema depth view values (oneof tag fields zero clear select store) where
  default mem a := by
    have hset : pbFieldSetToDefault schema.desc (setDefaults schema.desc depth) a values mem =
        write mem (a + whichAt) (littleEndianBytes 2 0) := by
      have hflag : ¬ (pbHtypeOneof = pbHtypeOptional ∧ values.pSize ≠ .null) := by
        rintro ⟨hfalse, -⟩
        exact absurd hfalse (by decide)
      rw [pbFieldSetToDefault, h.htype, if_neg hflag, if_pos (.inr rfl), setWhichField_eq hsize]
    rw [hset]
    refine hchoice.clears _ _ _ (fun x hx => ?_) (selector_stored (by decide) mem a)
    apply selector_frame
    have hnot := not_or.mp hx
    rw [Span] at hnot
    omega
  decode passes wireType mem a stream hlen := by
    have hrequired : ¬ pbHtypeOneof = pbHtypeRequired := by decide
    have hoptional : ¬ pbHtypeOneof = pbHtypeOptional := by decide
    have hvalue : (select (view mem a)).getD zero =
        if selector whichAt mem a = values.tag.toNat then viewSub mem (a + offset) else zero := by
      rw [hchoice.selects]
      split <;> rfl
    rw [decodeField_static h, decodeStaticField, h.htype, if_neg hrequired, if_neg hoptional, if_pos rfl]
    dsimp only
    generalize hselected : setWhichField a values values.tag.toNat
      (clearUnion schema.desc (setDefaults schema.desc depth) a values mem) = selected
    obtain ⟨hframe, hwhich, hview⟩ := selected_view hsub hdepth h hsize hapart mem a hselected
    rw [← hvalue] at hview
    rw [decodeBasicField_submsg h, oneof]
    dsimp only
    split
    · exact congrArg (Decoded.fail .wrongWireType) (hview ▸ hchoice.stores mem selected a hframe hwhich)
    · have hstored := pbDecSubmessage_inside schema depth passes h selected a stream
      have hstore : ∀ dest, Frame (a + offset) (schema.size sub) selected dest →
          view dest a = store (viewSub dest (a + offset)) (view mem a) := by
        intro dest hdest
        apply hchoice.stores
        · intro x hx
          have hnot := not_or.mp hx
          rw [Span, Span] at hnot
          rw [hdest x (by omega), hframe x hx]
        · rw [← hwhich, selector, selector]
          exact congrArg littleEndian (read_congr fun x hle hlt => hdest x (by omega))
      rw [← hview, ← pbDecSubmessage_view hsub hdepth h selected a hlen]
      generalize pbDecSubmessage (innerLoop schema depth passes) a values selected stream = stored at hstored ⊢
      cases stored with
      | ok dest rest => exact congrArg (Decoded.ok · rest) (hstore dest hstored)
      | fail e dest => exact congrArg (Decoded.fail e) (hstore dest hstored)
  encode mem a stream := by
    have hinner : pbEncode schema.desc mem depth sub (a + offset) = Nanopb.pbEncode fields (viewSub mem (a + offset)) :=
      funext fun stream => hsub.encode depth hdepth mem _ stream
    rw [encodeField, h.htype, if_pos rfl, whichField_eq hsize, encodeBasicField_submsg h, htag, hinner, oneof]
    dsimp only
    rw [hchoice.selects]
    by_cases hwhich : selector whichAt mem a = values.tag.toNat
    · rw [if_pos hwhich, if_pos (beq_iff_eq.mpr hwhich)]
    · rw [if_neg hwhich, if_neg (fun heq => hwhich (beq_iff_eq.mp heq))]

end Oneof

end Submessage

end Struct

end RaceControl.Nanopb
