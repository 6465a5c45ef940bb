import RaceControl.Nanopb.Concat

namespace RaceControl.Nanopb

open Leb128

section Readers

theorem varint_length (w : UInt64) : (encode w.toNat).length ≤ 10 :=
  encode_length 9 (Nat.lt_trans w.toNat_lt (by decide))

theorem pbDecodeVarint_encode (w : UInt64) (rest : IStream) :
    pbDecodeVarint (encode w.toNat ++ rest) = .ok (w, rest) := by
  have hlen := varint_length w
  exact (pbDecodeVarint_ok _ _ _).mpr ⟨decode_encode _ _, by rw [List.length_append]; omega⟩

theorem pbDecodeVarint32_encode {n : Nat} (hn : n < 2 ^ 32) (rest : IStream) :
    pbDecodeVarint32 (encode n ++ rest) = .ok (UInt32.ofNat n, rest) := by
  have hlen : (encode n).length ≤ 4 + 1 := encode_length 4 (Nat.lt_trans hn (by decide))
  exact pbDecodeVarint32_of_decode (decode_encode n rest) (by rw [List.length_append]; omega) (.inl hn)

/-- What is written for a number is read back by every reader whose range it is in,
and no other bytes that are read as the number are fewer. -/
theorem varint_round_trip (value : UInt64) :
    ∃ bytes : List UInt8, (∀ stream, pbEncodeVarint value stream = pbWrite bytes stream) ∧ bytes.length ≤ 10 ∧
      (∀ rest, pbDecodeVarint (bytes ++ rest) = .ok (value, rest) ∧ pbSkipVarint (bytes ++ rest) = .ok ((), rest)) ∧
      (value.toNat < 2 ^ 32 ∨ 2 ^ 64 - 2 ^ 31 ≤ value.toNat →
        ∀ rest, pbDecodeVarint32 (bytes ++ rest) = .ok (value.toUInt32, rest)) ∧
      ∀ stream rest, pbDecodeVarint stream = .ok (value, rest) → bytes.length + rest.length ≤ stream.length := by
  refine ⟨encode value.toNat, pbEncodeVarint_eq value, varint_length value, fun rest => ?_, fun hvalue rest => ?_,
    fun stream rest h => encode_shortest ((pbDecodeVarint_ok _ _ _).mp h).1⟩
  · have h := pbDecodeVarint_encode value rest
    exact ⟨h, pbSkipVarint_of_decode h⟩
  · exact pbDecodeVarint32_of_varint (pbDecodeVarint_encode value rest) hvalue

theorem pbDecodeTag_encode {wireType tag : UInt32} (hw : wireType.toNat < 8) (ht : tag.toNat < 2 ^ 29)
    (rest : IStream) :
    pbDecodeTag (encode (8 * tag.toNat + wireType.toNat) ++ rest) = .ok (⟨wireType, tag⟩, rest) := by
  have hvalue : (UInt32.ofNat (8 * tag.toNat + wireType.toNat)).toNat = 8 * tag.toNat + wireType.toNat :=
    UInt32.toNat_ofNat_of_lt' (by rw [UInt32.size]; omega)
  have hwire : UInt32.ofNat (8 * tag.toNat + wireType.toNat) &&& 7 = wireType := by
    apply UInt32.toNat_inj.mp
    rw [UInt32.toNat_and, hvalue]
    have hmask := Nat.and_two_pow_sub_one_eq_mod (8 * tag.toNat + wireType.toNat) 3
    have h7 : (7 : UInt32).toNat = 2 ^ 3 - 1 := by decide
    rw [h7, hmask]
    omega
  have htag : UInt32.ofNat (8 * tag.toNat + wireType.toNat) >>> 3 = tag := by
    apply UInt32.toNat_inj.mp
    rw [UInt32.toNat_shiftRight, hvalue]
    have h3 : (3 : UInt32).toNat % 32 = 3 := by decide
    rw [h3, Nat.shiftRight_eq_div_pow]
    omega
  rw [pbDecodeTag, pbDecodeVarint32_encode (by omega)]
  dsimp only
  rw [hwire, htag]

theorem pbMakeStringSubstream_encode {bytes : List UInt8} (h : bytes.length < 2 ^ 32) (rest : IStream) :
    pbMakeStringSubstream (encode bytes.length ++ bytes ++ rest) = .ok (bytes, rest) := by
  have hsize : (UInt32.ofNat bytes.length).toNat = bytes.length :=
    UInt32.toNat_ofNat_of_lt' (by rw [UInt32.size]; omega)
  rw [pbMakeStringSubstream, List.append_assoc, pbDecodeVarint32_encode h]
  dsimp only
  rw [hsize, if_neg (by rw [List.length_append]; omega), List.take_left', List.drop_left'] <;> rfl

theorem littleEndian_mod (k n : Nat) : littleEndian (littleEndianBytes k n) = n % 256 ^ k := by
  induction k generalizing n with
  | zero =>
      rw [littleEndianBytes, littleEndian]
      omega
  | succ k ih =>
      have hlow : (UInt8.ofNat n).toNat = n % 256 := UInt8.toNat_ofNat'
      rw [littleEndianBytes, littleEndian, ih, hlow, Nat.pow_succ, Nat.mul_comm (256 ^ k), Nat.mod_mul]

theorem littleEndian_bytes (k : Nat) {n : Nat} (h : n < 256 ^ k) : littleEndian (littleEndianBytes k n) = n := by
  rw [littleEndian_mod, Nat.mod_eq_of_lt h]

theorem pbRead_append {bytes : List UInt8} {k : Nat} (h : bytes.length = k) (rest : IStream) :
    pbRead k (bytes ++ rest) = .ok (bytes, rest) := by
  rw [pbRead, if_neg (by rw [List.length_append]; omega), List.take_left' h, List.drop_left' h]

end Readers

section Scalars

def scalarBytes : (t : Scalar) → t.Value → List UInt8
  | .bool, value => encode (bif value then 1 else 0)
  | .int32, value => encode (Int32.toInt64 value).toUInt64.toNat
  | .int64, value => encode (Int64.toUInt64 value).toNat
  | .uenum, value => encode (UInt32.toNat value)
  | .float, value => littleEndianBytes 4 (UInt32.toNat value)
  | .double, value => littleEndianBytes 8 (UInt64.toNat value)

theorem pbEncodeEnum_appends (value : UInt32) : Appends (encode value.toNat) (pbEncodeVarint value.toUInt64) := by
  have h := pbEncodeVarint_appends value.toUInt64
  rwa [UInt32.toNat_toUInt64] at h

theorem encodeScalar_appends (t : Scalar) (value : t.Value) : Appends (scalarBytes t value) (encodeScalar t value) := by
  cases t with
  | bool =>
      cases value with
      | false => exact pbEncodeVarint_appends 0
      | true => exact pbEncodeVarint_appends 1
  | int32 | int64 => exact pbEncodeVarint_appends _
  | uenum => exact pbEncodeEnum_appends value
  | float | double => exact pbWrite_appends _

theorem int32_truncated (value : Int32) : value.toInt64.toUInt64.toUInt32.toInt32 = value := by
  have hlow : (value.toBitVec.signExtend 64).setWidth 32 = value.toBitVec := by
    apply BitVec.eq_of_getLsbD_eq
    intro i hi
    have h64 : i < 64 := by omega
    simp only [BitVec.getLsbD_setWidth, BitVec.getLsbD_signExtend, hi, h64, decide_true, Bool.true_and, if_true]
  apply Int32.toBitVec_inj.mp
  simpa using hlow

theorem pbDecUvarint_encode (dest value : UInt32) (rest : IStream) :
    pbDecUvarint dest (encode value.toNat ++ rest) = .ok value rest := by
  have h := pbDecodeVarint_encode value.toUInt64 rest
  rw [UInt32.toNat_toUInt64] at h
  rw [pbDecUvarint, h]
  simp

theorem pbDecodeFixed32_bytes (value : UInt32) (rest : IStream) :
    pbDecodeFixed32 (littleEndianBytes 4 value.toNat ++ rest) = .ok (value, rest) := by
  rw [pbDecodeFixed32, pbRead_append (littleEndianBytes_length 4 _)]
  simp only [Except.map, littleEndian_bytes 4 value.toNat_lt, UInt32.ofNat_toNat]

theorem pbDecodeFixed64_bytes (value : UInt64) (rest : IStream) :
    pbDecodeFixed64 (littleEndianBytes 8 value.toNat ++ rest) = .ok (value, rest) := by
  rw [pbDecodeFixed64, pbRead_append (littleEndianBytes_length 8 _)]
  simp only [Except.map, littleEndian_bytes 8 value.toNat_lt, UInt64.ofNat_toNat]

theorem decodeScalar_bytes (t : Scalar) (dest value : t.Value) (rest : IStream) :
    decodeScalar t dest (scalarBytes t value ++ rest) = .ok value rest := by
  cases t with
  | bool =>
      rw [scalarBytes, decodeScalar, pbDecodeVarint32_encode (by cases value <;> decide)]
      cases value <;> rfl
  | int32 =>
      rw [scalarBytes, decodeScalar, pbDecodeVarint_encode]
      exact congrArg (fun v => Decoded.ok v rest) (int32_truncated value)
  | int64 =>
      rw [scalarBytes, decodeScalar, pbDecodeVarint_encode]
      exact congrArg (fun v => Decoded.ok v rest) (Int64.toInt64_toUInt64 value)
  | uenum => exact pbDecUvarint_encode dest value rest
  | float => exact congrArg (fun r => Decoded.ofRead r id dest) (pbDecodeFixed32_bytes value rest)
  | double => exact congrArg (fun r => Decoded.ofRead r id dest) (pbDecodeFixed64_bytes value rest)

end Scalars

section Fields

variable {σ τ : Type}

/-- The bytes of a field and what reading them does to the struct. -/
inductive Reads (field : PbField σ) : List UInt8 → (σ → σ) → Prop
  | absent {update : σ → σ} (hupdate : ∀ dest, update dest = dest) : Reads field [] update
  | present {update : σ → σ} (wireType : UInt32) (body : List UInt8) (hwire : wireType.toNat < 8)
      (hdecode : ∀ dest rest, field.decode wireType dest (body ++ rest) = .ok (update dest) rest) :
      Reads field (encode (8 * field.tag.toNat + wireType.toNat) ++ body) update

/-- The meaning of a field: the bytes written for a struct, and the struct into
which these bytes are merged. -/
structure Codec (field : PbField σ) where
  bytes : σ → List UInt8
  merge : σ → σ → σ
  appends : ∀ src, Appends (bytes src) (field.encode src)
  reads : ∀ src, Reads field (bytes src) (fun dest => merge dest src)

inductive Codecs : List (PbField σ) → Type
  | nil : Codecs []
  | cons {field : PbField σ} {fields : List (PbField σ)} (head : Codec field) (tail : Codecs fields) :
      Codecs (field :: fields)

def Codecs.bytes {fields : List (PbField σ)} : Codecs fields → σ → List UInt8
  | .nil, _ => []
  | .cons head tail, src => head.bytes src ++ tail.bytes src

def Codecs.bytesFirst {fields : List (PbField σ)} : Codecs fields → Nat → σ → List UInt8
  | .nil, _, _ => []
  | .cons _ _, 0, _ => []
  | .cons head tail, n + 1, src => head.bytes src ++ tail.bytesFirst n src

/-- The struct after the first n fields have been merged into it. -/
def Codecs.mergeFirst {fields : List (PbField σ)} : Codecs fields → Nat → σ → σ → σ
  | .nil, _, dest, _ => dest
  | .cons _ _, 0, dest, _ => dest
  | .cons head tail, n + 1, dest, src => tail.mergeFirst n (head.merge dest src) src

def Codecs.merge {fields : List (PbField σ)} (codecs : Codecs fields) : σ → σ → σ :=
  codecs.mergeFirst fields.length

theorem Codecs.merge_cons {field : PbField σ} {fields : List (PbField σ)} {head : Codec field} {tail : Codecs fields}
    {dest next dest' src : σ} (hhead : head.merge dest src = next) (htail : tail.merge next src = dest') :
    (Codecs.cons head tail).merge dest src = dest' := by
  rw [← htail, ← hhead]
  rfl

/-- The tags of a message find their fields and fit their varint. -/
structure WellTagged (fields : List (PbField σ)) : Prop where
  nodup : (fields.map PbField.tag).Nodup
  nonzero : ∀ field ∈ fields, field.tag ≠ 0
  small : ∀ field ∈ fields, field.tag.toNat < 2 ^ 29

structure MessageCodec (fields : List (PbField σ)) where
  codecs : Codecs fields
  tagged : WellTagged fields
  short : ∀ src, (codecs.bytes src).length < 2 ^ 32

theorem Appends.length_le {n : Nat} {bytes : List UInt8} {encode : OStream → Encoded} (h : Appends bytes encode)
    (hb : Bounded n encode) : bytes.length ≤ n := by
  obtain ⟨m, hm, hw⟩ := hb
  have hcount := (hw pbOStreamSizing (.inl rfl)).2.1
  rw [h.sizing pbOStreamSizing rfl] at hcount
  have hlen : bytes.length = m := by simpa [Encoded.ok, pbOStreamSizing] using hcount
  omega

theorem Codecs.appends {fields : List (PbField σ)} (codecs : Codecs fields) (src : σ) :
    Appends (codecs.bytes src) (pbEncode fields src) := by
  induction codecs with
  | nil => exact appends_ok
  | cons head tail ih => exact (head.appends src).andThen ih

theorem find_tag {fields : List (PbField σ)} (h : (fields.map PbField.tag).Nodup) {field : PbField σ}
    (hmem : field ∈ fields) : fields.find? (fun f => f.tag == field.tag) = some field := by
  induction fields with
  | nil => cases hmem
  | cons first fields ih =>
      rw [List.map_cons, List.nodup_cons] at h
      rcases List.mem_cons.mp hmem with rfl | hin
      · exact List.find?_cons_of_pos (by simp)
      · have hne : first.tag ≠ field.tag := fun he => h.1 (he ▸ List.mem_map_of_mem hin)
        rw [List.find?_cons_of_neg (by simpa using hne)]
        exact ih h.2 hin

/-- The bytes of one field take the loop one field further. -/
theorem Reads.decodes {all : List (PbField σ)} (htags : WellTagged all) {field : PbField σ} (hmem : field ∈ all)
    {bytes : List UInt8} {update : σ → σ} (h : Reads field bytes update) (dest : σ) (more : IStream) :
    pbDecodeInner all dest (bytes ++ more) = pbDecodeInner all (update dest) more := by
  cases h with
  | absent hupdate => rw [List.nil_append, hupdate]
  | present wireType body hwire hdecode =>
      have htag := pbDecodeTag_encode hwire (htags.small field hmem) (body ++ more)
      rw [List.append_assoc, pbDecodeInner_field htag (htags.nonzero field hmem) (find_tag htags.nodup hmem),
        hdecode]

theorem Codecs.decodes {all : List (PbField σ)} (htags : WellTagged all) {fields : List (PbField σ)}
    (codecs : Codecs fields) (hsub : ∀ field ∈ fields, field ∈ all) (dest src : σ) (more : IStream) :
    pbDecodeInner all dest (codecs.bytes src ++ more) = pbDecodeInner all (codecs.merge dest src) more := by
  induction codecs generalizing dest with
  | nil => rfl
  | @cons field fields head tail ih =>
      rw [List.forall_mem_cons] at hsub
      rw [Codecs.bytes, List.append_assoc, (head.reads src).decodes htags hsub.1, ih hsub.2]
      rfl

theorem MessageCodec.decodes {fields : List (PbField σ)} (codec : MessageCodec fields) (dest src : σ) (more : IStream) :
    pbDecodeInner fields dest (codec.codecs.bytes src ++ more) =
      pbDecodeInner fields (codec.codecs.merge dest src) more :=
  codec.codecs.decodes codec.tagged (fun _ h => h) dest src more

theorem MessageCodec.decodes_all {fields : List (PbField σ)} (codec : MessageCodec fields) (dest src : σ) :
    pbDecodeInner fields dest (codec.codecs.bytes src) = .ok (codec.codecs.merge dest src) [] := by
  have h := codec.decodes dest src []
  rw [List.append_nil] at h
  rw [h]
  rfl

end Fields

section Kinds

variable {σ τ : Type}

theorem encodeTagged_appends {wireType : UInt32} (hw : wireType.toNat < 8) (tag : UInt32) {body : List UInt8}
    {encodeBody : OStream → Encoded} (h : Appends body encodeBody) :
    Appends (encode (8 * tag.toNat + wireType.toNat) ++ body) (encodeTagged wireType tag encodeBody) :=
  (pbEncodeTag_appends hw tag).andThen h

theorem scalar_wireType (t : Scalar) : t.wireType.toNat < 8 := by
  cases t <;> decide

def singularCodec (tag : UInt32) (t : Scalar) (get : σ → t.Value) (set : t.Value → σ → σ) :
    Codec (singular tag t get set) where
  bytes src :=
    if get src = t.zero then [] else encode (8 * tag.toNat + t.wireType.toNat) ++ scalarBytes t (get src)
  merge dest src := if get src = t.zero then dest else set (get src) dest
  appends src := by
    simp only [singular]
    by_cases hzero : get src = t.zero
    · simp only [hzero, if_true]
      exact appends_ok
    · simp only [hzero, if_false]
      exact encodeTagged_appends (scalar_wireType t) tag (encodeScalar_appends t _)
  reads src := by
    by_cases hzero : get src = t.zero
    · simp only [hzero, if_true]
      exact .absent fun _ => rfl
    · simp only [hzero, if_false]
      refine .present t.wireType _ (scalar_wireType t) fun dest rest => ?_
      simp only [singular]
      rw [if_neg (by simp), decodeScalar_bytes]
      rfl

/-- A singular field that was not written leaves the earlier value in place. -/
def pick {α : Type} [DecidableEq α] (zero dest src : α) : α := if src = zero then dest else src

theorem singularCodec_merge (tag : UInt32) {t : Scalar} {get : σ → t.Value} {set : t.Value → σ → σ}
    (hset : ∀ dest, set (get dest) dest = dest) (dest src : σ) :
    (singularCodec tag t get set).merge dest src = set (pick t.zero (get dest) (get src)) dest := by
  simp only [singularCodec, pick]
  by_cases hzero : get src = t.zero
  · rw [if_pos hzero, if_pos hzero, hset]
  · rw [if_neg hzero, if_neg hzero]

/-- The bytes of a submessage, with their length in front. -/
def MessageCodec.delimited {fields : List (PbField τ)} (codec : MessageCodec fields) (sub : τ) : List UInt8 :=
  encode (codec.codecs.bytes sub).length ++ codec.codecs.bytes sub

theorem MessageCodec.delimited_appends {fields : List (PbField τ)} (codec : MessageCodec fields) (sub : τ) :
    Appends (codec.delimited sub) (pbEncodeSubmessage (pbEncode fields sub)) :=
  pbEncodeSubmessage_appends (codec.codecs.appends sub) (codec.short sub)

theorem MessageCodec.delimited_reads {fields : List (PbField τ)} (codec : MessageCodec fields) (dest sub : τ)
    (rest : IStream) :
    pbDecSubmessage fields dest (codec.delimited sub ++ rest) = .ok (codec.codecs.merge dest sub) rest := by
  rw [MessageCodec.delimited, pbDecSubmessage, pbMakeStringSubstream_encode (codec.short sub)]
  dsimp only
  rw [codec.decodes_all]

def optionalCodec {fields : List (PbField τ)} (codec : MessageCodec fields) (tag : UInt32) (has : σ → Bool)
    (setHas : Bool → σ → σ) (get : σ → τ) (set : τ → σ → σ) : Codec (optional tag fields has setHas get set) where
  bytes src :=
    if has src = false then [] else encode (8 * tag.toNat + pbWtString.toNat) ++ codec.delimited (get src)
  merge dest src :=
    if has src = false then dest else set (codec.codecs.merge (get dest) (get src)) (setHas true dest)
  appends src := by
    simp only [optional]
    by_cases hhas : has src = false
    · simp only [hhas, if_true]
      exact appends_ok
    · simp only [hhas]
      exact encodeTagged_appends (by decide) tag (codec.delimited_appends _)
  reads src := by
    by_cases hhas : has src = false
    · simp only [hhas, if_true]
      exact .absent fun _ => rfl
    · simp only [hhas]
      refine .present pbWtString _ (by decide) fun dest rest => ?_
      simp only [optional]
      rw [if_neg (by simp), codec.delimited_reads]
      rfl

theorem optionalCodec_merge {fields : List (PbField τ)} (codec : MessageCodec fields) (tag : UInt32) {has : σ → Bool}
    {setHas : Bool → σ → σ} {get : σ → τ} {set : τ → σ → σ}
    (hset : ∀ dest, set (get dest) (setHas (has dest) dest) = dest)
    (dest src : σ) :
    (optionalCodec codec tag has setHas get set).merge dest src =
      set (if has src then codec.codecs.merge (get dest) (get src) else get dest)
        (setHas (has dest || has src) dest) := by
  simp only [optionalCodec]
  cases hhas : has src with
  | false => simp [hset]
  | true => simp

def oneofCodec {fields : List (PbField τ)} (codec : MessageCodec fields) (tag : UInt32) (zero : τ) (clear : σ → σ)
    (select : σ → Option τ) (store : τ → σ → σ) : Codec (oneof tag fields zero clear select store) where
  bytes src :=
    match select src with
    | none => []
    | some sub => encode (8 * tag.toNat + pbWtString.toNat) ++ codec.delimited sub
  merge dest src :=
    match select src with
    | none => dest
    | some sub => store (codec.codecs.merge ((select dest).getD zero) sub) dest
  appends src := by
    simp only [oneof]
    cases select src with
    | none => exact appends_ok
    | some sub => exact encodeTagged_appends (by decide) tag (codec.delimited_appends sub)
  reads src := by
    cases select src with
    | none => exact .absent fun _ => rfl
    | some sub =>
        refine .present pbWtString _ (by decide) fun dest rest => ?_
        simp only [oneof]
        rw [if_neg (by simp), codec.delimited_reads]
        rfl

theorem tag_length {n : Nat} (h : n < 128) : (encode n).length = 1 := by
  rw [encode_last h]
  rfl

theorem Codecs.length_cons {field : PbField σ} {fields : List (PbField σ)} {head : Codec field} {tail : Codecs fields}
    {src : σ} {m n : Nat} (hhead : (head.bytes src).length ≤ m) (htail : (tail.bytes src).length ≤ n) :
    ((Codecs.cons head tail).bytes src).length ≤ m + n := by
  rw [Codecs.bytes, List.length_append]
  omega

theorem Codecs.length_nil (src : σ) : (Codecs.nil.bytes src).length ≤ 0 := Nat.le_refl 0

theorem singularCodec_length (tag : UInt32) (t : Scalar) {get : σ → t.Value} {set : t.Value → σ → σ} (n : Nat) {src : σ}
    (htag : 8 * tag.toNat + t.wireType.toNat < 128) (h : (scalarBytes t (get src)).length ≤ n) :
    ((singularCodec tag t get set).bytes src).length ≤ 1 + n := by
  simp only [singularCodec]
  split
  · exact Nat.zero_le _
  · rw [List.length_append, tag_length htag]
    omega

theorem MessageCodec.delimited_length {fields : List (PbField τ)} (codec : MessageCodec fields) {n : Nat} {sub : τ}
    (hn : n < 128) (h : (codec.codecs.bytes sub).length ≤ n) : (codec.delimited sub).length ≤ 1 + n := by
  rw [MessageCodec.delimited, List.length_append, tag_length (by omega)]
  omega

theorem optionalCodec_length {fields : List (PbField τ)} (codec : MessageCodec fields) (tag : UInt32) {has : σ → Bool}
    {setHas : Bool → σ → σ} {get : σ → τ} {set : τ → σ → σ} (n : Nat) {src : σ}
    (htag : 8 * tag.toNat + pbWtString.toNat < 128) (hn : n < 128) (h : (codec.codecs.bytes (get src)).length ≤ n) :
    ((optionalCodec codec tag has setHas get set).bytes src).length ≤ 1 + (1 + n) := by
  have hsub := codec.delimited_length hn h
  simp only [optionalCodec]
  split
  · exact Nat.zero_le _
  · rw [List.length_append, tag_length htag]
    omega

theorem oneofCodec_length {fields : List (PbField τ)} (codec : MessageCodec fields) (tag : UInt32) {zero : τ}
    {clear : σ → σ} {select : σ → Option τ} {store : τ → σ → σ} (n : Nat) {src : σ} {sub : τ}
    (hsub : select src = some sub) (htag : 8 * tag.toNat + pbWtString.toNat < 128) (hn : n < 128)
    (h : (codec.codecs.bytes sub).length ≤ n) :
    ((oneofCodec codec tag zero clear select store).bytes src).length ≤ 1 + (1 + n) := by
  have hlen := codec.delimited_length hn h
  simp only [oneofCodec, hsub]
  rw [List.length_append, tag_length htag]
  omega

theorem oneofCodec_absent {fields : List (PbField τ)} {codec : MessageCodec fields} {tag : UInt32} {zero : τ}
    {clear : σ → σ} {select : σ → Option τ} {store : τ → σ → σ} {src : σ} (hsub : select src = none) :
    ((oneofCodec codec tag zero clear select store).bytes src).length ≤ 0 := by
  simp only [oneofCodec, hsub]
  exact Nat.le_refl 0

end Kinds

section Truncated

variable {σ : Type}

/-- A stable reader that takes all of its bytes takes no part of them. -/
theorem Stable.truncated {α : Type} {read : IStream → Read α} (h : Stable read) {bytes : List UInt8} {a : α}
    (hread : read bytes = .ok (a, [])) {k : Nat} (hk : k < bytes.length) : ∃ e, read (bytes.take k) = .error e := by
  cases hcut : read (bytes.take k) with
  | error e => exact ⟨e, rfl⟩
  | ok r =>
      have hall := h _ r.1 r.2 (bytes.drop k) hcut
      rw [List.take_append_drop, hread] at hall
      have hnil : [] = r.2 ++ bytes.drop k := (Prod.mk.inj (Except.ok.inj hall)).2
      have hlen := congrArg List.length hnil
      rw [List.length_append, List.length_drop, List.length_nil] at hlen
      omega

theorem StableDecode.truncated {α : Type} {decode : IStream → Decoded α} (h : StableDecode decode)
    {bytes : List UInt8} {a : α} (hread : decode bytes = .ok a []) {k : Nat} (hk : k < bytes.length) :
    ∃ e dest, decode (bytes.take k) = .fail e dest := by
  cases hcut : decode (bytes.take k) with
  | fail e dest => exact ⟨e, dest, rfl⟩
  | ok a' rest =>
      have hall := h _ a' rest (bytes.drop k) hcut
      rw [List.take_append_drop, hread] at hall
      have hnil : [] = rest ++ bytes.drop k := (Decoded.ok.inj hall).2
      have hlen := congrArg List.length hnil
      rw [List.length_append, List.length_drop, List.length_nil] at hlen
      omega

theorem pbDecodeInner_tagFails {fields : List (PbField σ)} {stream : IStream} (hne : stream ≠ []) {e : PbError}
    (h : pbDecodeTag stream = .error e) (dest : σ) : pbDecodeInner fields dest stream = .fail e dest := by
  cases stream with
  | nil => exact absurd rfl hne
  | cons byte stream => rw [pbDecodeInner_cons, h]

/-- A field that is cut off is an error, not another value. -/
theorem Reads.truncated {all : List (PbField σ)} (htags : WellTagged all) (hstable : FieldsStable all)
    {field : PbField σ} (hmem : field ∈ all) {bytes : List UInt8} {update : σ → σ} (h : Reads field bytes update)
    (dest : σ) {k : Nat} (hpos : 0 < k) (hk : k < bytes.length) :
    ∃ e dest', pbDecodeInner all dest (bytes.take k) = .fail e dest' := by
  cases h with
  | absent => simp at hk
  | present wireType body hwire hdecode =>
      have hsmall := htags.small field hmem
      rw [List.length_append] at hk
      by_cases hcut : k < (encode (8 * field.tag.toNat + wireType.toNat)).length
      · have htag := pbDecodeTag_encode hwire hsmall []
        rw [List.append_nil] at htag
        obtain ⟨e, he⟩ := pbDecodeTag_stable.truncated htag hcut
        rw [List.take_append_of_le_length (by omega)]
        refine ⟨e, dest, pbDecodeInner_tagFails (fun hnil => ?_) he dest⟩
        have hlen := congrArg List.length hnil
        rw [List.length_take, List.length_nil] at hlen
        omega
      · have hbody := hdecode dest []
        rw [List.append_nil] at hbody
        obtain ⟨e, dest', hfail⟩ := (hstable field hmem wireType dest).truncated hbody
          (k := k - (encode (8 * field.tag.toNat + wireType.toNat)).length) (by omega)
        have htag := pbDecodeTag_encode hwire hsmall
          (body.take (k - (encode (8 * field.tag.toNat + wireType.toNat)).length))
        rw [List.take_append, List.take_of_length_le (by omega),
          pbDecodeInner_field htag (htags.nonzero field hmem) (find_tag htags.nodup hmem), hfail]
        exact ⟨e, dest', rfl⟩

/-- What is left of a message decodes when it ends with a field, and then to the
fields that are left. -/
theorem Codecs.truncated {all : List (PbField σ)} (htags : WellTagged all) (hstable : FieldsStable all)
    {fields : List (PbField σ)} (codecs : Codecs fields) (hsub : ∀ field ∈ fields, field ∈ all) (dest src : σ)
    (k : Nat) :
    (∃ e dest', pbDecodeInner all dest ((codecs.bytes src).take k) = .fail e dest') ∨
      ∃ n, (codecs.bytes src).take k = codecs.bytesFirst n src ∧
        pbDecodeInner all dest ((codecs.bytes src).take k) = .ok (codecs.mergeFirst n dest src) [] := by
  induction codecs generalizing dest k with
  | nil =>
      refine .inr ⟨0, ?_⟩
      rw [Codecs.bytes, List.take_nil]
      exact ⟨rfl, rfl⟩
  | @cons field fields head tail ih =>
      rw [List.forall_mem_cons] at hsub
      by_cases hcut : k < (head.bytes src).length
      · rw [Codecs.bytes, List.take_append_of_le_length (by omega)]
        by_cases hpos : 0 < k
        · exact .inl ((head.reads src).truncated htags hstable hsub.1 dest hpos hcut)
        · obtain rfl : k = 0 := by omega
          exact .inr ⟨0, rfl, rfl⟩
      · rw [Codecs.bytes, List.take_append, List.take_of_length_le (by omega),
          (head.reads src).decodes htags hsub.1]
        rcases ih hsub.2 (head.merge dest src) (k - (head.bytes src).length) with hfail | ⟨n, hbytes, hn⟩
        · exact .inl hfail
        · exact .inr ⟨n + 1, by rw [hbytes]; rfl, hn⟩

end Truncated

end RaceControl.Nanopb
