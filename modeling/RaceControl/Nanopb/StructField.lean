import RaceControl.Library.Record
import RaceControl.Nanopb.Iterator
import RaceControl.Nanopb.Capacity

namespace RaceControl.Nanopb.Struct

open Record

def pbLtypeBool : PbType := 0x00
def pbLtypeVarint : PbType := 0x01
def pbLtypeUvarint : PbType := 0x02
def pbLtypeFixed32 : PbType := 0x04
def pbLtypeFixed64 : PbType := 0x05
def pbHtypeOptional : PbType := 0x10
def pbHtypeOneof : PbType := 0x30

/-- The types of the fields that are modelled: static, singular, optional or in a
union, of a scalar type other than zigzag numbers, bytes and strings, or a submessage. -/
def isPlain (type : PbType) : Bool :=
  pbAtype type == pbAtypeStatic && (pbHtype type == pbHtypeOptional || pbHtype type == pbHtypeOneof) &&
    (pbLtype type == pbLtypeBool || pbLtype type == pbLtypeVarint || pbLtype type == pbLtypeUvarint ||
      pbLtype type == pbLtypeFixed32 || pbLtype type == pbLtypeFixed64 || pbLtype type == pbLtypeSubmessage)

variable {δ : Type}

abbrev Mem := Memory UInt8

/-- The address a pointer into the message struct holds. No function here follows
another pointer. -/
def address (message : Int) : Addr → Int
  | .member offset => message + offset
  | _ => message

def dataAt (message : Int) (field : FieldValues δ) : Int := address message field.pData

def sizeAt (message : Int) (field : FieldValues δ) : Int := address message field.pSize

/-- The fields of a message are loops over its descriptor, so the functions for one
field take what they do with a submessage as a parameter. -/
abbrev Defaults (δ : Type) := δ → Int → Mem → Mem

abbrev DecodeInner (δ : Type) := δ → Int → Mem → IStream → Decoded Mem

abbrev EncodeInner (δ : Type) := δ → Int → OStream → Encoded

section Decode

/-- The cast of an unsigned number to the size of its field. -/
def castUnsigned (value : UInt64) : Nat → Option UInt64
  | 8 => some value
  | 4 => some value.toUInt32.toUInt64
  | 2 => some value.toUInt16.toUInt64
  | 1 => some value.toUInt8.toUInt64
  | _ => none

def castSigned (value : Int64) : Nat → Option Int64
  | 8 => some value
  | 4 => some value.toInt32.toInt64
  | 2 => some value.toInt16.toInt64
  | 1 => some value.toInt8.toInt64
  | _ => none

def pbDecBool (message : Int) (field : FieldValues δ) (mem : Mem) (stream : IStream) : Decoded Mem :=
  .ofRead (pbDecodeVarint32 stream)
    (fun value => write mem (dataAt message field) [if value != 0 then 1 else 0]) mem

-- A number that does not fit is stored before it is reported.
def pbDecVarint (message : Int) (field : FieldValues δ) (mem : Mem) (stream : IStream) : Decoded Mem :=
  let size := field.dataSize.toNat
  match pbDecodeVarint stream with
  | .error e => .fail e mem
  | .ok (value, stream) =>
      if pbLtype field.type = pbLtypeUvarint then
        match castUnsigned value size with
        | none => .fail .invalidDataSize mem
        | some clamped =>
            let mem := write mem (dataAt message field) (littleEndianBytes size clamped.toNat)
            if clamped ≠ value then .fail .integerTooLarge mem else .ok mem stream
      else
        let svalue := if size = 8 then value.toInt64 else value.toUInt32.toInt32.toInt64
        match castSigned svalue size with
        | none => .fail .invalidDataSize mem
        | some clamped =>
            let mem := write mem (dataAt message field) (littleEndianBytes size clamped.toUInt64.toNat)
            if clamped ≠ svalue then .fail .integerTooLarge mem else .ok mem stream

def decFixed32 (message : Int) (field : FieldValues δ) (mem : Mem) (stream : IStream) : Decoded Mem :=
  .ofRead (pbDecodeFixed32 stream)
    (fun value => write mem (dataAt message field) (littleEndianBytes 4 value.toNat)) mem

def decFixed64 (message : Int) (field : FieldValues δ) (mem : Mem) (stream : IStream) : Decoded Mem :=
  .ofRead (pbDecodeFixed64 stream)
    (fun value => write mem (dataAt message field) (littleEndianBytes 8 value.toNat)) mem

-- A static field that is not repeated was initialized with its message, so the
-- flags are PB_DECODE_NOINIT.
def pbDecSubmessage (inner : DecodeInner δ) (message : Int) (field : FieldValues δ) (mem : Mem) (stream : IStream) :
    Decoded Mem :=
  match pbMakeStringSubstream stream with
  | .error e => .fail e mem
  | .ok (substream, stream) =>
      match field.submsgDesc with
      | none => .fail .invalidFieldDescriptor mem
      | some sub =>
          match inner sub (dataAt message field) mem substream with
          | .ok mem _ => .ok mem stream
          | .fail e mem => .fail e mem

-- Zigzag numbers, bytes, strings and packed arrays are left out.
def decodeBasicField (inner : DecodeInner δ) (message : Int) (field : FieldValues δ) (wireType : UInt32) (mem : Mem)
    (stream : IStream) : Decoded Mem :=
  let ltype := pbLtype field.type
  if ltype = pbLtypeBool then
    if wireType ≠ pbWtVarint then .fail .wrongWireType mem else pbDecBool message field mem stream
  else if ltype = pbLtypeVarint ∨ ltype = pbLtypeUvarint then
    if wireType ≠ pbWtVarint then .fail .wrongWireType mem else pbDecVarint message field mem stream
  else if ltype = pbLtypeFixed32 then
    if wireType ≠ pbWt32bit then .fail .wrongWireType mem else decFixed32 message field mem stream
  else if ltype = pbLtypeFixed64 then
    if wireType ≠ pbWt64bit then .fail .wrongWireType mem else decFixed64 message field mem stream
  else if pbLtypeIsSubmsg field.type then
    if wireType ≠ pbWtString then .fail .wrongWireType mem else pbDecSubmessage inner message field mem stream
  else .fail .invalidFieldType mem

/-- The test for submessages of a descriptor. It has no defaults and no callbacks of
its own. -/
def nests (desc : MsgDesc δ) : Bool := (desc.submsgInfo.getD 0 none).isSome

def whichField (message : Int) (field : FieldValues δ) (mem : Mem) : Nat :=
  littleEndian (read mem (sizeAt message field) 2)

def setWhichField (message : Int) (field : FieldValues δ) (tag : Nat) (mem : Mem) : Mem :=
  write mem (sizeAt message field) (littleEndianBytes 2 tag)

/-- Another member of a union is zeroed before it is decoded into. -/
def clearUnion (descs : δ → MsgDesc δ) (defaults : Defaults δ) (message : Int) (field : FieldValues δ) (mem : Mem) :
    Mem :=
  if pbLtypeIsSubmsg field.type ∧ whichField message field mem ≠ field.tag.toNat then
    let mem := write mem (dataAt message field) (List.replicate field.dataSize.toNat 0)
    match field.submsgDesc with
    | none => mem
    | some sub => if nests (descs sub) then defaults sub (dataAt message field) mem else mem
  else mem

-- Arrays are left out.
def decodeStaticField (descs : δ → MsgDesc δ) (defaults : Defaults δ) (inner : DecodeInner δ) (message : Int)
    (field : FieldValues δ) (wireType : UInt32) (mem : Mem) (stream : IStream) : Decoded Mem :=
  let htype := pbHtype field.type
  if htype = pbHtypeRequired then decodeBasicField inner message field wireType mem stream
  else if htype = pbHtypeOptional then
    let mem := if field.pSize = .null then mem else write mem (sizeAt message field) [1]
    decodeBasicField inner message field wireType mem stream
  else if htype = pbHtypeOneof then
    let mem := setWhichField message field field.tag.toNat (clearUnion descs defaults message field mem)
    decodeBasicField inner message field wireType mem stream
  else .fail .invalidFieldType mem

-- Pointer and callback fields are left out.
def decodeField (descs : δ → MsgDesc δ) (defaults : Defaults δ) (inner : DecodeInner δ) (message : Int)
    (field : FieldValues δ) (wireType : UInt32) (mem : Mem) (stream : IStream) : Decoded Mem :=
  if pbAtype field.type = pbAtypeStatic then
    decodeStaticField descs defaults inner message field wireType mem stream
  else .fail .invalidFieldType mem

-- Extensions, pointer and callback fields are left out.
def pbFieldSetToDefault (descs : δ → MsgDesc δ) (defaults : Defaults δ) (message : Int) (field : FieldValues δ)
    (mem : Mem) : Mem :=
  let htype := pbHtype field.type
  let mem :=
    if htype = pbHtypeOptional ∧ field.pSize ≠ .null then write mem (sizeAt message field) [0] else mem
  if htype = pbHtypeRepeated ∨ htype = pbHtypeOneof then setWhichField message field 0 mem
  else
    let zeroed := write mem (dataAt message field) (List.replicate field.dataSize.toNat 0)
    match field.submsgDesc with
    | none => zeroed
    | some sub => if nests (descs sub) then defaults sub (dataAt message field) mem else zeroed

end Decode

section Encode

def safeReadBool (mem : Mem) (a : Int) : Bool := (read mem a 1).any (· != 0)

def loadUnsigned (value : Nat) : Nat → Option UInt64
  | 1 => some (UInt8.ofNat value).toUInt64
  | 2 => some (UInt16.ofNat value).toUInt64
  | 4 => some (UInt32.ofNat value).toUInt64
  | 8 => some (UInt64.ofNat value)
  | _ => none

def loadSigned (value : Nat) : Nat → Option Int64
  | 1 => some (UInt8.ofNat value).toInt8.toInt64
  | 2 => some (UInt16.ofNat value).toInt16.toInt64
  | 4 => some (UInt32.ofNat value).toInt32.toInt64
  | 8 => some (UInt64.ofNat value).toInt64
  | _ => none

def pbEncBool (message : Int) (field : FieldValues δ) (mem : Mem) (stream : OStream) : Encoded :=
  pbEncodeVarint (if safeReadBool mem (dataAt message field) then 1 else 0) stream

def pbEncVarint (message : Int) (field : FieldValues δ) (mem : Mem) (stream : OStream) : Encoded :=
  let size := field.dataSize.toNat
  let value := littleEndian (read mem (dataAt message field) size)
  if pbLtype field.type = pbLtypeUvarint then
    match loadUnsigned value size with
    | none => ⟨some .invalidDataSize, stream⟩
    | some value => pbEncodeVarint value stream
  else
    match loadSigned value size with
    | none => ⟨some .invalidDataSize, stream⟩
    | some value => pbEncodeVarint value.toUInt64 stream

def pbEncFixed (message : Int) (field : FieldValues δ) (mem : Mem) (stream : OStream) : Encoded :=
  let size := field.dataSize.toNat
  let value := littleEndian (read mem (dataAt message field) size)
  if size = 4 then pbEncodeFixed32 (UInt32.ofNat value) stream
  else if size = 8 then pbEncodeFixed64 (UInt64.ofNat value) stream
  else ⟨some .invalidDataSize, stream⟩

def pbEncSubmessage (inner : EncodeInner δ) (message : Int) (field : FieldValues δ) (stream : OStream) : Encoded :=
  match field.submsgDesc with
  | none => ⟨some .invalidFieldDescriptor, stream⟩
  | some sub => pbEncodeSubmessage (inner sub (dataAt message field)) stream

def pbEncodeTagForField (field : FieldValues δ) (stream : OStream) : Encoded :=
  let ltype := pbLtype field.type
  if ltype = pbLtypeBool ∨ ltype = pbLtypeVarint ∨ ltype = pbLtypeUvarint then
    pbEncodeTag pbWtVarint field.tag.toUInt32 stream
  else if ltype = pbLtypeFixed32 then pbEncodeTag pbWt32bit field.tag.toUInt32 stream
  else if ltype = pbLtypeFixed64 then pbEncodeTag pbWt64bit field.tag.toUInt32 stream
  else if pbLtypeIsSubmsg field.type then pbEncodeTag pbWtString field.tag.toUInt32 stream
  else ⟨some .invalidFieldType, stream⟩

/-- The test for a singular field of a scalar type. -/
def pbCheckProto3DefaultValue (message : Int) (field : FieldValues δ) (mem : Mem) : Bool :=
  (read mem (dataAt message field) field.dataSize.toNat).all (· == 0)

def encodeBasicField (inner : EncodeInner δ) (message : Int) (field : FieldValues δ) (mem : Mem) (stream : OStream) :
    Encoded :=
  (pbEncodeTagForField field stream).andThen fun stream =>
    let ltype := pbLtype field.type
    if ltype = pbLtypeBool then pbEncBool message field mem stream
    else if ltype = pbLtypeVarint ∨ ltype = pbLtypeUvarint then pbEncVarint message field mem stream
    else if ltype = pbLtypeFixed32 ∨ ltype = pbLtypeFixed64 then pbEncFixed message field mem stream
    else if pbLtypeIsSubmsg field.type then pbEncSubmessage inner message field stream
    else ⟨some .invalidFieldType, stream⟩

def encodeField (inner : EncodeInner δ) (message : Int) (field : FieldValues δ) (mem : Mem) (stream : OStream) :
    Encoded :=
  let htype := pbHtype field.type
  let present :=
    if htype = pbHtypeOneof then whichField message field mem == field.tag.toNat
    else if htype = pbHtypeOptional then
      if field.pSize ≠ .null then safeReadBool mem (sizeAt message field)
      else !pbCheckProto3DefaultValue message field mem
    else true
  if present then encodeBasicField inner message field mem stream else .ok stream

end Encode

section Inside

variable {sizes : δ → Nat} {size : Nat} {descs : δ → MsgDesc δ} {message : Int} {field : FieldValues δ}

/-- A static field that is no array lies inside a struct of a size, with its flag or
its selector, and has room for what is stored in it. -/
structure Inside (sizes : δ → Nat) (size : Nat) (field : FieldValues δ) : Prop where
  single : pbHtype field.type ≠ pbHtypeRepeated
  data : ∃ offset : Nat, field.pData = .member offset ∧ offset + field.dataSize.toNat ≤ size
  bool : pbLtype field.type = pbLtypeBool → 1 ≤ field.dataSize.toNat
  fixed32 : pbLtype field.type = pbLtypeFixed32 → 4 ≤ field.dataSize.toNat
  fixed64 : pbLtype field.type = pbLtypeFixed64 → 8 ≤ field.dataSize.toNat
  submsg : ∀ sub, field.submsgDesc = some sub → sizes sub ≤ field.dataSize.toNat
  flag : pbHtype field.type = pbHtypeOptional →
    field.pSize = .null ∨ ∃ offset : Nat, field.pSize = .member offset ∧ offset + 1 ≤ size
  which : pbHtype field.type = pbHtypeOneof → ∃ offset : Nat, field.pSize = .member offset ∧ offset + 2 ≤ size

theorem frame_data (h : Inside sizes size field) (mem : Mem) {cells : List UInt8}
    (hlen : cells.length ≤ field.dataSize.toNat) : Frame message size mem (write mem (dataAt message field) cells) := by
  obtain ⟨offset, hdata, hle⟩ := h.data
  rw [dataAt, hdata]
  exact frame_write_at (by omega)

theorem frame_submsg (h : Inside sizes size field) {sub : δ} (hsub : field.submsgDesc = some sub) {mem mem' : Mem}
    (hframe : Frame (dataAt message field) (sizes sub) mem mem') : Frame message size mem mem' := by
  obtain ⟨offset, hdata, hle⟩ := h.data
  have hsize := h.submsg sub hsub
  rw [dataAt, hdata, address] at hframe
  exact hframe.mono (by omega) (by omega)

theorem frame_flag (h : Inside sizes size field) (hoptional : pbHtype field.type = pbHtypeOptional)
    (hflag : field.pSize ≠ .null) (mem : Mem) (b : UInt8) :
    Frame message size mem (write mem (sizeAt message field) [b]) := by
  rcases h.flag hoptional with hnull | ⟨offset, hsize, hle⟩
  · exact absurd hnull hflag
  · rw [sizeAt, hsize]
    exact frame_write_at hle

theorem frame_which (h : Inside sizes size field) (honeof : pbHtype field.type = pbHtypeOneof) (tag : Nat) (mem : Mem) :
    Frame message size mem (setWhichField message field tag mem) := by
  obtain ⟨offset, hsize, hle⟩ := h.which honeof
  rw [setWhichField, sizeAt, hsize]
  exact frame_write_at hle

theorem dest_ofRead_frame {α : Type} {a : Int} {n : Nat} {read : Read α} {store : α → Mem} {mem : Mem}
    (h : ∀ value, Frame a n mem (store value)) : Frame a n mem (Decoded.ofRead read store mem).dest := by
  cases read with
  | error e => exact .refl a n mem
  | ok r => exact h r.1

theorem pbDecVarint_frame (h : Inside sizes size field) (mem : Mem) (stream : IStream) :
    Frame message size mem (pbDecVarint message field mem stream).dest := by
  have hwrite : ∀ value, Frame message size mem
      (write mem (dataAt message field) (littleEndianBytes field.dataSize.toNat value)) := fun value =>
    frame_data h mem (Nat.le_of_eq (littleEndianBytes_length _ _))
  rw [pbDecVarint]
  cases pbDecodeVarint stream with
  | error e => exact .refl message size mem
  | ok r =>
      obtain ⟨value, rest⟩ := r
      dsimp only
      by_cases hunsigned : pbLtype field.type = pbLtypeUvarint
      · rw [if_pos hunsigned]
        cases castUnsigned value field.dataSize.toNat with
        | none => exact .refl message size mem
        | some clamped =>
            dsimp only
            split <;> exact hwrite _
      · rw [if_neg hunsigned]
        generalize (if field.dataSize.toNat = 8 then value.toInt64 else value.toUInt32.toInt32.toInt64) = svalue
        cases castSigned svalue field.dataSize.toNat with
        | none => exact .refl message size mem
        | some clamped =>
            dsimp only
            split <;> exact hwrite _

/-- A submessage is decoded inside its own struct. -/
theorem pbDecSubmessage_stored {sub : δ} (hsub : field.submsgDesc = some sub) {inner : DecodeInner δ}
    (hinner : ∀ mem stream,
      Frame (dataAt message field) (sizes sub) mem (inner sub (dataAt message field) mem stream).dest)
    (mem : Mem) (stream : IStream) :
    Frame (dataAt message field) (sizes sub) mem (pbDecSubmessage inner message field mem stream).dest := by
  rw [pbDecSubmessage, hsub]
  cases pbMakeStringSubstream stream with
  | error e => exact .refl _ _ mem
  | ok parts =>
      obtain ⟨substream, rest⟩ := parts
      have hframe := hinner mem substream
      dsimp only
      generalize inner sub (dataAt message field) mem substream = decoded at hframe ⊢
      cases decoded <;> exact hframe

theorem pbDecSubmessage_frame (h : Inside sizes size field) {inner : DecodeInner δ}
    (hinner : ∀ sub a mem stream, Frame a (sizes sub) mem (inner sub a mem stream).dest) (mem : Mem)
    (stream : IStream) : Frame message size mem (pbDecSubmessage inner message field mem stream).dest := by
  cases hsub : field.submsgDesc with
  | none =>
      rw [pbDecSubmessage, hsub]
      cases pbMakeStringSubstream stream <;> exact .refl message size mem
  | some sub =>
      have hstored : Frame (dataAt message field) (sizes sub) mem
          (pbDecSubmessage inner message field mem stream).dest :=
        pbDecSubmessage_stored hsub (fun mem stream => hinner sub _ mem stream) mem stream
      exact frame_submsg h hsub hstored

theorem decodeBasicField_frame (h : Inside sizes size field) {inner : DecodeInner δ}
    (hinner : ∀ sub a mem stream, Frame a (sizes sub) mem (inner sub a mem stream).dest) (wireType : UInt32) (mem : Mem)
    (stream : IStream) : Frame message size mem (decodeBasicField inner message field wireType mem stream).dest := by
  have hrefl := Frame.refl message size mem
  rw [decodeBasicField]
  split
  · rename_i hbool
    split
    · exact hrefl
    · exact dest_ofRead_frame fun value => frame_data h mem (h.bool hbool)
  · split
    · split
      · exact hrefl
      · exact pbDecVarint_frame h mem stream
    · split
      · rename_i hfixed
        split
        · exact hrefl
        · refine dest_ofRead_frame fun value => frame_data h mem ?_
          rw [littleEndianBytes_length]
          exact h.fixed32 hfixed
      · split
        · rename_i hfixed
          split
          · exact hrefl
          · refine dest_ofRead_frame fun value => frame_data h mem ?_
            rw [littleEndianBytes_length]
            exact h.fixed64 hfixed
        · split
          · split
            · exact hrefl
            · exact pbDecSubmessage_frame h hinner mem stream
          · exact hrefl

theorem clearUnion_frame (h : Inside sizes size field) {defaults : Defaults δ}
    (hdefaults : ∀ sub a mem, Frame a (sizes sub) mem (defaults sub a mem)) (mem : Mem) :
    Frame message size mem (clearUnion descs defaults message field mem) := by
  have hzeroed : Frame message size mem
      (write mem (dataAt message field) (List.replicate field.dataSize.toNat 0)) :=
    frame_data h mem (Nat.le_of_eq List.length_replicate)
  rw [clearUnion]
  split
  · dsimp only
    split
    · exact hzeroed
    · rename_i sub hsub
      split
      · exact hzeroed.trans (frame_submsg h hsub (hdefaults sub _ _))
      · exact hzeroed
  · exact .refl message size mem

/-- Whatever arrives for a field, it is stored inside the struct. -/
theorem decodeField_frame (h : Inside sizes size field) {defaults : Defaults δ} {inner : DecodeInner δ}
    (hdefaults : ∀ sub a mem, Frame a (sizes sub) mem (defaults sub a mem))
    (hinner : ∀ sub a mem stream, Frame a (sizes sub) mem (inner sub a mem stream).dest) (wireType : UInt32)
    (mem : Mem) (stream : IStream) :
    Frame message size mem (decodeField descs defaults inner message field wireType mem stream).dest := by
  have hbasic : ∀ mem, Frame message size mem (decodeBasicField inner message field wireType mem stream).dest :=
    fun mem => decodeBasicField_frame h hinner wireType mem stream
  rw [decodeField]
  split
  · rw [decodeStaticField]
    dsimp only
    split
    · exact hbasic mem
    · split
      · rename_i hoptional
        split
        · exact hbasic mem
        · rename_i hflag
          exact (frame_flag h hoptional hflag mem 1).trans (hbasic _)
      · split
        · rename_i honeof
          exact ((clearUnion_frame h hdefaults mem).trans (frame_which h honeof _ _)).trans (hbasic _)
        · exact .refl message size mem
  · exact .refl message size mem

theorem pbFieldSetToDefault_frame (h : Inside sizes size field) {defaults : Defaults δ}
    (hdefaults : ∀ sub a mem, Frame a (sizes sub) mem (defaults sub a mem)) (mem : Mem) :
    Frame message size mem (pbFieldSetToDefault descs defaults message field mem) := by
  rw [pbFieldSetToDefault]
  dsimp only
  have hflag : Frame message size mem (if pbHtype field.type = pbHtypeOptional ∧ field.pSize ≠ .null then
      write mem (sizeAt message field) [0] else mem) := by
    split
    · rename_i hoptional
      exact frame_flag h hoptional.1 hoptional.2 mem 0
    · exact .refl message size mem
  refine hflag.trans ?_
  generalize (if pbHtype field.type = pbHtypeOptional ∧ field.pSize ≠ .null then
      write mem (sizeAt message field) [0] else mem) = mem'
  have hzeroed : Frame message size mem'
      (write mem' (dataAt message field) (List.replicate field.dataSize.toNat 0)) :=
    frame_data h mem' (Nat.le_of_eq List.length_replicate)
  split
  · rename_i hcount
    exact frame_which h (hcount.resolve_left h.single) 0 mem'
  · split
    · exact hzeroed
    · rename_i sub hsub
      split
      · exact frame_submsg h hsub (hdefaults sub _ mem')
      · exact hzeroed

section Reads

variable {mem mem' : Mem}

end Reads

end Inside

end RaceControl.Nanopb.Struct
