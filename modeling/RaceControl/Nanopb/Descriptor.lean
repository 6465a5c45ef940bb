import Mathlib.Data.List.Basic
import RaceControl.Library.BitFields

namespace RaceControl.Nanopb

open BitFields

/-- The type byte of a field: its scalar type, its repetition rule and how it is
allocated. -/
abbrev PbType := UInt8

def pbLtypeSubmessage : PbType := 0x08
def pbLtypeSubmsgWCb : PbType := 0x09
def pbLtypeExtension : PbType := 0x0A
def pbLtypeMask : PbType := 0x0F

def pbHtypeRequired : PbType := 0x00
def pbHtypeRepeated : PbType := 0x20
def pbHtypeMask : PbType := 0x30

def pbAtypeStatic : PbType := 0x00
def pbAtypePointer : PbType := 0x80
def pbAtypeMask : PbType := 0xC0

def pbAtype (x : PbType) : PbType := x &&& pbAtypeMask
def pbHtype (x : PbType) : PbType := x &&& pbHtypeMask
def pbLtype (x : PbType) : PbType := x &&& pbLtypeMask

def pbLtypeIsSubmsg (x : PbType) : Bool := pbLtype x == pbLtypeSubmessage || pbLtype x == pbLtypeSubmsgWCb

/-- What the field list of a message and the compiler's layout of its struct say
about a field. -/
structure FieldInfo where
  tag : UInt32
  type : PbType
  dataOffset : UInt32
  dataSize : UInt32
  sizeOffset : Int32
  arraySize : UInt32
  deriving DecidableEq

inductive Width
  | one | two | four | eight
  deriving DecidableEq

def Width.words : Width → Nat
  | .one => 1
  | .two => 2
  | .four => 4
  | .eight => 8

/-- The lowest two bits of an entry, the logarithm of its number of words. -/
def Width.code : Width → UInt32
  | .one => 0
  | .two => 1
  | .four => 2
  | .eight => 3

/-- The macros PB_FIELDINFO_1 to PB_FIELDINFO_8. The offset of the count is cut to
eight bits in the two wide formats. -/
def pbFieldInfo (width : Width) (f : FieldInfo) : List UInt32 :=
  let tag : UInt32 := (f.tag <<< 2) &&& 0xFF
  let type : UInt32 := f.type.toUInt32 <<< 8
  let sizeOffset : UInt32 := f.sizeOffset.toUInt32
  let wide : UInt32 := f.sizeOffset.toInt8.toInt32.toUInt32 ||| ((f.tag <<< 2) &&& 0xFFFFFF00)
  match width with
  | .one =>
      [(0 : UInt32) ||| tag ||| type ||| ((f.dataOffset &&& 0xFF) <<< 16) ||| ((sizeOffset &&& 0x0F) <<< 24) |||
        ((f.dataSize &&& 0x0F) <<< 28)]
  | .two =>
      [(1 : UInt32) ||| tag ||| type ||| ((f.arraySize &&& 0xFFF) <<< 16) ||| ((sizeOffset &&& 0x0F) <<< 28),
        (f.dataOffset &&& (0xFFFF : UInt32)) ||| ((f.dataSize &&& 0xFFF) <<< 16) ||| ((f.tag &&& 0x3C0) <<< 22)]
  | .four => [(2 : UInt32) ||| tag ||| type ||| ((f.arraySize &&& 0xFFFF) <<< 16), wide, f.dataOffset, f.dataSize]
  | .eight => [(3 : UInt32) ||| tag ||| type, wide, f.dataOffset, f.dataSize, f.arraySize, 0, 0, 0]

def pbFits (value bits : UInt32) : Bool := value < 1 <<< bits

/-- The static assertions about one field, PB_FIELDINFO_ASSERT_1 to
PB_FIELDINFO_ASSERT_8. -/
def pbFieldInfoAssert (width : Width) (f : FieldInfo) : Bool :=
  let sizeOffset : UInt32 := f.sizeOffset.toUInt32
  let cut : UInt32 := f.sizeOffset.toInt8.toInt32.toUInt32
  match width with
  | .one =>
      pbFits f.tag 6 && pbFits f.dataOffset 8 && pbFits sizeOffset 4 && pbFits f.dataSize 4 && pbFits f.arraySize 1
  | .two =>
      pbFits f.tag 10 && pbFits f.dataOffset 16 && pbFits sizeOffset 4 && pbFits f.dataSize 12 && pbFits f.arraySize 12
  | .four | .eight =>
      pbFits f.tag 16 && pbFits f.dataOffset 16 && pbFits cut 8 && pbFits f.dataSize 16 && pbFits f.arraySize 16

/-- What the descriptor words say about a field. -/
structure Unpacked where
  type : PbType
  arraySize : UInt16
  tag : UInt16
  sizeOffset : Int8
  dataOffset : UInt32
  dataSize : UInt16
  deriving DecidableEq

/-- The switch of load_descriptor_values over the width of the field's entry. -/
def unpack (word : Nat → UInt32) : Unpacked :=
  let len : UInt32 := word 0 &&& 3
  let type := ((word 0 >>> 8) &&& 0xFF).toUInt8
  if len = 0 then
    { type := type
      arraySize := 1
      tag := ((word 0 >>> 2) &&& 0x3F).toUInt16
      sizeOffset := ((word 0 >>> 24) &&& 0x0F).toUInt8.toInt8
      dataOffset := (word 0 >>> 16) &&& (0xFF : UInt32)
      dataSize := ((word 0 >>> 28) &&& 0x0F).toUInt16 }
  else if len = 1 then
    { type := type
      arraySize := ((word 0 >>> 16) &&& 0x0FFF).toUInt16
      tag := (((word 0 >>> 2) &&& (0x3F : UInt32)) ||| ((word 1 >>> 28) <<< 6)).toUInt16
      sizeOffset := ((word 0 >>> 28) &&& 0x0F).toUInt8.toInt8
      dataOffset := word 1 &&& (0xFFFF : UInt32)
      dataSize := ((word 1 >>> 16) &&& 0x0FFF).toUInt16 }
  else if len = 2 then
    { type := type
      arraySize := (word 0 >>> 16).toUInt16
      tag := (((word 0 >>> 2) &&& (0x3F : UInt32)) ||| ((word 1 >>> 8) <<< 6)).toUInt16
      sizeOffset := (word 1 &&& 0xFF).toUInt8.toInt8
      dataOffset := word 2
      dataSize := (word 3).toUInt16 }
  else
    { type := type
      arraySize := (word 4).toUInt16
      tag := (((word 0 >>> 2) &&& (0x3F : UInt32)) ||| ((word 1 >>> 8) <<< 6)).toUInt16
      sizeOffset := (word 1 &&& 0xFF).toUInt8.toInt8
      dataOffset := word 2
      dataSize := (word 3).toUInt16 }

section Words

theorem mask_toNat (x mask : UInt32) (width : Nat) (hm : mask.toNat = 2 ^ width - 1) :
    (x &&& mask).toNat = x.toNat % 2 ^ width := by
  rw [UInt32.toNat_and, hm, Nat.and_two_pow_sub_one_eq_mod]

/-- A word of the descriptor with its fields, the lowest first. -/
structure Assembles (w : UInt32) (fields : List (Nat × Nat)) : Prop where
  word : w.toNat = assemble fields
  fit : Fit fields

theorem Assembles.or {w : UInt32} {fields : List (Nat × Nat)} (h : Assembles w fields) {x k : UInt32} (width : Nat)
    {value : Nat} (hk : k.toNat % 32 = totalWidth fields) (hx : x.toNat = value) (hv : value < 2 ^ width)
    (hroom : totalWidth fields + width ≤ 32) : Assembles (w ||| x <<< k) (fields ++ [(width, value)]) := by
  have hlt : value <<< totalWidth fields < 2 ^ 32 := by
    rw [Nat.shiftLeft_eq]
    calc value * 2 ^ totalWidth fields
      _ < 2 ^ width * 2 ^ totalWidth fields := Nat.mul_lt_mul_of_pos_right hv (Nat.two_pow_pos _)
      _ = 2 ^ (totalWidth fields + width) := by rw [← Nat.pow_add, Nat.add_comm]
      _ ≤ 2 ^ 32 := Nat.pow_le_pow_right (by decide) hroom
  refine ⟨?_, ?_⟩
  · rw [UInt32.toNat_or, UInt32.toNat_shiftLeft, hk, hx, h.word, Nat.mod_eq_of_lt hlt, or_field h.fit width]
  · intro f hf
    rcases List.mem_append.mp hf with hf | hf
    · exact h.fit f hf
    · rw [List.mem_singleton.mp hf]
      exact hv

theorem Assembles.read {w : UInt32} {fields : List (Nat × Nat)} (h : Assembles w fields) {j width value : Nat}
    (hj : fields[j]? = some (width, value)) :
    w.toNat / 2 ^ totalWidth (fields.take j) % 2 ^ width = value := by
  obtain ⟨hlt, hget⟩ := List.getElem?_eq_some_iff.mp hj
  have hsplit : fields = fields.take j ++ (width, value) :: fields.drop (j + 1) := by
    rw [← hget, List.getElem_cons_drop, List.take_append_drop]
  have hfit : Fit (fields.take j) := fun f hf => h.fit f (List.mem_of_mem_take hf)
  have hvalue : value < 2 ^ width := h.fit _ (List.mem_of_getElem? hj)
  have hread : field _ width (assemble (_ ++ _ :: fields.drop (j + 1))) = value := field_assemble hfit hvalue
  rw [← hsplit, ← h.word] at hread
  exact hread

theorem tag_low (tag : UInt32) : (tag <<< 2) &&& (0xFF : UInt32) = (tag &&& (0x3F : UInt32)) <<< 2 := by
  apply UInt32.toNat_inj.mp
  rw [mask_toNat _ _ 8 (by rfl), UInt32.toNat_shiftLeft, UInt32.toNat_shiftLeft, mask_toNat _ _ 6 (by rfl)]
  have h2 : (2 : UInt32).toNat % 32 = 2 := by rfl
  rw [h2, Nat.shiftLeft_eq, Nat.shiftLeft_eq]
  omega

theorem tag_high (tag : UInt32) : (tag <<< 2) &&& (0xFFFFFF00 : UInt32) = (tag >>> 6) <<< 8 := by
  apply UInt32.toNat_inj.mp
  have hmask : (0xFFFFFF00 : UInt32).toNat = (2 ^ 24 - 1) <<< 8 := by rfl
  have h2 : (2 : UInt32).toNat % 32 = 2 := by rfl
  have h6 : (6 : UInt32).toNat % 32 = 6 := by rfl
  have h8 : (8 : UInt32).toNat % 32 = 8 := by rfl
  rw [UInt32.toNat_and, UInt32.toNat_shiftLeft, UInt32.toNat_shiftLeft, UInt32.toNat_shiftRight, hmask, h2, h6, h8,
    and_shiftLeft, Nat.and_two_pow_sub_one_eq_mod]
  simp only [Nat.shiftLeft_eq, Nat.shiftRight_eq_div_pow]
  omega

theorem tag_mid (tag : UInt32) : (tag &&& (0x3C0 : UInt32)) <<< 22 = ((tag >>> 6) &&& (0xF : UInt32)) <<< 28 := by
  apply UInt32.toNat_inj.mp
  have hmask : (0x3C0 : UInt32).toNat = (2 ^ 4 - 1) <<< 6 := by rfl
  have h6 : (6 : UInt32).toNat % 32 = 6 := by rfl
  have h22 : (22 : UInt32).toNat % 32 = 22 := by rfl
  have h28 : (28 : UInt32).toNat % 32 = 28 := by rfl
  rw [UInt32.toNat_shiftLeft, UInt32.toNat_shiftLeft, UInt32.toNat_and, mask_toNat _ _ 4 (by rfl),
    UInt32.toNat_shiftRight, hmask, h6, h22, h28, and_shiftLeft, Nat.and_two_pow_sub_one_eq_mod]
  simp only [Nat.shiftLeft_eq, Nat.shiftRight_eq_div_pow]
  omega

def tagTypeFields (len : Nat) (f : FieldInfo) : List (Nat × Nat) :=
  [(2, len), (6, f.tag.toNat % 64), (8, f.type.toNat)]

theorem tagType_assembles {len : UInt32} (hlen : len.toNat < 4) (f : FieldInfo) :
    Assembles (len ||| ((f.tag <<< 2) &&& (0xFF : UInt32)) ||| (f.type.toUInt32 <<< 8))
      (tagTypeFields len.toNat f) := by
  have htype : f.type.toUInt32.toNat = f.type.toNat := UInt8.toNat_toUInt32 _
  have h0 : Assembles len [(2, len.toNat)] := ⟨by simp [assemble], by simpa [Fit] using hlen⟩
  rw [tag_low]
  have h1 := h0.or 6 (x := f.tag &&& (0x3F : UInt32)) (k := 2) rfl (mask_toNat _ _ 6 rfl) (Nat.mod_lt _ (by decide))
    (by simp [totalWidth])
  exact h1.or 8 (x := f.type.toUInt32) (k := 8) rfl htype f.type.toNat_lt (by simp [totalWidth])

def words (width : Width) (f : FieldInfo) : List (List (Nat × Nat)) :=
  let sizeOffset := f.sizeOffset.toUInt32.toNat
  let wide := [(8, f.sizeOffset.toInt8.toInt32.toUInt32.toNat), (24, f.tag.toNat / 64)]
  match width with
  | .one => [tagTypeFields 0 f ++ [(8, f.dataOffset.toNat), (4, sizeOffset), (4, f.dataSize.toNat)]]
  | .two =>
      [tagTypeFields 1 f ++ [(12, f.arraySize.toNat), (4, sizeOffset)],
        [(16, f.dataOffset.toNat), (12, f.dataSize.toNat), (4, f.tag.toNat / 64)]]
  | .four =>
      [tagTypeFields 2 f ++ [(16, f.arraySize.toNat)], wide, [(32, f.dataOffset.toNat)], [(32, f.dataSize.toNat)]]
  | .eight =>
      [tagTypeFields 3 f, wide, [(32, f.dataOffset.toNat)], [(32, f.dataSize.toNat)], [(32, f.arraySize.toNat)],
        [], [], []]

theorem pbFits_iff {value bits : UInt32} (h : bits.toNat < 32) :
    pbFits value bits = true ↔ value.toNat < 2 ^ bits.toNat := by
  have hlt : 1 <<< bits.toNat < 2 ^ 32 := by
    rw [Nat.one_shiftLeft]
    exact Nat.pow_lt_pow_right (by decide) h
  have hone : (1 : UInt32).toNat = 1 := rfl
  rw [pbFits, decide_eq_true_iff, UInt32.lt_iff_toNat_lt, UInt32.toNat_shiftLeft, Nat.mod_eq_of_lt h, hone,
    Nat.mod_eq_of_lt hlt, Nat.one_shiftLeft]

theorem word_assembles (w : UInt32) : Assembles w [(32, w.toNat)] :=
  ⟨by simp [assemble], by simpa [Fit] using w.toNat_lt⟩

theorem assert_one {f : FieldInfo} (h : pbFieldInfoAssert .one f = true) :
    f.tag.toNat < 2 ^ 6 ∧ f.dataOffset.toNat < 2 ^ 8 ∧ f.sizeOffset.toUInt32.toNat < 2 ^ 4 ∧
      f.dataSize.toNat < 2 ^ 4 ∧ f.arraySize.toNat < 2 ^ 1 := by
  simp only [pbFieldInfoAssert, Bool.and_eq_true] at h
  obtain ⟨⟨⟨⟨ht, ho⟩, hs⟩, hd⟩, ha⟩ := h
  exact ⟨(pbFits_iff (by decide)).mp ht, (pbFits_iff (by decide)).mp ho, (pbFits_iff (by decide)).mp hs,
    (pbFits_iff (by decide)).mp hd, (pbFits_iff (by decide)).mp ha⟩

theorem assert_two {f : FieldInfo} (h : pbFieldInfoAssert .two f = true) :
    f.tag.toNat < 2 ^ 10 ∧ f.dataOffset.toNat < 2 ^ 16 ∧ f.sizeOffset.toUInt32.toNat < 2 ^ 4 ∧
      f.dataSize.toNat < 2 ^ 12 ∧ f.arraySize.toNat < 2 ^ 12 := by
  simp only [pbFieldInfoAssert, Bool.and_eq_true] at h
  obtain ⟨⟨⟨⟨ht, ho⟩, hs⟩, hd⟩, ha⟩ := h
  exact ⟨(pbFits_iff (by decide)).mp ht, (pbFits_iff (by decide)).mp ho, (pbFits_iff (by decide)).mp hs,
    (pbFits_iff (by decide)).mp hd, (pbFits_iff (by decide)).mp ha⟩

/-- In the wide formats the offset of the count is tested after it was cut to
eight bits. -/
theorem assert_wide {width : Width} {f : FieldInfo} (hw : width = .four ∨ width = .eight)
    (h : pbFieldInfoAssert width f = true) :
    f.tag.toNat < 2 ^ 16 ∧ f.dataOffset.toNat < 2 ^ 16 ∧ f.sizeOffset.toInt8.toInt32.toUInt32.toNat < 2 ^ 8 ∧
      f.dataSize.toNat < 2 ^ 16 ∧ f.arraySize.toNat < 2 ^ 16 := by
  have h' : pbFieldInfoAssert .four f = true := by
    rcases hw with rfl | rfl
    · exact h
    · exact h
  simp only [pbFieldInfoAssert, Bool.and_eq_true] at h'
  obtain ⟨⟨⟨⟨ht, ho⟩, hs⟩, hd⟩, ha⟩ := h'
  exact ⟨(pbFits_iff (by decide)).mp ht, (pbFits_iff (by decide)).mp ho, (pbFits_iff (by decide)).mp hs,
    (pbFits_iff (by decide)).mp hd, (pbFits_iff (by decide)).mp ha⟩

theorem mask_fits {x mask : UInt32} {width : Nat} (hm : mask.toNat = 2 ^ width - 1) (hx : x.toNat < 2 ^ width) :
    (x &&& mask).toNat = x.toNat := by
  rw [mask_toNat x mask width hm, Nat.mod_eq_of_lt hx]

theorem tag_high_toNat (tag : UInt32) : (tag >>> 6).toNat = tag.toNat / 64 := by
  have h6 : (6 : UInt32).toNat % 32 = 6 := rfl
  rw [UInt32.toNat_shiftRight, h6, Nat.shiftRight_eq_div_pow]

theorem one_assembles {f : FieldInfo} (h : pbFieldInfoAssert .one f = true) :
    List.Forall₂ Assembles (pbFieldInfo .one f) (words .one f) := by
  obtain ⟨-, ho, hs, hd, -⟩ := assert_one h
  have ho' : (f.dataOffset &&& (0xFF : UInt32)).toNat = f.dataOffset.toNat := mask_fits rfl ho
  have hs' : (f.sizeOffset.toUInt32 &&& (0x0F : UInt32)).toNat = f.sizeOffset.toUInt32.toNat := mask_fits rfl hs
  have hd' : (f.dataSize &&& (0x0F : UInt32)).toNat = f.dataSize.toNat := mask_fits rfl hd
  have h0 := (tagType_assembles (by decide : UInt32.toNat 0 < 4) f).or 8 (k := 16) rfl ho' ho
    (by simp [totalWidth, tagTypeFields])
  have h1 := h0.or 4 (k := 24) rfl hs' hs (by simp [totalWidth, tagTypeFields])
  have h2 := h1.or 4 (k := 28) rfl hd' hd (by simp [totalWidth, tagTypeFields])
  exact .cons h2 .nil

theorem two_assembles {f : FieldInfo} (h : pbFieldInfoAssert .two f = true) :
    List.Forall₂ Assembles (pbFieldInfo .two f) (words .two f) := by
  obtain ⟨ht, ho, hs, hd, ha⟩ := assert_two h
  have ho' : (f.dataOffset &&& (0xFFFF : UInt32)).toNat = f.dataOffset.toNat := mask_fits rfl ho
  have hs' : (f.sizeOffset.toUInt32 &&& (0x0F : UInt32)).toNat = f.sizeOffset.toUInt32.toNat := mask_fits rfl hs
  have hd' : (f.dataSize &&& (0xFFF : UInt32)).toNat = f.dataSize.toNat := mask_fits rfl hd
  have ha' : (f.arraySize &&& (0xFFF : UInt32)).toNat = f.arraySize.toNat := mask_fits rfl ha
  have hfour : f.tag.toNat / 64 < 2 ^ 4 := by omega
  have ht' : ((f.tag >>> 6) &&& (0xF : UInt32)).toNat = f.tag.toNat / 64 := by
    rw [mask_fits rfl (by rw [tag_high_toNat]; exact hfour), tag_high_toNat]
  have h0 := (tagType_assembles (by decide : UInt32.toNat 1 < 4) f).or 12 (k := 16) rfl ha' ha
    (by simp [totalWidth, tagTypeFields])
  have h1 := h0.or 4 (k := 28) rfl hs' hs (by simp [totalWidth, tagTypeFields])
  have hlow : Assembles (f.dataOffset &&& (0xFFFF : UInt32)) [(16, f.dataOffset.toNat)] :=
    ⟨by simpa [assemble] using ho', by simpa [Fit] using ho⟩
  have hmid := hlow.or 12 (k := 16) rfl hd' hd (by simp [totalWidth])
  have h2 := hmid.or 4 (k := 28) rfl ht' hfour (by simp [totalWidth])
  rw [← tag_mid] at h2
  exact .cons h1 (.cons h2 .nil)

theorem wide_assembles {f : FieldInfo} (ht : f.tag.toNat < 2 ^ 16)
    (hs : f.sizeOffset.toInt8.toInt32.toUInt32.toNat < 2 ^ 8) :
    Assembles (f.sizeOffset.toInt8.toInt32.toUInt32 ||| ((f.tag <<< 2) &&& (0xFFFFFF00 : UInt32)))
      [(8, f.sizeOffset.toInt8.toInt32.toUInt32.toNat), (24, f.tag.toNat / 64)] := by
  have hlow : Assembles f.sizeOffset.toInt8.toInt32.toUInt32 [(8, f.sizeOffset.toInt8.toInt32.toUInt32.toNat)] :=
    ⟨by simp [assemble], by simpa [Fit] using hs⟩
  rw [tag_high]
  exact hlow.or 24 (k := 8) rfl (tag_high_toNat f.tag) (by omega) (by simp [totalWidth])

theorem four_assembles {f : FieldInfo} (h : pbFieldInfoAssert .four f = true) :
    List.Forall₂ Assembles (pbFieldInfo .four f) (words .four f) := by
  obtain ⟨ht, -, hs, -, ha⟩ := assert_wide (.inl rfl) h
  have ha' : (f.arraySize &&& (0xFFFF : UInt32)).toNat = f.arraySize.toNat := mask_fits rfl ha
  have h0 := (tagType_assembles (by decide : UInt32.toNat 2 < 4) f).or 16 (k := 16) rfl ha' ha
    (by simp [totalWidth, tagTypeFields])
  exact .cons h0 (.cons (wide_assembles ht hs) (.cons (word_assembles _) (.cons (word_assembles _) .nil)))

theorem eight_assembles {f : FieldInfo} (h : pbFieldInfoAssert .eight f = true) :
    List.Forall₂ Assembles (pbFieldInfo .eight f) (words .eight f) := by
  obtain ⟨ht, -, hs, -, -⟩ := assert_wide (.inr rfl) h
  have hzero : Assembles 0 [] := ⟨rfl, nofun⟩
  exact .cons (tagType_assembles (by decide : UInt32.toNat 3 < 4) f) <| .cons (wide_assembles ht hs) <|
    .cons (word_assembles _) <| .cons (word_assembles _) <| .cons (word_assembles _) <| .cons hzero <|
    .cons hzero <| .cons hzero .nil

theorem Assembles.low {w mask : UInt32} {fields : List (Nat × Nat)} (h : Assembles w fields) {width value : Nat}
    (hj : fields[0]? = some (width, value)) (hm : mask.toNat = 2 ^ width - 1) : (w &&& mask).toNat = value := by
  have hread := h.read hj
  rw [List.take_zero] at hread
  rw [mask_toNat w mask width hm, ← hread]
  simp [totalWidth]

theorem Assembles.masked {w mask k : UInt32} {fields : List (Nat × Nat)} (h : Assembles w fields) {width value : Nat}
    (j : Nat) (hj : fields[j]? = some (width, value)) (hk : k.toNat % 32 = totalWidth (fields.take j))
    (hm : mask.toNat = 2 ^ width - 1) : ((w >>> k) &&& mask).toNat = value := by
  rw [mask_toNat _ mask width hm, UInt32.toNat_shiftRight, hk, Nat.shiftRight_eq_div_pow]
  exact h.read hj

theorem Assembles.top {w k : UInt32} {fields : List (Nat × Nat)} (h : Assembles w fields) {width value : Nat} (j : Nat)
    (hj : fields[j]? = some (width, value)) (hk : k.toNat % 32 = totalWidth (fields.take j))
    (hfull : totalWidth (fields.take j) + width = 32) : (w >>> k).toNat = value := by
  have hlt : w.toNat / 2 ^ totalWidth (fields.take j) < 2 ^ width := by
    rw [Nat.div_lt_iff_lt_mul (Nat.two_pow_pos _), ← Nat.pow_add, Nat.add_comm, hfull]
    exact w.toNat_lt
  rw [UInt32.toNat_shiftRight, hk, Nat.shiftRight_eq_div_pow, ← Nat.mod_eq_of_lt hlt]
  exact h.read hj

theorem toUInt8_toInt8 (s : Int32) : s.toUInt32.toUInt8.toInt8 = s.toInt8 := by
  apply Int8.toBitVec_inj.mp
  exact (BitVec.signExtend_eq_setWidth_of_le s.toBitVec (by decide)).symm

theorem join_tag {low high : UInt32} {tag : UInt32} (hl : low.toNat = tag.toNat % 64) (hh : high.toNat = tag.toNat / 64)
    (ht : tag.toNat < 2 ^ 16) : (low ||| high <<< 6).toUInt16 = tag.toUInt16 := by
  have hlow : Assembles low [(6, tag.toNat % 64)] :=
    ⟨by simpa [assemble] using hl, by simpa [Fit] using Nat.mod_lt tag.toNat (by decide)⟩
  have hjoin := (hlow.or 10 (k := 6) rfl hh (by omega) (by simp [totalWidth])).word
  apply UInt16.toNat_inj.mp
  rw [UInt32.toNat_toUInt16, UInt32.toNat_toUInt16, hjoin]
  simp only [List.cons_append, List.nil_append, assemble]
  omega

/-- What an entry gives back. A format of one word has no room for the array
size, which is one there. -/
def packed (width : Width) (f : FieldInfo) : Unpacked where
  type := f.type
  arraySize := if width = .one then 1 else f.arraySize.toUInt16
  tag := f.tag.toUInt16
  sizeOffset := f.sizeOffset.toInt8
  dataOffset := f.dataOffset
  dataSize := f.dataSize.toUInt16

theorem type_of_toNat {x : UInt32} {type : PbType} (h : x.toNat = type.toNat) : x.toUInt8 = type := by
  apply UInt8.toNat_inj.mp
  rw [UInt32.toNat_toUInt8, h, Nat.mod_eq_of_lt type.toNat_lt]

theorem unpack_one {f : FieldInfo} {word : Nat → UInt32} (h : Assembles (word 0) (tagTypeFields 0 f ++
    [(8, f.dataOffset.toNat), (4, f.sizeOffset.toUInt32.toNat), (4, f.dataSize.toNat)]))
    (ht : f.tag.toNat < 2 ^ 6) : unpack word = packed .one f := by
  have hlen : word 0 &&& 3 = 0 := UInt32.toNat_inj.mp (h.low rfl rfl)
  have htype : ((word 0 >>> 8) &&& 0xFF).toUInt8 = f.type := type_of_toNat (h.masked 2 rfl rfl rfl)
  have htag : (word 0 >>> 2) &&& 0x3F = f.tag := UInt32.toNat_inj.mp
    ((h.masked 1 rfl rfl rfl).trans (Nat.mod_eq_of_lt ht))
  have hsize : (word 0 >>> 24) &&& 0x0F = f.sizeOffset.toUInt32 := UInt32.toNat_inj.mp (h.masked 4 rfl rfl rfl)
  have hoff : (word 0 >>> 16) &&& 0xFF = f.dataOffset := UInt32.toNat_inj.mp (h.masked 3 rfl rfl rfl)
  have hdata : (word 0 >>> 28) &&& 0x0F = f.dataSize := UInt32.toNat_inj.mp (h.masked 5 rfl rfl rfl)
  simp only [unpack, hlen, if_true, htype, htag, hsize, hoff, hdata, toUInt8_toInt8, packed]

theorem unpack_two {f : FieldInfo} {word : Nat → UInt32}
    (h : Assembles (word 0) (tagTypeFields 1 f ++ [(12, f.arraySize.toNat), (4, f.sizeOffset.toUInt32.toNat)]))
    (h1 : Assembles (word 1) [(16, f.dataOffset.toNat), (12, f.dataSize.toNat), (4, f.tag.toNat / 64)])
    (ht : f.tag.toNat < 2 ^ 10) : unpack word = packed .two f := by
  have hlen : word 0 &&& 3 = 1 := UInt32.toNat_inj.mp (h.low rfl rfl)
  have htype : ((word 0 >>> 8) &&& 0xFF).toUInt8 = f.type := type_of_toNat (h.masked 2 rfl rfl rfl)
  have hlow : ((word 0 >>> 2) &&& 0x3F).toNat = f.tag.toNat % 64 := h.masked 1 rfl rfl rfl
  have hhigh : (word 1 >>> 28).toNat = f.tag.toNat / 64 := h1.top 2 rfl rfl rfl
  have htag := join_tag hlow hhigh (by omega)
  have harray : (word 0 >>> 16) &&& 0x0FFF = f.arraySize := UInt32.toNat_inj.mp (h.masked 3 rfl rfl rfl)
  have hsize : (word 0 >>> 28) &&& 0x0F = f.sizeOffset.toUInt32 := UInt32.toNat_inj.mp (h.masked 4 rfl rfl rfl)
  have hoff : word 1 &&& 0xFFFF = f.dataOffset := UInt32.toNat_inj.mp (h1.low rfl rfl)
  have hdata : (word 1 >>> 16) &&& 0x0FFF = f.dataSize := UInt32.toNat_inj.mp (h1.masked 1 rfl rfl rfl)
  simp only [unpack, hlen, htype, htag, harray, hsize, hoff, hdata, toUInt8_toInt8, packed]
  rw [if_neg (by decide), if_pos trivial, if_neg (by decide)]

theorem wide_size {f : FieldInfo} {w : UInt32} (h : Assembles w
    [(8, f.sizeOffset.toInt8.toInt32.toUInt32.toNat), (24, f.tag.toNat / 64)]) :
    (w &&& 0xFF).toUInt8.toInt8 = f.sizeOffset.toInt8 := by
  have hcut : w &&& 0xFF = f.sizeOffset.toInt8.toInt32.toUInt32 := UInt32.toNat_inj.mp (h.low rfl rfl)
  rw [hcut, toUInt8_toInt8, Int8.toInt8_toInt32]

theorem wide_tag {f : FieldInfo} {w0 w1 : UInt32} {len : Nat} {fields : List (Nat × Nat)}
    (h : Assembles w0 (tagTypeFields len f ++ fields))
    (h1 : Assembles w1 [(8, f.sizeOffset.toInt8.toInt32.toUInt32.toNat), (24, f.tag.toNat / 64)])
    (ht : f.tag.toNat < 2 ^ 16) :
    (((w0 >>> 2) &&& (0x3F : UInt32)) ||| ((w1 >>> 8) <<< 6)).toUInt16 = f.tag.toUInt16 := by
  have hlow : ((w0 >>> 2) &&& (0x3F : UInt32)).toNat = f.tag.toNat % 64 := h.masked 1 rfl rfl rfl
  exact join_tag hlow (h1.top 1 rfl rfl rfl) ht

theorem unpack_four {f : FieldInfo} {word : Nat → UInt32}
    (h : Assembles (word 0) (tagTypeFields 2 f ++ [(16, f.arraySize.toNat)]))
    (h1 : Assembles (word 1) [(8, f.sizeOffset.toInt8.toInt32.toUInt32.toNat), (24, f.tag.toNat / 64)])
    (h2 : word 2 = f.dataOffset) (h3 : word 3 = f.dataSize) (ht : f.tag.toNat < 2 ^ 16) :
    unpack word = packed .four f := by
  have hlen : word 0 &&& 3 = 2 := UInt32.toNat_inj.mp (h.low rfl rfl)
  have htype : ((word 0 >>> 8) &&& 0xFF).toUInt8 = f.type := type_of_toNat (h.masked 2 rfl rfl rfl)
  have harray : word 0 >>> 16 = f.arraySize := UInt32.toNat_inj.mp (h.top 3 rfl rfl rfl)
  simp only [unpack, hlen, htype, wide_tag h h1 ht, wide_size h1, harray, h2, h3, packed]
  rw [if_neg (by decide), if_neg (by decide), if_pos trivial, if_neg (by decide)]

theorem unpack_eight {f : FieldInfo} {word : Nat → UInt32} (h : Assembles (word 0) (tagTypeFields 3 f))
    (h1 : Assembles (word 1) [(8, f.sizeOffset.toInt8.toInt32.toUInt32.toNat), (24, f.tag.toNat / 64)])
    (h2 : word 2 = f.dataOffset) (h3 : word 3 = f.dataSize) (h4 : word 4 = f.arraySize) (ht : f.tag.toNat < 2 ^ 16) :
    unpack word = packed .eight f := by
  have hlen : word 0 &&& 3 = 3 := UInt32.toNat_inj.mp (h.low rfl rfl)
  have htype : ((word 0 >>> 8) &&& 0xFF).toUInt8 = f.type := type_of_toNat (h.masked 2 rfl rfl rfl)
  have h' : Assembles (word 0) (tagTypeFields 3 f ++ []) := by simpa using h
  simp only [unpack, hlen, htype, wide_tag h' h1 ht, wide_size h1, h2, h3, h4, packed]
  rw [if_neg (by decide), if_neg (by decide), if_neg (by decide), if_neg (by decide)]

theorem head_assembles {width : Width} {f : FieldInfo} (h : pbFieldInfoAssert width f = true) :
    ∃ w fields, (pbFieldInfo width f)[0]? = some w ∧ Assembles w (tagTypeFields width.code.toNat f ++ fields) := by
  cases width with
  | one =>
      cases one_assembles h with
      | cons h0 _ => exact ⟨_, _, rfl, h0⟩
  | two =>
      cases two_assembles h with
      | cons h0 _ => exact ⟨_, _, rfl, h0⟩
  | four =>
      cases four_assembles h with
      | cons h0 _ => exact ⟨_, _, rfl, h0⟩
  | eight =>
      cases eight_assembles h with
      | cons h0 _ => exact ⟨_, [], rfl, h0⟩

/-- What every format has in its first word. -/
theorem head_word {width : Width} {f : FieldInfo} (h : pbFieldInfoAssert width f = true) :
    ∃ w, (pbFieldInfo width f)[0]? = some w ∧ w &&& 3 = width.code ∧ ((w >>> 8) &&& 0xFF).toUInt8 = f.type ∧
      (w >>> 2) &&& 0x3F = f.tag &&& 0x3F := by
  obtain ⟨w, fields, hw, hfields⟩ := head_assembles h
  have hlen : (w &&& 3).toNat = width.code.toNat := hfields.low rfl rfl
  have htype : ((w >>> 8) &&& 0xFF).toNat = f.type.toNat := hfields.masked 2 rfl rfl rfl
  have htag : ((w >>> 2) &&& (0x3F : UInt32)).toNat = f.tag.toNat % 64 := hfields.masked 1 rfl rfl rfl
  refine ⟨w, hw, UInt32.toNat_inj.mp hlen, type_of_toNat htype, UInt32.toNat_inj.mp ?_⟩
  have hmask : (f.tag &&& (0x3F : UInt32)).toNat = f.tag.toNat % 2 ^ 6 := mask_toNat f.tag _ 6 rfl
  exact htag.trans hmask.symm

end Words

/-- An entry that passes its assertion is read as the field it was written for,
in each of the four formats. -/
theorem unpack_pbFieldInfo {width : Width} {f : FieldInfo} (h : pbFieldInfoAssert width f = true) {word : Nat → UInt32}
    (hword : ∀ j w, (pbFieldInfo width f)[j]? = some w → word j = w) : unpack word = packed width f := by
  cases width with
  | one =>
      have hw := hword 0 _ rfl
      cases one_assembles h with
      | cons h0 _ => exact unpack_one (hw ▸ h0) (assert_one h).1
  | two =>
      have hw0 := hword 0 _ rfl
      have hw1 := hword 1 _ rfl
      cases two_assembles h with
      | cons h0 hrest =>
          cases hrest with
          | cons h1 _ => exact unpack_two (hw0 ▸ h0) (hw1 ▸ h1) (assert_two h).1
  | four =>
      have hw0 := hword 0 _ rfl
      have hw1 := hword 1 _ rfl
      cases four_assembles h with
      | cons h0 hrest =>
          cases hrest with
          | cons h1 _ =>
              exact unpack_four (hw0 ▸ h0) (hw1 ▸ h1) (hword 2 _ rfl) (hword 3 _ rfl) (assert_wide (.inl rfl) h).1
  | eight =>
      have hw0 := hword 0 _ rfl
      have hw1 := hword 1 _ rfl
      cases eight_assembles h with
      | cons h0 hrest =>
          cases hrest with
          | cons h1 _ =>
              exact unpack_eight (hw0 ▸ h0) (hw1 ▸ h1) (hword 2 _ rfl) (hword 3 _ rfl) (hword 4 _ rfl)
                (assert_wide (.inr rfl) h).1

theorem cut_eq_iff (s : Int32) : s.toInt8.toInt32 = s ↔ -128 ≤ s.toInt ∧ s.toInt < 128 := by
  rw [← Int32.toInt_inj, Int8.toInt_toInt32, Int32.toInt_toInt8, Int.bmod_def]
  omega

theorem arraySize_lt {width : Width} {f : FieldInfo} (h : pbFieldInfoAssert width f = true) :
    f.dataSize.toNat < 2 ^ 16 ∧ f.arraySize.toNat < 2 ^ 16 := by
  cases width with
  | one =>
      obtain ⟨-, -, -, hd, ha⟩ := assert_one h
      omega
  | two =>
      obtain ⟨-, -, -, hd, ha⟩ := assert_two h
      omega
  | four => exact ⟨(assert_wide (.inl rfl) h).2.2.2.1, (assert_wide (.inl rfl) h).2.2.2.2⟩
  | eight => exact ⟨(assert_wide (.inr rfl) h).2.2.2.1, (assert_wide (.inr rfl) h).2.2.2.2⟩

theorem tag_fits {width : Width} {f : FieldInfo} (h : pbFieldInfoAssert width f = true) : f.tag.toNat < 2 ^ 16 := by
  cases width with
  | one => exact Nat.lt_trans (assert_one h).1 (by decide)
  | two => exact Nat.lt_trans (assert_two h).1 (by decide)
  | four => exact (assert_wide (.inl rfl) h).1
  | eight => exact (assert_wide (.inr rfl) h).1

/-- What the assertion of a format promises about reading its entries. The offset
of the count comes back exactly when a signed byte holds it: the wide formats
test it only after they have cut it to one. -/
theorem entry_reads_back {width : Width} {f : FieldInfo} (h : pbFieldInfoAssert width f = true) {word : Nat → UInt32}
    (hword : ∀ j w, (pbFieldInfo width f)[j]? = some w → word j = w) :
    (unpack word).type = f.type ∧ (unpack word).tag.toNat = f.tag.toNat ∧ (unpack word).dataOffset = f.dataOffset ∧
      (unpack word).dataSize.toNat = f.dataSize.toNat ∧
      (unpack word).arraySize.toNat = (if width = .one then 1 else f.arraySize.toNat) ∧
      ((unpack word).sizeOffset.toInt32 = f.sizeOffset ↔ -128 ≤ f.sizeOffset.toInt ∧ f.sizeOffset.toInt < 128) ∧
      (width = .one ∨ width = .two → (unpack word).sizeOffset.toInt32 = f.sizeOffset) := by
  have hunpack := unpack_pbFieldInfo h hword
  obtain ⟨hdata, harray⟩ := arraySize_lt h
  have hcut := cut_eq_iff f.sizeOffset
  rw [hunpack]
  refine ⟨rfl, ?_, rfl, ?_, ?_, hcut, fun hnarrow => hcut.mpr ?_⟩
  · rw [packed, UInt32.toNat_toUInt16, Nat.mod_eq_of_lt (tag_fits h)]
  · rw [packed, UInt32.toNat_toUInt16, Nat.mod_eq_of_lt hdata]
  · rw [packed]
    split
    · rfl
    · rw [UInt32.toNat_toUInt16, Nat.mod_eq_of_lt harray]
  · have hsmall : f.sizeOffset.toUInt32.toNat < 2 ^ 4 := by
      rcases hnarrow with rfl | rfl
      · exact (assert_one h).2.2.1
      · exact (assert_two h).2.2.1
    have hint : f.sizeOffset.toInt = (f.sizeOffset.toUInt32.toNat : Int) :=
      BitVec.toInt_eq_toNat_of_lt (by
        have hbits : f.sizeOffset.toBitVec.toNat = f.sizeOffset.toUInt32.toNat := rfl
        omega)
    omega

/-- The count of a field that lies 256 bytes before it passes the assertion of a
wide format, and is lost. -/
theorem far_count_reads_back :
    pbFieldInfoAssert .four ⟨1, 0x20, 260, 4, 256, 64⟩ = true ∧
      ¬ (unpack fun j => (pbFieldInfo .four ⟨1, 0x20, 260, 4, 256, 64⟩).getD j 0).sizeOffset.toInt32 = 256 := by
  have hassert : pbFieldInfoAssert .four ⟨1, 0x20, 260, 4, 256, 64⟩ = true := by decide
  have hread := entry_reads_back hassert (fun j w hj => congrArg (Option.getD · 0) hj)
  exact ⟨hassert, fun heq => absurd (hread.2.2.2.2.2.1.mp heq).2 (by decide)⟩

end RaceControl.Nanopb
