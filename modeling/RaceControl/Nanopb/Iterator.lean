import RaceControl.Library.Scan
import RaceControl.Nanopb.Descriptor

namespace RaceControl.Nanopb

open Scan

variable {δ : Type}

/-- A message descriptor. δ stands for the descriptors of submessages, and beyond
for what a read behind the end of the table would find. -/
structure MsgDesc (δ : Type) where
  fieldInfo : List UInt32
  submsgInfo : List (Option δ)
  fieldCount : UInt16
  largestTag : UInt16
  beyond : Nat → UInt32

def MsgDesc.word (desc : MsgDesc δ) (i : Nat) : UInt32 := desc.fieldInfo[i]?.getD (desc.beyond i)

/-- Where a pointer of the iterator leads: nowhere, into the message struct, to
where a pointer in the struct leads, or to the iterator's own array size. -/
inductive Addr
  | null
  | member (offset : Int)
  | pointee (offset : Int)
  | arraySize
  deriving DecidableEq

structure Position where
  index : UInt16
  fieldInfoIndex : UInt16
  requiredFieldIndex : UInt16
  submessageIndex : UInt16
  deriving DecidableEq

structure FieldValues (δ : Type) where
  tag : UInt16
  dataSize : UInt16
  arraySize : UInt16
  type : PbType
  pField : Addr
  pData : Addr
  pSize : Addr
  submsgDesc : Option δ

/-- A field iterator, with its message present or null. -/
structure FieldIter (δ : Type) where
  descriptor : MsgDesc δ
  message : Bool
  pos : Position
  field : FieldValues δ

def countPointer (u : Unpacked) : Addr :=
  if u.sizeOffset ≠ 0 then .member (u.dataOffset.toNat - u.sizeOffset.toInt)
  else if pbHtype u.type = pbHtypeRepeated ∧ (pbAtype u.type = pbAtypeStatic ∨ pbAtype u.type = pbAtypePointer) then
    .arraySize
  else .null

/-- Without a message pData is left as it is. -/
def fieldValues (message : Bool) (u : Unpacked) (pData : Addr) (submsgDesc : Option δ) : FieldValues δ where
  tag := u.tag
  dataSize := u.dataSize
  arraySize := u.arraySize
  type := u.type
  pField := if message then .member u.dataOffset.toNat else .null
  pSize := if message then countPointer u else .null
  pData :=
    if message then
      if pbAtype u.type = pbAtypePointer then .pointee u.dataOffset.toNat else .member u.dataOffset.toNat
    else pData
  submsgDesc := if pbLtypeIsSubmsg u.type then submsgDesc else none

def loadDescriptorValues (iter : FieldIter δ) : Bool × FieldIter δ :=
  if iter.descriptor.fieldCount ≤ iter.pos.index then (false, iter)
  else
    let u := unpack fun j => iter.descriptor.word (iter.pos.fieldInfoIndex.toNat + j)
    let submsgDesc := iter.descriptor.submsgInfo.getD iter.pos.submessageIndex.toNat none
    (true, { iter with field := fieldValues iter.message u iter.field.pData submsgDesc })

def advanceIterator (iter : FieldIter δ) : FieldIter δ :=
  let index := iter.pos.index + 1
  if iter.descriptor.fieldCount ≤ index then { iter with pos := ⟨0, 0, 0, 0⟩ }
  else
    let prevDescriptor := iter.descriptor.word iter.pos.fieldInfoIndex.toNat
    let prevType := ((prevDescriptor >>> 8) &&& 0xFF).toUInt8
    let descriptorLen : UInt16 := ((1 : UInt32) <<< (prevDescriptor &&& 3)).toUInt16
    { iter with
      pos :=
        { index := index
          fieldInfoIndex := iter.pos.fieldInfoIndex + descriptorLen
          requiredFieldIndex := iter.pos.requiredFieldIndex + (if pbHtype prevType = pbHtypeRequired then 1 else 0)
          submessageIndex := iter.pos.submessageIndex + (if pbLtypeIsSubmsg prevType then 1 else 0) } }

def pbFieldIterBegin (desc : MsgDesc δ) (message : Bool) : Bool × FieldIter δ :=
  loadDescriptorValues ⟨desc, message, ⟨0, 0, 0, 0⟩, ⟨0, 0, 0, 0, .null, .null, .null, none⟩⟩

def pbFieldIterNext (iter : FieldIter δ) : Bool × FieldIter δ :=
  let iter := (loadDescriptorValues (advanceIterator iter)).2
  (iter.pos.index != 0, iter)

/-- The loop of the two searches. It advances without loading, and a probe of the
field it is at may load the field and return. A pass moves on by one field, so
one more pass than there are fields is enough. -/
def searchLoop (probe : FieldIter δ → Option Bool × FieldIter δ) (start : UInt16) (iter : FieldIter δ) :
    Bool × FieldIter δ :=
  scan advanceIterator probe (fun iter => iter.pos.index == start) (fun iter => (false, (loadDescriptorValues iter).2))
    (iter.descriptor.fieldCount.toNat + 1) iter

/-- The lowest six bits of the tag are compared before the field is loaded. -/
def probeTag (tag : UInt32) (iter : FieldIter δ) : Option Bool × FieldIter δ :=
  let fieldinfo := iter.descriptor.word iter.pos.fieldInfoIndex.toNat
  if (fieldinfo >>> 2) &&& 0x3F = tag &&& 0x3F then
    let iter := (loadDescriptorValues iter).2
    if iter.field.tag.toUInt32 = tag ∧ pbLtype iter.field.type ≠ pbLtypeExtension then (some true, iter)
    else (none, iter)
  else (none, iter)

/-- With the index at the end, the next advance starts over from the first field. -/
def FieldIter.atEnd (iter : FieldIter δ) : FieldIter δ :=
  { iter with pos.index := iter.descriptor.fieldCount }

def pbFieldIterFind (iter : FieldIter δ) (tag : UInt32) : Bool × FieldIter δ :=
  if iter.field.tag.toUInt32 = tag then (true, iter)
  else if iter.descriptor.largestTag.toUInt32 < tag then (false, iter)
  else if tag < iter.field.tag.toUInt32 then
    searchLoop (probeTag tag) iter.pos.index iter.atEnd
  else searchLoop (probeTag tag) iter.pos.index iter

def probeExtension (iter : FieldIter δ) : Option Bool × FieldIter δ :=
  let fieldinfo := iter.descriptor.word iter.pos.fieldInfoIndex.toNat
  if pbLtype ((fieldinfo >>> 8) &&& 0xFF).toUInt8 = pbLtypeExtension then
    let (loaded, iter) := loadDescriptorValues iter
    (some loaded, iter)
  else (none, iter)

def pbFieldIterFindExtension (iter : FieldIter δ) : Bool × FieldIter δ :=
  if pbLtype iter.field.type = pbLtypeExtension then (true, iter)
  else searchLoop probeExtension iter.pos.index iter

/-- A field of a message with the format its entry is written in, as PB_BIND has
it: the entry passes its assertion, a tag is not zero, and the fields that are
submessages come with a descriptor. -/
structure Entry (δ : Type) where
  width : Width
  info : FieldInfo
  submsg : Option δ
  fits : pbFieldInfoAssert width info = true
  tag_ne_zero : info.tag ≠ 0
  nested : submsg.isSome = pbLtypeIsSubmsg info.type

def pbBind (beyond : Nat → UInt32) (entries : List (Entry δ)) : MsgDesc δ where
  fieldInfo := entries.flatMap (fun e => pbFieldInfo e.width e.info) ++ [0]
  submsgInfo := (entries.filterMap Entry.submsg).map some ++ [none]
  fieldCount := UInt16.ofNat entries.length
  largestTag := (entries.getLast?.map fun e => e.info.tag.toUInt16).getD 0
  beyond := beyond

section Bind

variable {beyond : Nat → UInt32} {entries : List (Entry δ)}

def wordsBefore (entries : List (Entry δ)) (k : Nat) : Nat := ((entries.take k).map fun e => e.width.words).sum

def requiredBefore (entries : List (Entry δ)) (k : Nat) : Nat :=
  (entries.take k).countP fun e => pbHtype e.info.type = pbHtypeRequired

def submsgBefore (entries : List (Entry δ)) (k : Nat) : Nat :=
  (entries.take k).countP fun e => pbLtypeIsSubmsg e.info.type

theorem take_succ_of {k : Nat} {e : Entry δ} (hk : entries[k]? = some e) :
    entries.take (k + 1) = entries.take k ++ [e] := by
  rw [List.take_add_one, hk]
  rfl

theorem wordsBefore_succ {k : Nat} {e : Entry δ} (hk : entries[k]? = some e) :
    wordsBefore entries (k + 1) = wordsBefore entries k + e.width.words := by
  simp [wordsBefore, take_succ_of hk]

theorem requiredBefore_succ {k : Nat} {e : Entry δ} (hk : entries[k]? = some e) :
    requiredBefore entries (k + 1) =
      requiredBefore entries k + if pbHtype e.info.type = pbHtypeRequired then 1 else 0 := by
  simp [requiredBefore, take_succ_of hk, List.countP_append, List.countP_singleton]

theorem submsgBefore_succ {k : Nat} {e : Entry δ} (hk : entries[k]? = some e) :
    submsgBefore entries (k + 1) = submsgBefore entries k + if pbLtypeIsSubmsg e.info.type then 1 else 0 := by
  simp [submsgBefore, take_succ_of hk, List.countP_append, List.countP_singleton]

theorem pbFieldInfo_length (width : Width) (f : FieldInfo) : (pbFieldInfo width f).length = width.words := by
  cases width <;> rfl

theorem split_at {k : Nat} {e : Entry δ} (hk : entries[k]? = some e) :
    entries = entries.take k ++ e :: entries.drop (k + 1) := by
  obtain ⟨hlt, hget⟩ := List.getElem?_eq_some_iff.mp hk
  rw [← hget, List.getElem_cons_drop, List.take_append_drop]

theorem flatMap_words (entries : List (Entry δ)) :
    (entries.flatMap fun e => pbFieldInfo e.width e.info).length = (entries.map fun e => e.width.words).sum := by
  simp [List.length_flatMap, pbFieldInfo_length]

theorem word_bind {k j : Nat} {e : Entry δ} {w : UInt32} (hk : entries[k]? = some e)
    (hj : (pbFieldInfo e.width e.info)[j]? = some w) :
    (pbBind beyond entries).word (wordsBefore entries k + j) = w := by
  have hlen := flatMap_words (entries.take k)
  have hlt : j < (pbFieldInfo e.width e.info).length := (List.getElem?_eq_some_iff.mp hj).1
  have hread : (entries.flatMap (fun e => pbFieldInfo e.width e.info) ++ [0])[wordsBefore entries k + j]? = some w := by
    conv => lhs; lhs; rw [split_at hk]
    rw [List.flatMap_append, List.flatMap_cons, List.append_assoc, wordsBefore, ← hlen,
      List.getElem?_append_right (by omega), Nat.add_sub_cancel_left, List.append_assoc,
      List.getElem?_append_left hlt, hj]
  show (entries.flatMap (fun e => pbFieldInfo e.width e.info) ++ [0])[wordsBefore entries k + j]?.getD _ = w
  rw [hread]
  rfl

/-- The tags of a message go up, and its table of words fits the index. -/
structure Bindable (entries : List (Entry δ)) : Prop where
  ascending : (entries.map fun e => e.info.tag).Pairwise (· < ·)
  words : (entries.map fun e => e.width.words).sum < 65536

theorem wordsBefore_le (entries : List (Entry δ)) (k : Nat) :
    wordsBefore entries k ≤ (entries.map fun e => e.width.words).sum := by
  have hsplit : (entries.map fun e => e.width.words).sum =
      wordsBefore entries k + ((entries.drop k).map fun e => e.width.words).sum := by
    rw [wordsBefore, ← List.sum_append, ← List.map_append, List.take_append_drop]
  omega

theorem length_le_words (entries : List (Entry δ)) : entries.length ≤ (entries.map fun e => e.width.words).sum := by
  induction entries with
  | nil => simp
  | cons e entries ih =>
      have hone : 1 ≤ e.width.words := by cases e.width <;> decide
      rw [List.length_cons, List.map_cons, List.sum_cons]
      omega

theorem tag_lt (e : Entry δ) : e.info.tag.toNat < 2 ^ 16 := tag_fits e.fits

theorem tag_index (hb : Bindable entries) (k : Nat) {e : Entry δ} (hk : entries[k]? = some e) :
    k < e.info.tag.toNat := by
  induction k generalizing e with
  | zero =>
      have hne : e.info.tag.toNat ≠ 0 := fun h => e.tag_ne_zero (UInt32.toNat_inj.mp h)
      omega
  | succ k ih =>
      obtain ⟨hlt, hget⟩ := List.getElem?_eq_some_iff.mp hk
      have hprev := ih (List.getElem?_eq_getElem (by omega : k < entries.length))
      have hasc := List.pairwise_iff_getElem.mp hb.ascending k (k + 1) (by simp; omega) (by simpa using hlt) (by omega)
      rw [List.getElem_map, List.getElem_map, hget, UInt32.lt_iff_toNat_lt] at hasc
      omega

theorem two_le_words {e : Entry δ} (h : 64 ≤ e.info.tag.toNat) : 2 ≤ e.width.words := by
  cases hw : e.width with
  | one =>
      have hfits := e.fits
      rw [hw] at hfits
      exact absurd (assert_one hfits).1 (Nat.not_lt.mpr h)
  | two => decide
  | four => decide
  | eight => decide

/-- A table that fits the index leaves one value of the count free, since a tag of
more than six bits takes more than one word. -/
theorem count_lt (hb : Bindable entries) : entries.length < 65535 := by
  have hle := length_le_words entries
  have hwords := hb.words
  by_contra hge
  have hlt : 65534 < entries.length := by omega
  have hlast : entries[65534]? = some entries[65534] := List.getElem?_eq_getElem hlt
  have htag := tag_index hb 65534 hlast
  have htwo : 2 ≤ entries[65534].width.words := two_le_words (by omega)
  have htotal := wordsBefore_le entries (65534 + 1)
  have hsucc := wordsBefore_succ hlast
  have hbefore : (entries.take 65534).length ≤ wordsBefore entries 65534 := length_le_words _
  rw [List.length_take] at hbefore
  omega

def posAt (entries : List (Entry δ)) (k : Nat) : Position where
  index := UInt16.ofNat k
  fieldInfoIndex := UInt16.ofNat (wordsBefore entries k)
  requiredFieldIndex := UInt16.ofNat (requiredBefore entries k)
  submessageIndex := UInt16.ofNat (submsgBefore entries k)

/-- The iterator at a field, with the values of the field's entry. -/
def iterAt (beyond : Nat → UInt32) (entries : List (Entry δ)) (message : Bool) (k : Nat) (e : Entry δ) :
    FieldIter δ where
  descriptor := pbBind beyond entries
  message := message
  pos := posAt entries k
  field := fieldValues message (packed e.width e.info) .null e.submsg

/-- An iterator at the k-th field, with whatever values it loaded last. -/
structure Standing (beyond : Nat → UInt32) (entries : List (Entry δ)) (hasMessage : Bool) (k : Nat)
    (iter : FieldIter δ) : Prop where
  descriptor : iter.descriptor = pbBind beyond entries
  message : iter.message = hasMessage
  pos : iter.pos = posAt entries k
  null : hasMessage = false → iter.field.pData = .null

theorem standing_iterAt (message : Bool) (k : Nat) (e : Entry δ) :
    Standing beyond entries message k (iterAt beyond entries message k e) where
  descriptor := rfl
  message := rfl
  pos := rfl
  null := fun h => by simp [iterAt, fieldValues, h]

theorem pbSize_toNat {n : Nat} (h : n < 65536) : (UInt16.ofNat n).toNat = n := UInt16.toNat_ofNat_of_lt' h

theorem fieldCount_toNat (hb : Bindable entries) : (pbBind beyond entries).fieldCount.toNat = entries.length :=
  pbSize_toNat (Nat.lt_succ_of_lt (count_lt hb))

theorem index_toNat (hb : Bindable entries) {k : Nat} (hk : k ≤ entries.length) : (UInt16.ofNat k).toNat = k :=
  pbSize_toNat (by have hcount := count_lt hb; omega)

theorem info_toNat (hb : Bindable entries) (k : Nat) :
    (UInt16.ofNat (wordsBefore entries k)).toNat = wordsBefore entries k :=
  pbSize_toNat (Nat.lt_of_le_of_lt (wordsBefore_le entries k) hb.words)

theorem submsgBefore_eq (entries : List (Entry δ)) (k : Nat) :
    ((entries.take k).filterMap Entry.submsg).length = submsgBefore entries k := by
  rw [List.length_filterMap_eq_countP, submsgBefore]
  apply List.countP_congr
  intro e _
  rw [e.nested]

theorem submsg_bind (hb : Bindable entries) {k : Nat} {e : Entry δ} (hk : entries[k]? = some e)
    (he : pbLtypeIsSubmsg e.info.type = true) :
    (pbBind beyond entries).submsgInfo.getD (UInt16.ofNat (submsgBefore entries k)).toNat none = e.submsg := by
  have hle : submsgBefore entries k ≤ entries.length := by
    rw [submsgBefore]
    exact List.countP_le_length.trans (List.length_take_le' k entries)
  obtain ⟨sub, hsub⟩ := Option.isSome_iff_exists.mp (e.nested.trans he)
  have hlen := submsgBefore_eq entries k
  have hread : ((entries.filterMap Entry.submsg).map some ++ [none])[submsgBefore entries k]? = some (some sub) := by
    conv => lhs; lhs; rw [split_at hk]
    rw [List.filterMap_append, List.filterMap_cons, hsub, List.map_append, List.append_assoc,
      List.getElem?_append_right (by simp [hlen]), List.length_map, hlen, Nat.sub_self]
    rfl
  rw [index_toNat hb hle, List.getD_eq_getElem?_getD, hsub]
  show ((entries.filterMap Entry.submsg).map some ++ [none])[submsgBefore entries k]?.getD none = some sub
  rw [hread]
  rfl

theorem lt_of_getElem? {k : Nat} {e : Entry δ} (hk : entries[k]? = some e) : k < entries.length :=
  (List.getElem?_eq_some_iff.mp hk).1

theorem load_standing (hb : Bindable entries) {message : Bool} {k : Nat} {e : Entry δ} {iter : FieldIter δ}
    (hk : entries[k]? = some e) (h : Standing beyond entries message k iter) :
    loadDescriptorValues iter = (true, iterAt beyond entries message k e) := by
  obtain ⟨desc, hasMessage, pos, field⟩ := iter
  obtain rfl : desc = pbBind beyond entries := h.descriptor
  obtain rfl : hasMessage = message := h.message
  obtain rfl : pos = posAt entries k := h.pos
  have hlt := lt_of_getElem? hk
  have hin : ¬ (pbBind beyond entries).fieldCount ≤ (posAt entries k).index := by
    rw [UInt16.le_iff_toNat_le, fieldCount_toNat hb, posAt, index_toNat hb hlt.le]
    omega
  have hunpack : (unpack fun j => (pbBind beyond entries).word ((posAt entries k).fieldInfoIndex.toNat + j)) =
      packed e.width e.info := by
    apply unpack_pbFieldInfo e.fits
    intro j w hj
    rw [posAt, info_toNat hb, word_bind hk hj]
  rw [loadDescriptorValues, if_neg hin]
  simp only [hunpack]
  rw [iterAt]
  congr 2
  have hdata : hasMessage = false → field.pData = .null := h.null
  have hdesc : (if pbLtypeIsSubmsg (packed e.width e.info).type then
      (pbBind beyond entries).submsgInfo.getD (posAt entries k).submessageIndex.toNat none else none) =
      if pbLtypeIsSubmsg (packed e.width e.info).type then e.submsg else none := by
    split
    · rename_i hsub
      exact submsg_bind hb hk hsub
    · rfl
  rw [fieldValues, hdesc, fieldValues]
  cases hasMessage with
  | false => simp [hdata]
  | true => rfl

theorem posAt_zero (entries : List (Entry δ)) : posAt entries 0 = ⟨0, 0, 0, 0⟩ := rfl

theorem advance_restart (hb : Bindable entries) {message : Bool} {iter : FieldIter δ}
    (hdesc : iter.descriptor = pbBind beyond entries) (hmessage : iter.message = message)
    (hnull : message = false → iter.field.pData = .null) (hend : entries.length ≤ (iter.pos.index + 1).toNat) :
    Standing beyond entries message 0 (advanceIterator iter) := by
  have hover : iter.descriptor.fieldCount ≤ iter.pos.index + 1 := by
    rw [hdesc, UInt16.le_iff_toNat_le, fieldCount_toNat hb]
    exact hend
  rw [advanceIterator, if_pos hover]
  exact ⟨hdesc, hmessage, rfl, hnull⟩

theorem next_index (hb : Bindable entries) {k : Nat} (hk : k < entries.length) :
    (UInt16.ofNat k + 1).toNat = k + 1 := by
  have hone : UInt16.ofNat k + 1 = UInt16.ofNat (k + 1) := (UInt16.ofNat_add k 1).symm
  rw [hone, index_toNat hb hk]

theorem descriptorLen_eq (width : Width) : ((1 : UInt32) <<< width.code).toUInt16 = UInt16.ofNat width.words := by
  cases width <;> rfl

theorem posAt_succ {k : Nat} {e : Entry δ} (hk : entries[k]? = some e) : posAt entries (k + 1) =
    { index := (posAt entries k).index + 1
      fieldInfoIndex := (posAt entries k).fieldInfoIndex + UInt16.ofNat e.width.words
      requiredFieldIndex :=
        (posAt entries k).requiredFieldIndex + (if pbHtype e.info.type = pbHtypeRequired then 1 else 0)
      submessageIndex := (posAt entries k).submessageIndex + (if pbLtypeIsSubmsg e.info.type then 1 else 0) } := by
  rw [posAt, wordsBefore_succ hk, requiredBefore_succ hk, submsgBefore_succ hk, UInt16.ofNat_add, UInt16.ofNat_add,
    UInt16.ofNat_add, UInt16.ofNat_add]
  congr 1
  · congr 1
    split <;> rfl
  · congr 1
    split <;> rfl

theorem advance_standing (hb : Bindable entries) {message : Bool} {k : Nat} {iter : FieldIter δ}
    (hk : k < entries.length) (h : Standing beyond entries message k iter) :
    Standing beyond entries message ((k + 1) % entries.length) (advanceIterator iter) := by
  have hindex : iter.pos.index = UInt16.ofNat k := by rw [h.pos, posAt]
  rcases Nat.lt_or_ge (k + 1) entries.length with hlt | hge
  · have he : entries[k]? = some entries[k] := List.getElem?_eq_getElem hk
    obtain ⟨w, hw, hlen, htype, -⟩ := head_word (entries[k]).fits
    have hword : iter.descriptor.word iter.pos.fieldInfoIndex.toNat = w := by
      rw [h.descriptor, h.pos, posAt, info_toNat hb]
      exact word_bind he hw
    have hin : ¬ iter.descriptor.fieldCount ≤ iter.pos.index + 1 := by
      rw [h.descriptor, UInt16.le_iff_toNat_le, fieldCount_toNat hb, hindex, next_index hb hk]
      omega
    rw [Nat.mod_eq_of_lt hlt, advanceIterator, if_neg hin]
    refine ⟨h.descriptor, h.message, ?_, h.null⟩
    simp only [hword, hlen, htype, descriptorLen_eq]
    rw [posAt_succ he, h.pos]
  · have hmod : (k + 1) % entries.length = 0 := by
      have heq : k + 1 = entries.length := by omega
      rw [heq, Nat.mod_self]
    rw [hmod]
    refine advance_restart hb h.descriptor h.message h.null ?_
    rw [hindex, next_index hb hk]
    exact hge

theorem begin_bind (hb : Bindable entries) (message : Bool) {e : Entry δ} (he : entries[0]? = some e) :
    pbFieldIterBegin (pbBind beyond entries) message = (true, iterAt beyond entries message 0 e) :=
  load_standing hb he ⟨rfl, rfl, posAt_zero entries, fun _ => rfl⟩

/-- The iterator moves to the next field, and says so until it is back at the first. -/
theorem next_iterAt (hb : Bindable entries) {message : Bool} {k : Nat} {e f : Entry δ} (hk : entries[k]? = some e)
    (hf : entries[(k + 1) % entries.length]? = some f) : pbFieldIterNext (iterAt beyond entries message k e) =
      ((k + 1) % entries.length != 0, iterAt beyond entries message ((k + 1) % entries.length) f) := by
  have hstanding : Standing beyond entries message k (iterAt beyond entries message k e) := standing_iterAt message k e
  have hmove := advance_standing hb (lt_of_getElem? hk) hstanding
  rw [pbFieldIterNext, load_standing hb hf hmove]
  have hindex := index_toNat hb (lt_of_getElem? hf).le
  have hzero : (UInt16.ofNat ((k + 1) % entries.length) != 0) = ((k + 1) % entries.length != 0) := by
    rw [Bool.eq_iff_iff, bne_iff_ne, bne_iff_ne, ne_eq, ne_eq, ← UInt16.toNat_inj, hindex]
    rfl
  exact congrArg (·, _) hzero

theorem toUInt32_tag (e : Entry δ) : e.info.tag.toUInt16.toUInt32 = e.info.tag := by
  apply UInt32.toNat_inj.mp
  rw [UInt16.toNat_toUInt32, UInt32.toNat_toUInt16, Nat.mod_eq_of_lt (tag_lt e)]

theorem tag_field (message : Bool) (k : Nat) (e : Entry δ) :
    (iterAt beyond entries message k e).field.tag.toUInt32 = e.info.tag :=
  toUInt32_tag e

theorem type_field (message : Bool) (k : Nat) (e : Entry δ) :
    (iterAt beyond entries message k e).field.type = e.info.type := rfl

theorem tag_mono (hb : Bindable entries) {i j : Nat} {a b : Entry δ} (hi : entries[i]? = some a)
    (hj : entries[j]? = some b) (hij : i < j) : a.info.tag < b.info.tag := by
  obtain ⟨hilt, hia⟩ := List.getElem?_eq_some_iff.mp hi
  obtain ⟨hjlt, hjb⟩ := List.getElem?_eq_some_iff.mp hj
  have hasc := List.pairwise_iff_getElem.mp hb.ascending i j (by simpa using hilt) (by simpa using hjlt) hij
  rwa [List.getElem_map, List.getElem_map, hia, hjb] at hasc

theorem index_of_tag (hb : Bindable entries) {i j : Nat} {a b : Entry δ} (hi : entries[i]? = some a)
    (hj : entries[j]? = some b) (htag : a.info.tag = b.info.tag) : i = j := by
  rcases Nat.lt_trichotomy i j with h | h | h
  · exact absurd htag (UInt32.ne_of_lt (tag_mono hb hi hj h))
  · exact h
  · exact absurd htag.symm (UInt32.ne_of_lt (tag_mono hb hj hi h))

theorem index_lt_of_tag (hb : Bindable entries) {i j : Nat} {a b : Entry δ} (hi : entries[i]? = some a)
    (hj : entries[j]? = some b) (htag : a.info.tag < b.info.tag) : i < j := by
  rcases Nat.lt_trichotomy i j with h | h | h
  · exact h
  · subst h
    obtain rfl : a = b := Option.some.inj (hi.symm.trans hj)
    exact absurd htag (UInt32.lt_irrefl _)
  · exact absurd htag (UInt32.lt_asymm (tag_mono hb hj hi h))

theorem tag_le_largest (hb : Bindable entries) {t : Nat} {f : Entry δ} (ht : entries[t]? = some f) :
    ¬ (pbBind beyond entries).largestTag.toUInt32 < f.info.tag := by
  have hlt := lt_of_getElem? ht
  have hlast : entries[entries.length - 1]? = some (entries[entries.length - 1]) := List.getElem?_eq_getElem (by omega)
  have hlargest : (pbBind beyond entries).largestTag.toUInt32 = entries[entries.length - 1].info.tag := by
    rw [pbBind, List.getLast?_eq_getElem?, hlast]
    exact toUInt32_tag _
  rw [hlargest]
  intro h
  have hbefore := index_lt_of_tag hb hlast ht h
  omega

/-- What a search that wants the fields of a kind answers at each place. -/
def answerAt (beyond : Nat → UInt32) (entries : List (Entry δ)) (message : Bool) (wanted : Entry δ → Bool) (j : Nat) :
    Option (Bool × FieldIter δ) :=
  (entries[j]?.filter wanted).map fun e => (true, iterAt beyond entries message j e)

theorem answerAt_some {message : Bool} {wanted : Entry δ → Bool} {j : Nat} {r : Bool × FieldIter δ}
    (h : answerAt beyond entries message wanted j = some r) :
    ∃ e, entries[j]? = some e ∧ wanted e = true ∧ r = (true, iterAt beyond entries message j e) := by
  obtain ⟨e, he, rfl⟩ := Option.map_eq_some_iff.mp h
  obtain ⟨hj, hwanted⟩ := Option.filter_eq_some_iff.mp he
  exact ⟨e, hj, hwanted, rfl⟩

theorem answerAt_none {message : Bool} {wanted : Entry δ → Bool} {j : Nat} {e : Entry δ}
    (h : answerAt beyond entries message wanted j = none) (hj : entries[j]? = some e) : wanted e = false := by
  rw [answerAt, hj] at h
  cases hw : wanted e with
  | false => rfl
  | true => simp [Option.filter, hw] at h

/-- A probe that answers at the fields of a kind and loads nothing else than the
field it is at. -/
structure Probes (beyond : Nat → UInt32) (entries : List (Entry δ)) (message : Bool) (wanted : Entry δ → Bool)
    (probe : FieldIter δ → Option Bool × FieldIter δ) : Prop where
  hits : ∀ j iter e, Standing beyond entries message j iter → entries[j]? = some e → wanted e = true →
    probe iter = (some true, iterAt beyond entries message j e)
  misses : ∀ j iter e, Standing beyond entries message j iter → entries[j]? = some e → wanted e = false →
    ∃ iter', probe iter = (none, iter') ∧ Standing beyond entries message j iter'

theorem ring_of_probes (hb : Bindable entries) {message : Bool} {wanted : Entry δ → Bool}
    {probe : FieldIter δ → Option Bool × FieldIter δ} (h : Probes beyond entries message wanted probe) :
    Ring entries.length (Standing beyond entries message) advanceIterator probe
      (answerAt beyond entries message wanted) where
  moves _ _ hj hs := advance_standing hb hj hs
  answers j s r hs hr := by
    obtain ⟨e, he, hwanted, rfl⟩ := answerAt_some hr
    exact h.hits j s e hs he hwanted
  passes j s hj hs hnone :=
    have he := List.getElem?_eq_getElem hj
    h.misses j s _ hs he (answerAt_none hnone he)

theorem back_iff (hb : Bindable entries) {message : Bool} {k : Nat} (hk : k < entries.length) (j : Nat)
    (iter : FieldIter δ) (hj : j < entries.length) (h : Standing beyond entries message j iter) :
    (iter.pos.index == (posAt entries k).index) = true ↔ j = k := by
  rw [beq_iff_eq, h.pos, ← UInt16.toNat_inj, posAt, posAt, index_toNat hb hj.le, index_toNat hb hk.le]

/-- A search from a field sees every field, and comes back to where it was when
none is wanted. -/
theorem search_around (hb : Bindable entries) {message : Bool} {wanted : Entry δ → Bool}
    {probe : FieldIter δ → Option Bool × FieldIter δ} (h : Probes beyond entries message wanted probe) {k : Nat}
    {e : Entry δ} (hk : entries[k]? = some e) {iter : FieldIter δ} (hs : Standing beyond entries message k iter) :
    (∃ j f, entries[j]? = some f ∧ wanted f = true ∧
        searchLoop probe (posAt entries k).index iter = (true, iterAt beyond entries message j f)) ∨
      ((∀ (j : Nat) (f : Entry δ), entries[j]? = some f → wanted f = false) ∧
        searchLoop probe (posAt entries k).index iter = (false, iterAt beyond entries message k e)) := by
  have hlt := lt_of_getElem? hk
  have hcount : iter.descriptor.fieldCount.toNat = entries.length := by rw [hs.descriptor, fieldCount_toNat hb]
  rw [searchLoop, hcount]
  rcases scan_around (ring_of_probes hb h) hlt (back_iff hb hlt) _ iter hs with
    ⟨j, r, hj, hr, he⟩ | ⟨hclear, s, hs', he⟩
  · obtain ⟨f, hf, hwanted, rfl⟩ := answerAt_some hr
    exact .inl ⟨j, f, hf, hwanted, he⟩
  · refine .inr ⟨fun j f hf => answerAt_none (hclear j (lt_of_getElem? hf)) hf, ?_⟩
    rw [he, load_standing hb hk hs']

/-- A search that starts over from the first field sees the fields up to where it was. -/
theorem search_from_first (hb : Bindable entries) {message : Bool} {wanted : Entry δ → Bool}
    {probe : FieldIter δ → Option Bool × FieldIter δ} (h : Probes beyond entries message wanted probe) {k : Nat}
    {e : Entry δ} (hk : entries[k]? = some e) {iter : FieldIter δ} (hdesc : iter.descriptor = pbBind beyond entries)
    (hs : Standing beyond entries message 0 (advanceIterator iter)) :
    (∃ j f, entries[j]? = some f ∧ wanted f = true ∧
        searchLoop probe (posAt entries k).index iter = (true, iterAt beyond entries message j f)) ∨
      ((∀ (j : Nat) (f : Entry δ), j ≤ k → entries[j]? = some f → wanted f = false) ∧
        searchLoop probe (posAt entries k).index iter = (false, iterAt beyond entries message k e)) := by
  have hlt := lt_of_getElem? hk
  have hcount : iter.descriptor.fieldCount.toNat = entries.length := by rw [hdesc, fieldCount_toNat hb]
  rw [searchLoop, hcount]
  rcases scan_from_first (ring_of_probes hb h) hlt (back_iff hb hlt) _ iter hs with
    ⟨j, r, hj, hr, he⟩ | ⟨hclear, s, hs', he⟩
  · obtain ⟨f, hf, hwanted, rfl⟩ := answerAt_some hr
    exact .inl ⟨j, f, hf, hwanted, he⟩
  · refine .inr ⟨fun j f hj hf => answerAt_none (hclear j hj) hf, ?_⟩
    rw [he, load_standing hb hk hs']

def wantsTag (tag : UInt32) (e : Entry δ) : Bool := e.info.tag == tag && pbLtype e.info.type != pbLtypeExtension

def isExtension (e : Entry δ) : Bool := pbLtype e.info.type == pbLtypeExtension

theorem head_standing (hb : Bindable entries) {message : Bool} {j : Nat} {iter : FieldIter δ} {e : Entry δ}
    (h : Standing beyond entries message j iter) (he : entries[j]? = some e) :
    ∃ w, iter.descriptor.word iter.pos.fieldInfoIndex.toNat = w ∧ ((w >>> 8) &&& 0xFF).toUInt8 = e.info.type ∧
      (w >>> 2) &&& 0x3F = e.info.tag &&& 0x3F := by
  obtain ⟨w, hw, -, htype, htag⟩ := head_word e.fits
  refine ⟨w, ?_, htype, htag⟩
  rw [h.descriptor, h.pos, posAt, info_toNat hb]
  exact word_bind he hw

/-- The comparison of the lowest six bits never passes over the wanted field. -/
theorem probes_tag (hb : Bindable entries) (message : Bool) (tag : UInt32) :
    Probes beyond entries message (wantsTag tag) (probeTag tag) where
  hits j iter e h he hwanted := by
    obtain ⟨w, hword, -, hlow⟩ := head_standing hb h he
    obtain ⟨htag, hext⟩ := Bool.and_eq_true_iff.mp hwanted
    have htag' : e.info.tag = tag := beq_iff_eq.mp htag
    have hext' : pbLtype e.info.type ≠ pbLtypeExtension := bne_iff_ne.mp hext
    subst htag'
    simp only [probeTag, hword, hlow, if_true, load_standing hb he h]
    rw [if_pos ⟨tag_field message j e, hext'⟩]
  misses j iter e h he hwanted := by
    obtain ⟨w, hword, -, hlow⟩ := head_standing hb h he
    have hnot : ¬ (e.info.tag = tag ∧ pbLtype e.info.type ≠ pbLtypeExtension) := by
      rintro ⟨htag, hext⟩
      rw [wantsTag, htag, beq_self_eq_true, Bool.true_and, bne_eq_false_iff_eq] at hwanted
      exact hext hwanted
    simp only [probeTag, hword, load_standing hb he h]
    split
    · rw [tag_field, type_field, if_neg hnot]
      exact ⟨_, rfl, standing_iterAt message j e⟩
    · exact ⟨iter, rfl, h⟩

theorem probes_extension (hb : Bindable entries) (message : Bool) :
    Probes beyond entries message isExtension (probeExtension (δ := δ)) where
  hits j iter e h he hwanted := by
    obtain ⟨w, hword, htype, -⟩ := head_standing hb h he
    simp only [probeExtension, hword, htype, load_standing hb he h]
    rw [if_pos (beq_iff_eq.mp hwanted)]
  misses j iter e h he hwanted := by
    obtain ⟨w, hword, htype, -⟩ := head_standing hb h he
    simp only [probeExtension, hword, htype]
    rw [if_neg (by simpa [isExtension] using hwanted)]
    exact ⟨iter, rfl, h⟩

theorem advance_atEnd (hb : Bindable entries) (message : Bool) (k : Nat) (e : Entry δ) :
    Standing beyond entries message 0 (advanceIterator (iterAt beyond entries message k e).atEnd) := by
  have hstanding : Standing beyond entries message k (iterAt beyond entries message k e) := standing_iterAt message k e
  refine advance_restart hb rfl rfl hstanding.null ?_
  have hlt := count_lt hb
  have hend : (iterAt beyond entries message k e).atEnd.pos.index = UInt16.ofNat entries.length := rfl
  have hone : UInt16.ofNat entries.length + 1 = UInt16.ofNat (entries.length + 1) := (UInt16.ofNat_add _ 1).symm
  rw [hend, hone, pbSize_toNat (by omega)]
  exact Nat.le_succ _

/-- A search for another tag than that of the current field finds the field with
the tag, or leaves the iterator as it was when there is none. -/
theorem find_cases (hb : Bindable entries) (message : Bool) {k : Nat} {e : Entry δ} (hk : entries[k]? = some e)
    {tag : UInt32} (hne : e.info.tag ≠ tag) :
    (∃ t f, entries[t]? = some f ∧ wantsTag tag f = true ∧
        pbFieldIterFind (iterAt beyond entries message k e) tag = (true, iterAt beyond entries message t f)) ∨
      ((∀ (t : Nat) (f : Entry δ), entries[t]? = some f → wantsTag tag f = false) ∧
        pbFieldIterFind (iterAt beyond entries message k e) tag = (false, iterAt beyond entries message k e)) := by
  rw [pbFieldIterFind, tag_field, if_neg hne]
  have hdesc : (iterAt beyond entries message k e).descriptor = pbBind beyond entries := rfl
  have hpos : (iterAt beyond entries message k e).pos = posAt entries k := rfl
  have hwrong : ∀ f : Entry δ, f.info.tag ≠ tag → wantsTag tag f = false := by
    intro f hf
    rw [wantsTag, beq_eq_false_iff_ne.mpr hf, Bool.false_and]
  rw [hdesc, hpos]
  by_cases hlarge : (pbBind beyond entries).largestTag.toUInt32 < tag
  · rw [if_pos hlarge]
    refine .inr ⟨fun t f ht => hwrong f ?_, rfl⟩
    rintro rfl
    exact tag_le_largest hb ht hlarge
  · rw [if_neg hlarge]
    by_cases hlow : tag < e.info.tag
    · rw [if_pos hlow]
      rcases search_from_first hb (probes_tag hb message tag) hk rfl (advance_atEnd hb message k e) with
        hfound | ⟨hclear, hmiss⟩
      · exact .inl hfound
      · refine .inr ⟨fun t f ht => ?_, hmiss⟩
        rcases Nat.lt_or_ge k t with hkt | htk
        · refine hwrong f fun htag => ?_
          have hbefore := tag_mono hb hk ht hkt
          rw [htag] at hbefore
          exact UInt32.lt_asymm hlow hbefore
        · exact hclear t f htk ht
    · rw [if_neg hlow]
      exact search_around hb (probes_tag hb message tag) hk (standing_iterAt message k e)

theorem find_here (message : Bool) (k : Nat) (e : Entry δ) :
    pbFieldIterFind (iterAt beyond entries message k e) e.info.tag = (true, iterAt beyond entries message k e) := by
  rw [pbFieldIterFind, if_pos (tag_field message k e)]

theorem tag_of_wants {tag : UInt32} {e : Entry δ} (h : wantsTag tag e = true) : e.info.tag = tag :=
  beq_iff_eq.mp (Bool.and_eq_true_iff.mp h).1

theorem find_wanted (hb : Bindable entries) (message : Bool) {k t : Nat} {e f : Entry δ} (hk : entries[k]? = some e)
    (ht : entries[t]? = some f) {tag : UInt32} (hwants : wantsTag tag f = true) :
    pbFieldIterFind (iterAt beyond entries message k e) tag = (true, iterAt beyond entries message t f) := by
  have htag := tag_of_wants hwants
  by_cases hcurrent : e.info.tag = tag
  · obtain rfl : k = t := index_of_tag hb hk ht (hcurrent.trans htag.symm)
    obtain rfl : e = f := Option.some.inj (hk.symm.trans ht)
    rw [← hcurrent, find_here]
  · rcases find_cases hb message hk hcurrent with ⟨j, g, hj, hg, hfind⟩ | ⟨hclear, -⟩
    · obtain rfl : j = t := index_of_tag hb hj ht ((tag_of_wants hg).trans htag.symm)
      obtain rfl : g = f := Option.some.inj (hj.symm.trans ht)
      exact hfind
    · rw [hclear t f ht] at hwants
      cases hwants

theorem find_unwanted (hb : Bindable entries) (message : Bool) {k : Nat} {e : Entry δ} (hk : entries[k]? = some e)
    {tag : UInt32} (hne : e.info.tag ≠ tag) (hnone : ∀ f ∈ entries, ¬ wantsTag tag f = true) :
    pbFieldIterFind (iterAt beyond entries message k e) tag = (false, iterAt beyond entries message k e) := by
  rcases find_cases hb message hk hne with ⟨t, f, ht, hf, -⟩ | ⟨-, hfind⟩
  · exact absurd hf (hnone f (List.mem_of_getElem? ht))
  · exact hfind

theorem find_extension_cases (hb : Bindable entries) (message : Bool) {k : Nat} {e : Entry δ}
    (hk : entries[k]? = some e) :
    (∃ t f, entries[t]? = some f ∧ isExtension f = true ∧
        pbFieldIterFindExtension (iterAt beyond entries message k e) = (true, iterAt beyond entries message t f)) ∨
      ((∀ (t : Nat) (f : Entry δ), entries[t]? = some f → isExtension f = false) ∧
        pbFieldIterFindExtension (iterAt beyond entries message k e) = (false, iterAt beyond entries message k e)) := by
  rw [pbFieldIterFindExtension, type_field]
  split
  · rename_i hext
    exact .inl ⟨k, e, hk, beq_iff_eq.mpr hext, rfl⟩
  · exact search_around hb (probes_extension hb message) hk (standing_iterAt message k e)

/-- The iterators that a message's functions can come by. -/
inductive Reached (desc : MsgDesc δ) (message : Bool) : FieldIter δ → Prop
  | start : Reached desc message (pbFieldIterBegin desc message).2
  | next {iter : FieldIter δ} (h : Reached desc message iter) : Reached desc message (pbFieldIterNext iter).2
  | find {iter : FieldIter δ} (h : Reached desc message iter) (tag : UInt32) :
      Reached desc message (pbFieldIterFind iter tag).2
  | findExtension {iter : FieldIter δ} (h : Reached desc message iter) :
      Reached desc message (pbFieldIterFindExtension iter).2

theorem reached_iterAt (hb : Bindable entries) (hne : entries ≠ []) {message : Bool} {iter : FieldIter δ}
    (h : Reached (pbBind beyond entries) message iter) :
    ∃ k e, entries[k]? = some e ∧ iter = iterAt beyond entries message k e := by
  have hpos : 0 < entries.length := List.length_pos_iff.mpr hne
  induction h with
  | start =>
      have h0 : entries[0]? = some entries[0] := List.getElem?_eq_getElem hpos
      rw [begin_bind hb message h0]
      exact ⟨0, _, h0, rfl⟩
  | next _ ih =>
      obtain ⟨k, e, hk, rfl⟩ := ih
      have hf := List.getElem?_eq_getElem (Nat.mod_lt (k + 1) hpos)
      rw [next_iterAt hb hk hf]
      exact ⟨_, _, hf, rfl⟩
  | find _ tag ih =>
      obtain ⟨k, e, hk, rfl⟩ := ih
      by_cases htag : e.info.tag = tag
      · rw [← htag, find_here]
        exact ⟨k, e, hk, rfl⟩
      · rcases find_cases hb message hk htag with ⟨t, f, ht, -, hfind⟩ | ⟨-, hfind⟩
        · rw [hfind]
          exact ⟨t, f, ht, rfl⟩
        · rw [hfind]
          exact ⟨k, e, hk, rfl⟩
  | findExtension _ ih =>
      obtain ⟨k, e, hk, rfl⟩ := ih
      rcases find_extension_cases hb message hk with ⟨t, f, ht, -, hfind⟩ | ⟨-, hfind⟩
      · rw [hfind]
        exact ⟨t, f, ht, rfl⟩
      · rw [hfind]
        exact ⟨k, e, hk, rfl⟩

/-- Whatever an iterator was used for before, a search finds exactly the fields of
the message, and the values it comes back with are those the field was bound with. -/
theorem search_after_any_use (hb : Bindable entries) {message : Bool} {iter : FieldIter δ}
    (h : Reached (pbBind beyond entries) message iter) (tag : UInt32) :
    (∀ f ∈ entries, f.info.tag = tag → pbLtype f.info.type ≠ pbLtypeExtension →
        (pbFieldIterFind iter tag).1 = true ∧
          (pbFieldIterFind iter tag).2.field = fieldValues message (packed f.width f.info) .null f.submsg) ∧
      (entries ≠ [] → (∀ f ∈ entries, f.info.tag ≠ tag) → pbFieldIterFind iter tag = (false, iter)) := by
  refine ⟨fun f hf htag hext => ?_, fun hne hnone => ?_⟩
  · obtain ⟨k, e, hk, rfl⟩ := reached_iterAt hb (List.ne_nil_of_mem hf) h
    obtain ⟨t, ht⟩ := List.getElem?_of_mem hf
    have hwants : wantsTag tag f = true := by
      rw [wantsTag, htag, beq_self_eq_true, Bool.true_and, bne_iff_ne]
      exact hext
    rw [find_wanted hb message hk ht hwants]
    exact ⟨rfl, rfl⟩
  · obtain ⟨k, e, hk, rfl⟩ := reached_iterAt hb hne h
    apply find_unwanted hb message hk (hnone e (List.mem_of_getElem? hk))
    intro f hf hwants
    exact hnone f hf (tag_of_wants hwants)

def mixedEntries : List (Entry Unit) :=
  [⟨.one, ⟨3, 0x10, 0, 4, 0, 1⟩, none, by decide, by decide, by decide⟩,
   ⟨.two, ⟨67, 0x10, 4, 4, 0, 1⟩, none, by decide, by decide, by decide⟩,
   ⟨.four, ⟨3000, 0x18, 8, 16, 1, 1⟩, some (), by decide, by decide, by decide⟩]

/-- Tags that agree in their lowest six bits, and a search backwards. -/
theorem search_after_any_use_mixed :
    let iter := (pbFieldIterBegin (pbBind (fun _ => 0) mixedEntries) true).2
    (pbFieldIterFind (pbFieldIterFind iter 3000).2 67).1 = true := by
  intro iter
  have hstart : Reached (pbBind (fun _ => 0) mixedEntries) true _ := .start
  have hb : Bindable mixedEntries := ⟨by decide, by decide⟩
  exact ((search_after_any_use hb (hstart.find 3000) 67).1 _ (.tail _ (.head _)) rfl (by decide)).1

end Bind

end RaceControl.Nanopb
