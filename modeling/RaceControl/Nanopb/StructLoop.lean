import RaceControl.Nanopb.StructField

namespace RaceControl.Nanopb.Struct

open Record

variable {δ : Type}

section Loops

variable (descs : δ → MsgDesc δ)

/-- The loop of pb_message_set_to_defaults. A pass moves on by one field. -/
def defaultsLoop (act : FieldValues δ → Mem → Mem) : Nat → FieldIter δ → Mem → Mem × FieldIter δ
  | 0, iter, mem => (mem, iter)
  | passes + 1, iter, mem =>
      match pbFieldIterNext iter with
      | (true, next) => defaultsLoop act passes next (act iter.field mem)
      | (false, next) => (act iter.field mem, next)

/-- The defaults of a submessage, whose own submessages lie a level deeper. -/
def setDefaults : Nat → Defaults δ
  | 0, _, _, mem => mem
  | depth + 1, d, message, mem =>
      match pbFieldIterBegin (descs d) true with
      | (true, iter) =>
          (defaultsLoop (pbFieldSetToDefault descs (setDefaults depth) message) (descs d).fieldCount.toNat iter mem).1
      | (false, _) => mem

/-- The loop of pb_decode_inner. A pass consumes at least a tag, and a submessage is
shorter than what it is read from, so the length of the stream bounds the passes
and the nesting alike. Required fields, fixed counts and extensions are left out:
the first tag without a field still looks for the place of the extensions. -/
def decodeLoop (depth : Nat) : Nat → Int → FieldIter δ → UInt32 → Mem → IStream → Decoded Mem
  | _, _, _, _, mem, [] => .ok mem []
  | 0, _, _, _, mem, _ :: _ => .fail .ioError mem
  | passes + 1, message, iter, extensionRangeStart, mem, byte :: rest =>
      match pbDecodeTag (byte :: rest) with
      | .error e => .fail e mem
      | .ok (⟨wireType, tag⟩, stream) =>
          if tag = 0 then .fail .zeroTag mem
          else match pbFieldIterFind iter tag with
            | (found, iter) =>
                if found = false ∨ pbLtype iter.field.type = pbLtypeExtension then
                  let iter := if extensionRangeStart = 0 then (pbFieldIterFindExtension iter).2 else iter
                  match pbSkipField wireType stream with
                  | .error e => .fail e mem
                  | .ok (_, stream) => decodeLoop depth passes message iter 0xFFFFFFFF mem stream
                else
                  let inner : DecodeInner δ := fun sub a mem substream =>
                    decodeLoop depth passes a (pbFieldIterBegin (descs sub) true).2 0 mem substream
                  match decodeField descs (setDefaults descs depth) inner message iter.field wireType mem stream with
                  | .fail e mem => .fail e mem
                  | .ok mem stream => decodeLoop depth passes message iter extensionRangeStart mem stream

def pbDecodeInner (depth : Nat) (noinit : Bool) (d : δ) (message : Int) (mem : Mem) (stream : IStream) : Decoded Mem :=
  match pbFieldIterBegin (descs d) true with
  | (true, iter) =>
      if noinit then decodeLoop descs depth stream.length message iter 0 mem stream
      else
        let act := pbFieldSetToDefault descs (setDefaults descs depth) message
        let (mem, iter) := defaultsLoop act (descs d).fieldCount.toNat iter mem
        decodeLoop descs depth stream.length message iter 0 mem stream
  | (false, iter) => decodeLoop descs depth stream.length message iter 0 mem stream

/-- The loop of pb_encode. -/
def encodeLoop (act : FieldValues δ → OStream → Encoded) : Nat → FieldIter δ → OStream → Encoded
  | 0, _, stream => .ok stream
  | passes + 1, iter, stream =>
      (act iter.field stream).andThen fun stream =>
        match pbFieldIterNext iter with
        | (true, next) => encodeLoop act passes next stream
        | (false, _) => .ok stream

/-- Submessages lie a level deeper. -/
def pbEncode (mem : Mem) : Nat → EncodeInner δ
  | 0, _, _, stream => .ok stream
  | depth + 1, d, message, stream =>
      match pbFieldIterBegin (descs d) true with
      | (true, iter) =>
          encodeLoop (fun field => encodeField (pbEncode mem depth) message field mem) (descs d).fieldCount.toNat iter
            stream
      | (false, _) => .ok stream

end Loops

/-- What an iterator loads at an entry. -/
def Entry.values (e : Entry δ) : FieldValues δ := fieldValues true (packed e.width e.info) .null e.submsg

/-- The compiler's layout of a struct: a field lies inside it with its flag or its
selector, has room for what is stored in it, and its count lies where a signed byte
leads to. A submessage always has a flag or a selector. -/
structure Fits (sizes : δ → Nat) (size : Nat) (e : Entry δ) : Prop where
  data : e.info.dataOffset.toNat + e.info.dataSize.toNat ≤ size
  bool : pbLtype e.info.type = pbLtypeBool → 1 ≤ e.info.dataSize.toNat
  fixed32 : pbLtype e.info.type = pbLtypeFixed32 → 4 ≤ e.info.dataSize.toNat
  fixed64 : pbLtype e.info.type = pbLtypeFixed64 → 8 ≤ e.info.dataSize.toNat
  submsg : ∀ sub, e.submsg = some sub → sizes sub ≤ e.info.dataSize.toNat
  flagged : e.submsg.isSome = true → e.info.sizeOffset ≠ 0
  near : -128 ≤ e.info.sizeOffset.toInt ∧ e.info.sizeOffset.toInt < 128
  flag : pbHtype e.info.type = pbHtypeOptional → e.info.sizeOffset = 0 ∨
    e.info.sizeOffset.toInt ≤ e.info.dataOffset.toNat ∧ e.info.dataOffset.toNat - e.info.sizeOffset.toInt + 1 ≤ size
  which : pbHtype e.info.type = pbHtypeOneof → e.info.sizeOffset ≠ 0 ∧
    e.info.sizeOffset.toInt ≤ e.info.dataOffset.toNat ∧ e.info.dataOffset.toNat - e.info.sizeOffset.toInt + 2 ≤ size

/-- The messages of a schema, each with its entries, the size of its struct and what
lies behind its table. -/
structure Schema (δ : Type) where
  entries : δ → List (Entry δ)
  beyond : δ → Nat → UInt32
  size : δ → Nat
  bindable : ∀ d, Bindable (entries d)
  plain : ∀ d, ∀ e ∈ entries d, isPlain e.info.type = true
  fits : ∀ d, ∀ e ∈ entries d, Fits size (size d) e

def Schema.desc (s : Schema δ) (d : δ) : MsgDesc δ := pbBind (s.beyond d) (s.entries d)

section Positions

variable {beyond : Nat → UInt32} {entries : List (Entry δ)}

theorem field_iterAt (k : Nat) (e : Entry δ) : (iterAt beyond entries true k e).field = Entry.values e := rfl

theorem next_more (hb : Bindable entries) {k : Nat} {e f : Entry δ} (hk : entries[k]? = some e)
    (hf : entries[k + 1]? = some f) :
    pbFieldIterNext (iterAt beyond entries true k e) = (true, iterAt beyond entries true (k + 1) f) := by
  have hmod := Nat.mod_eq_of_lt (lt_of_getElem? hf)
  rw [next_iterAt hb hk (by rw [hmod]; exact hf), hmod]
  rfl

theorem next_last (hb : Bindable entries) {k : Nat} {e f : Entry δ} (hk : entries[k]? = some e)
    (hlast : entries.length = k + 1) (hf : entries[0]? = some f) :
    pbFieldIterNext (iterAt beyond entries true k e) = (false, iterAt beyond entries true 0 f) := by
  have hmod : (k + 1) % entries.length = 0 := by rw [hlast, Nat.mod_self]
  rw [next_iterAt hb hk (by rw [hmod]; exact hf), hmod]
  rfl

theorem drop_of {α : Type} {list : List α} {k : Nat} {a : α} (hk : list[k]? = some a) :
    list.drop k = a :: list.drop (k + 1) := by
  obtain ⟨hlt, hget⟩ := List.getElem?_eq_some_iff.mp hk
  rw [List.drop_eq_getElem_cons hlt, hget]

/-- From a field on, the loop acts on the fields that follow, and the iterator ends
at the first field. -/
theorem defaultsLoop_eq (hb : Bindable entries) {first : Entry δ} (h0 : entries[0]? = some first)
    (act : FieldValues δ → Mem → Mem) (passes k : Nat) (e : Entry δ) (hk : entries[k]? = some e)
    (hpasses : entries.length = k + passes) (mem : Mem) :
    defaultsLoop act passes (iterAt beyond entries true k e) mem =
      ((entries.drop k).foldl (fun mem e => act (Entry.values e) mem) mem, iterAt beyond entries true 0 first) := by
  induction passes generalizing k e mem with
  | zero =>
      have hlt := lt_of_getElem? hk
      omega
  | succ passes ih =>
      rw [defaultsLoop, field_iterAt, drop_of hk, List.foldl_cons]
      rcases Nat.lt_or_ge (k + 1) entries.length with hlt | hge
      · have hf : entries[k + 1]? = some entries[k + 1] := List.getElem?_eq_getElem hlt
        rw [next_more hb hk hf]
        exact ih (k + 1) _ hf (by omega) _
      · rw [next_last hb hk (by omega) h0, List.drop_of_length_le hge]
        rfl

def encodeAll (act : FieldValues δ → OStream → Encoded) : List (Entry δ) → OStream → Encoded
  | [], stream => .ok stream
  | e :: entries, stream => (act (Entry.values e) stream).andThen (encodeAll act entries)

theorem encodeLoop_eq (hb : Bindable entries) {first : Entry δ} (h0 : entries[0]? = some first)
    (act : FieldValues δ → OStream → Encoded) (passes k : Nat) (e : Entry δ) (hk : entries[k]? = some e)
    (hpasses : entries.length = k + passes) (stream : OStream) :
    encodeLoop act passes (iterAt beyond entries true k e) stream = encodeAll act (entries.drop k) stream := by
  induction passes generalizing k e stream with
  | zero =>
      have hlt := lt_of_getElem? hk
      omega
  | succ passes ih =>
      rw [encodeLoop, field_iterAt, drop_of hk, encodeAll]
      congr 1
      funext stream
      rcases Nat.lt_or_ge (k + 1) entries.length with hlt | hge
      · have hf : entries[k + 1]? = some entries[k + 1] := List.getElem?_eq_getElem hlt
        rw [next_more hb hk hf]
        exact ih (k + 1) _ hf (by omega) stream
      · rw [next_last hb hk (by omega) h0, List.drop_of_length_le hge]
        rfl

/-- The iterator of a message without fields. -/
def emptyIter (beyond : Nat → UInt32) : FieldIter δ :=
  ⟨pbBind beyond [], true, ⟨0, 0, 0, 0⟩, ⟨0, 0, 0, 0, .null, .null, .null, none⟩⟩

theorem find_empty {tag : UInt32} (htag : tag ≠ 0) :
    pbFieldIterFind (emptyIter (δ := δ) beyond) tag = (false, emptyIter beyond) := by
  have hzero : (emptyIter (δ := δ) beyond).field.tag.toUInt32 = 0 := rfl
  have hlarge : (emptyIter (δ := δ) beyond).descriptor.largestTag.toUInt32 < tag := UInt32.pos_iff_ne_zero.mpr htag
  rw [pbFieldIterFind, hzero, if_neg (Ne.symm htag), if_pos hlarge]

/-- The one pass over a message without fields reads the word that ends its table. -/
theorem findExtension_empty : pbFieldIterFindExtension (emptyIter (δ := δ) beyond) = (false, emptyIter beyond) := by
  have htype : ¬ pbLtype (emptyIter (δ := δ) beyond).field.type = pbLtypeExtension :=
    (by decide : ¬ pbLtype 0 = pbLtypeExtension)
  have hover : (emptyIter (δ := δ) beyond).descriptor.fieldCount ≤ (emptyIter (δ := δ) beyond).pos.index + 1 :=
    (by decide : (0 : UInt16) ≤ 0 + 1)
  have hadvance : advanceIterator (emptyIter (δ := δ) beyond) = emptyIter beyond := by
    rw [advanceIterator, if_pos hover]
    rfl
  have hend : ¬ pbLtype (((emptyIter (δ := δ) beyond).descriptor.word
      (emptyIter (δ := δ) beyond).pos.fieldInfoIndex.toNat >>> 8) &&& 0xFF).toUInt8 = pbLtypeExtension :=
    (by decide : ¬ pbLtype (((0 : UInt32) >>> 8) &&& 0xFF).toUInt8 = pbLtypeExtension)
  have hprobe : probeExtension (emptyIter (δ := δ) beyond) = (none, emptyIter beyond) := by
    rw [probeExtension, if_neg hend]
  have hpasses : (emptyIter (δ := δ) beyond).descriptor.fieldCount.toNat + 1 = 0 + 1 := rfl
  rw [pbFieldIterFindExtension, if_neg htype, searchLoop, hpasses, Scan.scan, hadvance, hprobe]
  rfl

/-- Where the loop of pb_decode_inner has its iterator. -/
def Rests (beyond : Nat → UInt32) (entries : List (Entry δ)) (iter : FieldIter δ) : Prop :=
  (∃ k e, entries[k]? = some e ∧ iter = iterAt beyond entries true k e) ∨ entries = [] ∧ iter = emptyIter beyond

theorem rests_begin (hb : Bindable entries) :
    Rests beyond entries (pbFieldIterBegin (pbBind beyond entries) true).2 := by
  cases entries with
  | nil => exact .inr ⟨rfl, rfl⟩
  | cons first rest =>
      have h0 : (first :: rest)[0]? = some first := rfl
      rw [begin_bind hb true h0]
      exact .inl ⟨0, first, h0, rfl⟩

theorem rests_findExtension (hb : Bindable entries) {iter : FieldIter δ} (h : Rests beyond entries iter) :
    Rests beyond entries (pbFieldIterFindExtension iter).2 := by
  rcases h with ⟨k, e, hk, rfl⟩ | ⟨rfl, rfl⟩
  · rcases find_extension_cases hb true hk with ⟨t, f, ht, -, hfind⟩ | ⟨-, hfind⟩
    · rw [hfind]
      exact .inl ⟨t, f, ht, rfl⟩
    · rw [hfind]
      exact .inl ⟨k, e, hk, rfl⟩
  · exact .inr ⟨rfl, findExtension_empty ▸ rfl⟩

theorem rests_skip (hb : Bindable entries) (extensionRangeStart : UInt32) {iter : FieldIter δ}
    (h : Rests beyond entries iter) :
    Rests beyond entries (if extensionRangeStart = 0 then (pbFieldIterFindExtension iter).2 else iter) := by
  split
  · exact rests_findExtension hb h
  · exact h

theorem rests_find (hb : Bindable entries) {iter : FieldIter δ} (h : Rests beyond entries iter) {tag : UInt32}
    (htag : tag ≠ 0) : Rests beyond entries (pbFieldIterFind iter tag).2 := by
  rcases h with ⟨k, e, hk, rfl⟩ | ⟨rfl, rfl⟩
  · by_cases hcurrent : e.info.tag = tag
    · rw [← hcurrent, find_here]
      exact .inl ⟨k, e, hk, rfl⟩
    · rcases find_cases hb true hk hcurrent with ⟨t, f, ht, -, hfind⟩ | ⟨-, hfind⟩
      · rw [hfind]
        exact .inl ⟨t, f, ht, rfl⟩
      · rw [hfind]
        exact .inl ⟨k, e, hk, rfl⟩
  · rw [find_empty htag]
    exact .inr ⟨rfl, rfl⟩

/-- A search that succeeds leaves the iterator at a field of the message. -/
theorem field_of_found (hb : Bindable entries) {iter : FieldIter δ} (h : Rests beyond entries iter) {tag : UInt32}
    (htag : tag ≠ 0) (hfound : (pbFieldIterFind iter tag).1 = true) :
    ∃ e ∈ entries, (pbFieldIterFind iter tag).2.field = Entry.values e := by
  rcases rests_find hb h htag with ⟨t, e, ht, he⟩ | ⟨hnil, -⟩
  · exact ⟨e, List.mem_of_getElem? ht, by rw [he]; rfl⟩
  · subst hnil
    rcases h with ⟨k, e, hk, -⟩ | ⟨-, rfl⟩
    · cases hk
    · rw [find_empty htag] at hfound
      cases hfound

end Positions

section Inside

variable {schema : Schema δ}

theorem isPlain_iff {type : PbType} (h : isPlain type = true) :
    pbAtype type = pbAtypeStatic ∧ (pbHtype type = pbHtypeOptional ∨ pbHtype type = pbHtypeOneof) := by
  simp only [isPlain, Bool.and_eq_true, Bool.or_eq_true, beq_iff_eq] at h
  exact h.1

theorem sizeOffset_kept {e : Entry δ} (h : -128 ≤ e.info.sizeOffset.toInt ∧ e.info.sizeOffset.toInt < 128) :
    e.info.sizeOffset.toInt8.toInt = e.info.sizeOffset.toInt := by
  rw [← Int8.toInt_toInt32, (cut_eq_iff _).mpr h]

theorem pSize_null {e : Entry δ} (hrepeated : pbHtype e.info.type ≠ pbHtypeRepeated) (hzero : e.info.sizeOffset = 0) :
    (Entry.values e).pSize = .null := by
  have hcut : ¬ (packed e.width e.info).sizeOffset ≠ 0 := by
    have hkept : (packed e.width e.info).sizeOffset = e.info.sizeOffset.toInt8 := rfl
    rw [hkept, hzero]
    decide
  have hsize : (Entry.values e).pSize = countPointer (packed e.width e.info) := rfl
  rw [hsize, countPointer, if_neg hcut]
  exact if_neg fun h => hrepeated h.1

theorem pSize_member {e : Entry δ} (hnear : -128 ≤ e.info.sizeOffset.toInt ∧ e.info.sizeOffset.toInt < 128)
    (hne : e.info.sizeOffset ≠ 0) (hle : e.info.sizeOffset.toInt ≤ e.info.dataOffset.toNat) :
    (Entry.values e).pSize = .member (e.info.dataOffset.toNat - e.info.sizeOffset.toInt).toNat := by
  have hkept := sizeOffset_kept hnear
  have hcut : (packed e.width e.info).sizeOffset ≠ 0 := by
    intro hzero
    have hzero' : e.info.sizeOffset.toInt8 = 0 := hzero
    rw [hzero'] at hkept
    exact hne (Int32.toInt_inj.mp hkept.symm)
  have hsize : (Entry.values e).pSize = countPointer (packed e.width e.info) := rfl
  rw [hsize, countPointer, if_pos hcut, Int.toNat_of_nonneg (by omega), ← hkept]
  rfl

theorem dataSize_values (e : Entry δ) : (Entry.values e).dataSize.toNat = e.info.dataSize.toNat := by
  have hsize : (Entry.values e).dataSize = e.info.dataSize.toUInt16 := rfl
  rw [hsize, UInt32.toNat_toUInt16, Nat.mod_eq_of_lt (arraySize_lt e.fits).1]

theorem pData_values {e : Entry δ} (h : pbAtype e.info.type = pbAtypeStatic) :
    (Entry.values e).pData = .member e.info.dataOffset.toNat := by
  have hpointer : ¬ pbAtype (packed e.width e.info).type = pbAtypePointer := by
    have htype : (packed e.width e.info).type = e.info.type := rfl
    rw [htype, h]
    decide
  have hdata : (Entry.values e).pData = if true then
      (if pbAtype (packed e.width e.info).type = pbAtypePointer then .pointee (packed e.width e.info).dataOffset.toNat
        else .member (packed e.width e.info).dataOffset.toNat) else .null := rfl
  rw [hdata, if_pos rfl, if_neg hpointer]
  rfl

theorem submsgDesc_values {e : Entry δ} {sub : δ} (h : (Entry.values e).submsgDesc = some sub) :
    e.submsg = some sub := by
  have hdesc : (Entry.values e).submsgDesc = if pbLtypeIsSubmsg e.info.type then e.submsg else none := rfl
  rw [hdesc] at h
  split at h
  · exact h
  · cases h

/-- What the iterator loads for a field points into the struct. -/
theorem inside_values {sizes : δ → Nat} {size : Nat} {e : Entry δ} (hplain : isPlain e.info.type = true)
    (h : Fits sizes size e) : Inside sizes size (Entry.values e) := by
  obtain ⟨hstatic, hrule⟩ := isPlain_iff hplain
  have hrepeated : pbHtype e.info.type ≠ pbHtypeRepeated := by
    rcases hrule with hrule | hrule <;> rw [hrule] <;> decide
  have hsize := dataSize_values e
  exact
    { single := hrepeated
      data := ⟨_, pData_values hstatic, hsize ▸ h.data⟩
      bool := fun hbool => hsize ▸ h.bool hbool
      fixed32 := fun hfixed => hsize ▸ h.fixed32 hfixed
      fixed64 := fun hfixed => hsize ▸ h.fixed64 hfixed
      submsg := fun sub hsub => hsize ▸ h.submsg sub (submsgDesc_values hsub)
      flag := fun hoptional => by
        by_cases hzero : e.info.sizeOffset = 0
        · exact .inl (pSize_null hrepeated hzero)
        · obtain ⟨hle, hend⟩ := (h.flag hoptional).resolve_left hzero
          exact .inr ⟨_, pSize_member h.near hzero hle, by omega⟩
      which := fun honeof => by
        obtain ⟨hne, hle, hend⟩ := h.which honeof
        exact ⟨_, pSize_member h.near hne hle, by omega⟩ }

theorem Schema.inside (schema : Schema δ) {d : δ} {e : Entry δ} (he : e ∈ schema.entries d) :
    Inside schema.size (schema.size d) (Entry.values e) :=
  inside_values (schema.plain d e he) (schema.fits d e he)

theorem fieldCount_desc (schema : Schema δ) (d : δ) :
    (schema.desc d).fieldCount.toNat = (schema.entries d).length := fieldCount_toNat (schema.bindable d)

theorem setDefaults_cases (schema : Schema δ) (depth : Nat) (d : δ) (message : Int) (mem : Mem) :
    setDefaults schema.desc (depth + 1) d message mem =
      (schema.entries d).foldl
        (fun mem e => pbFieldSetToDefault schema.desc (setDefaults schema.desc depth) message (Entry.values e) mem)
        mem := by
  rw [setDefaults, fieldCount_desc, Schema.desc]
  have hb := schema.bindable d
  generalize schema.entries d = entries at hb ⊢
  cases entries with
  | nil => rfl
  | cons first rest =>
      have h0 : (first :: rest)[0]? = some first := rfl
      rw [begin_bind hb true h0]
      exact congrArg Prod.fst (defaultsLoop_eq hb h0 _ _ 0 first h0 (by simp) mem)

theorem fold_frame {entries : List (Entry δ)} {act : FieldValues δ → Mem → Mem} {a : Int} {n : Nat}
    (h : ∀ e ∈ entries, ∀ mem, Frame a n mem (act (Entry.values e) mem)) (mem : Mem) :
    Frame a n mem (entries.foldl (fun mem e => act (Entry.values e) mem) mem) := by
  induction entries generalizing mem with
  | nil => exact .refl a n mem
  | cons e entries ih =>
      exact (h e List.mem_cons_self mem).trans (ih (fun f hf => h f (List.mem_cons_of_mem _ hf)) _)

theorem setDefaults_frame (depth : Nat) (d : δ) (a : Int) (mem : Mem) :
    Frame a (schema.size d) mem (setDefaults schema.desc depth d a mem) := by
  induction depth generalizing d a mem with
  | zero => exact .refl a _ mem
  | succ depth ih =>
      rw [setDefaults_cases]
      exact fold_frame (fun e he mem => pbFieldSetToDefault_frame (schema.inside he) ih mem) mem

theorem decodeLoop_frame (depth passes : Nat) (d : δ) (a : Int) (iter : FieldIter δ)
    (hrests : Rests (schema.beyond d) (schema.entries d) iter) (extensionRangeStart : UInt32) (mem : Mem)
    (stream : IStream) :
    Frame a (schema.size d) mem (decodeLoop schema.desc depth passes a iter extensionRangeStart mem stream).dest := by
  induction passes generalizing d a iter extensionRangeStart mem stream with
  | zero => cases stream <;> exact .refl a _ mem
  | succ passes ih =>
      cases stream with
      | nil => exact .refl a _ mem
      | cons byte rest =>
          have hb := schema.bindable d
          rw [decodeLoop]
          cases pbDecodeTag (byte :: rest) with
          | error e => exact .refl a _ mem
          | ok read =>
              obtain ⟨⟨wireType, tag⟩, stream⟩ := read
              dsimp only
              by_cases htag : tag = 0
              · rw [if_pos htag]
                exact .refl a _ mem
              · rw [if_neg htag]
                have hfind := rests_find hb hrests htag
                have hfield := field_of_found hb hrests htag
                generalize pbFieldIterFind iter tag = found at hfind hfield ⊢
                obtain ⟨found, iter⟩ := found
                dsimp only at hfind hfield ⊢
                split
                · cases pbSkipField wireType stream with
                  | error e => exact .refl a _ mem
                  | ok skipped => exact ih d a _ (rests_skip hb _ hfind) _ _ _
                · rename_i hhit
                  obtain ⟨e, he, hvalues⟩ := hfield (by simpa using (not_or.mp hhit).1)
                  rw [hvalues]
                  have hstored : Frame a (schema.size d) mem (decodeField schema.desc (setDefaults schema.desc depth)
                      (fun sub a mem substream => decodeLoop schema.desc depth passes a
                        (pbFieldIterBegin (schema.desc sub) true).2 0 mem substream)
                      a (Entry.values e) wireType mem stream).dest :=
                    decodeField_frame (schema.inside he) (setDefaults_frame depth)
                      (fun sub a mem stream => ih sub a _ (rests_begin (schema.bindable sub)) 0 mem stream) wireType mem
                      stream
                  split
                  · rename_i hdecoded
                    rwa [hdecoded] at hstored
                  · rename_i hdecoded
                    rw [hdecoded] at hstored
                    exact hstored.trans (ih d a iter hfind extensionRangeStart _ _)

/-- The loop starts from a field of the message, after the defaults have been set. -/
theorem pbDecodeInner_cases (schema : Schema δ) (depth : Nat) (noinit : Bool) (d : δ) (message : Int) (mem : Mem)
    (stream : IStream) :
    ∃ iter, Rests (schema.beyond d) (schema.entries d) iter ∧
      pbDecodeInner schema.desc depth noinit d message mem stream =
        decodeLoop schema.desc depth stream.length message iter 0
          (if noinit then mem else (schema.entries d).foldl
            (fun mem e => pbFieldSetToDefault schema.desc (setDefaults schema.desc depth) message (Entry.values e) mem)
            mem) stream := by
  have hdesc : schema.desc d = pbBind (schema.beyond d) (schema.entries d) := rfl
  rw [pbDecodeInner, fieldCount_desc, hdesc]
  have hb := schema.bindable d
  generalize schema.entries d = entries at hb ⊢
  cases entries with
  | nil =>
      refine ⟨_, .inr ⟨rfl, rfl⟩, ?_⟩
      cases noinit <;> rfl
  | cons first rest =>
      have h0 : (first :: rest)[0]? = some first := rfl
      refine ⟨_, .inl ⟨0, first, h0, rfl⟩, ?_⟩
      rw [begin_bind hb true h0]
      cases noinit with
      | true => rfl
      | false =>
          dsimp only
          rw [if_neg Bool.false_ne_true, if_neg Bool.false_ne_true, defaultsLoop_eq hb h0 _ _ 0 first h0 (by simp)]
          rfl

theorem pbDecodeInner_frame (schema : Schema δ) (depth : Nat) (noinit : Bool) (d : δ) (a : Int) (mem : Mem)
    (stream : IStream) :
    Frame a (schema.size d) mem (pbDecodeInner schema.desc depth noinit d a mem stream).dest := by
  obtain ⟨iter, hrests, heq⟩ := pbDecodeInner_cases schema depth noinit d a mem stream
  rw [heq]
  have hloop := fun mem => decodeLoop_frame depth stream.length d a iter hrests 0 mem stream
  cases noinit with
  | true => exact hloop mem
  | false =>
      exact (fold_frame (fun e he mem => pbFieldSetToDefault_frame (schema.inside he) (setDefaults_frame depth) mem)
        mem).trans (hloop _)

theorem pbEncode_cases (schema : Schema δ) (mem : Mem) (depth : Nat) (d : δ) (message : Int) (stream : OStream) :
    pbEncode schema.desc mem (depth + 1) d message stream =
      encodeAll (fun field => encodeField (pbEncode schema.desc mem depth) message field mem) (schema.entries d)
        stream := by
  rw [pbEncode, fieldCount_desc, Schema.desc]
  have hb := schema.bindable d
  generalize schema.entries d = entries at hb ⊢
  cases entries with
  | nil => rfl
  | cons first rest =>
      have h0 : (first :: rest)[0]? = some first := rfl
      rw [begin_bind hb true h0]
      exact encodeLoop_eq hb h0 _ _ 0 first h0 (by simp) stream

end Inside

end RaceControl.Nanopb.Struct
