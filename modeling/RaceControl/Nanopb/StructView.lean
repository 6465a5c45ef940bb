import RaceControl.Nanopb.StructLoop

namespace RaceControl.Nanopb.Struct

open Record

variable {δ σ τ : Type} {schema : Schema δ}

/-- A field of a message struct with its entry in the descriptor. -/
structure BoundField (σ δ : Type) where
  entry : Entry δ
  field : PbField σ
  agree : field.tag = entry.info.tag

/-- What decodes a submessage from a stream of so many bytes. -/
def innerLoop (schema : Schema δ) (depth passes : Nat) : DecodeInner δ := fun sub a mem substream =>
  decodeLoop schema.desc depth passes a (pbFieldIterBegin (schema.desc sub) true).2 0 mem substream

section Message

/-- The functions for a field in memory do what a field of the value does. -/
structure Handles (schema : Schema δ) (depth : Nat) (view : Mem → Int → σ) (values : FieldValues δ)
    (field : PbField σ) : Prop where
  default : ∀ mem a, view (pbFieldSetToDefault schema.desc (setDefaults schema.desc depth) a values mem) a =
    field.setToDefault (view mem a)
  decode : ∀ passes wireType mem a stream, stream.length ≤ passes →
    (decodeField schema.desc (setDefaults schema.desc depth) (innerLoop schema depth passes) a values wireType mem
      stream).map (view · a) = field.decode wireType (view mem a) stream
  encode : ∀ mem a stream,
    encodeField (pbEncode schema.desc mem depth) a values mem stream = field.encode (view mem a) stream

/-- The loops over a descriptor do what the list of the fields says, on the values
that the structs in memory stand for. -/
structure Realizes (schema : Schema δ) (nesting : Nat) (d : δ) (view : Mem → Int → σ) (zero : σ)
    (fields : List (PbField σ)) : Prop where
  within : ∀ mem mem' a, Same a (schema.size d) mem mem' → view mem' a = view mem a
  zeroed : ∀ mem (a : Int), (∀ x, a ≤ x → x < a + schema.size d → mem x = 0) → view mem a = zero
  reset : ∀ dest, pbMessageSetToDefaults fields dest = zero
  default : ∀ depth, nesting ≤ depth → ∀ mem a,
    view (setDefaults schema.desc depth d a mem) a = pbMessageSetToDefaults fields (view mem a)
  decode : ∀ depth, nesting ≤ depth → ∀ passes iter, Rests (schema.beyond d) (schema.entries d) iter →
    ∀ extensionRangeStart mem a stream, stream.length ≤ passes →
      (decodeLoop schema.desc depth passes a iter extensionRangeStart mem stream).map (view · a) =
        Nanopb.pbDecodeInner fields (view mem a) stream
  encode : ∀ depth, nesting ≤ depth → ∀ mem a stream,
    pbEncode schema.desc mem depth d a stream = Nanopb.pbEncode fields (view mem a) stream

variable {d : δ} {view : Mem → Int → σ} {table : List (BoundField σ δ)}

theorem not_extension {type : PbType} (h : isPlain type = true) : pbLtype type ≠ pbLtypeExtension := by
  intro hext
  rw [isPlain, hext] at h
  revert h
  cases pbAtype type == pbAtypeStatic <;> cases pbHtype type == pbHtypeOptional <;>
    cases pbHtype type == pbHtypeOneof <;> decide

theorem wants_iff (hplain : ∀ b ∈ table, isPlain b.entry.info.type = true) {b : BoundField σ δ} (hb : b ∈ table)
    (tag : UInt32) : wantsTag tag b.entry = true ↔ b.field.tag = tag := by
  rw [wantsTag, Bool.and_eq_true, beq_iff_eq, bne_iff_ne, b.agree]
  exact and_iff_left (not_extension (hplain b hb))

theorem fold_default {depth : Nat} {fields : List (BoundField σ δ)}
    (h : ∀ b ∈ fields, Handles schema depth view (Entry.values b.entry) b.field) (mem : Mem) (a : Int) :
    view ((fields.map BoundField.entry).foldl
        (fun mem e => pbFieldSetToDefault schema.desc (setDefaults schema.desc depth) a (Entry.values e) mem) mem) a =
      pbMessageSetToDefaults (fields.map BoundField.field) (view mem a) := by
  induction fields generalizing mem with
  | nil => rfl
  | cons b fields ih =>
      rw [List.map_cons, List.foldl_cons, ih (fun c hc => h c (List.mem_cons_of_mem _ hc)),
        (h b List.mem_cons_self).default]
      rfl

theorem fold_encode {depth : Nat} {fields : List (BoundField σ δ)} {mem : Mem} {a : Int}
    (h : ∀ b ∈ fields, Handles schema depth view (Entry.values b.entry) b.field) (stream : OStream) :
    encodeAll (fun field => encodeField (pbEncode schema.desc mem depth) a field mem) (fields.map BoundField.entry)
        stream = Nanopb.pbEncode (fields.map BoundField.field) (view mem a) stream := by
  induction fields generalizing stream with
  | nil => rfl
  | cons b fields ih =>
      rw [List.map_cons, encodeAll, (h b List.mem_cons_self).encode, List.map_cons, Nanopb.pbEncode]
      congr 1
      funext stream
      exact ih (fun c hc => h c (List.mem_cons_of_mem _ hc)) stream

variable (hentries : schema.entries d = table.map BoundField.entry)

include hentries

theorem plain_table : ∀ b ∈ table, isPlain b.entry.info.type = true := fun b hb =>
  schema.plain d b.entry (hentries ▸ List.mem_map_of_mem hb)

/-- A tag without a field is not found. -/
theorem find_absent {iter : FieldIter δ} (h : Rests (schema.beyond d) (schema.entries d) iter) {tag : UInt32}
    (htag : tag ≠ 0) (hnone : (table.map BoundField.field).find? (fun field => field.tag == tag) = none) :
    (pbFieldIterFind iter tag).1 = false := by
  rw [List.find?_eq_none] at hnone
  have hunwanted : ∀ e ∈ schema.entries d, ¬ wantsTag tag e = true := by
    intro e he hwants
    rw [hentries] at he
    obtain ⟨b, hb, rfl⟩ := List.mem_map.mp he
    have heq := (wants_iff (plain_table hentries) hb tag).mp hwants
    exact hnone b.field (List.mem_map_of_mem hb) (by simpa using heq)
  rcases h with ⟨k, e, hk, rfl⟩ | ⟨-, rfl⟩
  · have he := List.mem_of_getElem? hk
    have hcurrent : e.info.tag ≠ tag := by
      intro heq
      apply hunwanted e he
      rw [wantsTag, heq, beq_self_eq_true, Bool.true_and, bne_iff_ne]
      exact not_extension (schema.plain d e he)
    rw [find_unwanted (schema.bindable d) true hk hcurrent hunwanted]
  · rw [find_empty htag]

/-- A tag with a field takes the iterator to it. -/
theorem find_present {iter : FieldIter δ} (h : Rests (schema.beyond d) (schema.entries d) iter) {tag : UInt32}
    {field : PbField σ} (hfield : (table.map BoundField.field).find? (fun field => field.tag == tag) = some field) :
    ∃ b ∈ table, b.field = field ∧ (pbFieldIterFind iter tag).1 = true ∧
      (pbFieldIterFind iter tag).2.field = Entry.values b.entry := by
  obtain ⟨b, hb, rfl⟩ := List.mem_map.mp (List.mem_of_find?_eq_some hfield)
  have htag : b.field.tag = tag := by simpa using List.find?_some hfield
  have hwants := (wants_iff (plain_table hentries) hb tag).mpr htag
  have he : b.entry ∈ schema.entries d := hentries ▸ List.mem_map_of_mem hb
  obtain ⟨t, ht⟩ := List.getElem?_of_mem he
  rcases h with ⟨k, c, hk, rfl⟩ | ⟨hnil, -⟩
  · rw [find_wanted (schema.bindable d) true hk ht hwants]
    exact ⟨b, hb, rfl, rfl, rfl⟩
  · rw [hnil] at he
    cases he

/-- From every place the iterator can be at, the loop in memory and the loop over
the list of fields do the same. -/
theorem decodeLoop_view {depth : Nat} (h : ∀ b ∈ table, Handles schema depth view (Entry.values b.entry) b.field)
    (passes : Nat) (iter : FieldIter δ) (hrests : Rests (schema.beyond d) (schema.entries d) iter)
    (extensionRangeStart : UInt32) (mem : Mem) (a : Int) (stream : IStream) (hlen : stream.length ≤ passes) :
    (decodeLoop schema.desc depth passes a iter extensionRangeStart mem stream).map (view · a) =
      decodeFields (table.map BoundField.field) passes (view mem a) stream := by
  induction passes generalizing iter extensionRangeStart mem stream with
  | zero =>
      obtain rfl : stream = [] := List.length_eq_zero_iff.mp (Nat.le_zero.mp hlen)
      rfl
  | succ passes ih =>
      cases stream with
      | nil => rfl
      | cons byte rest =>
          have hb := schema.bindable d
          rw [decodeLoop, decodeFields]
          cases hread : pbDecodeTag (byte :: rest) with
          | error e => rfl
          | ok read =>
              obtain ⟨⟨wireType, tag⟩, stream⟩ := read
              have hconsumed := pbDecodeTag_consumes _ _ _ hread
              dsimp only
              by_cases htag : tag = 0
              · rw [if_pos htag, if_pos htag]
                rfl
              · rw [if_neg htag, if_neg htag]
                have hnext := rests_find hb hrests htag
                cases hfind : (table.map BoundField.field).find? (fun field => field.tag == tag) with
                | none =>
                    have hmiss := find_absent hentries hrests htag hfind
                    generalize pbFieldIterFind iter tag = found at hmiss hnext ⊢
                    obtain ⟨found, iter⟩ := found
                    dsimp only at hmiss hnext ⊢
                    rw [if_pos (.inl hmiss)]
                    cases hskip : pbSkipField wireType stream with
                    | error e => rfl
                    | ok skipped =>
                        have hskipped := pbSkipField_consumes _ _ _ _ hskip
                        exact ih _ (rests_skip hb _ hnext) _ _ _ (by omega)
                | some field =>
                    obtain ⟨b, hbound, rfl, hhit, hvalues⟩ := find_present hentries hrests hfind
                    have hplain := not_extension (plain_table hentries b hbound)
                    generalize pbFieldIterFind iter tag = found at hhit hvalues hnext ⊢
                    obtain ⟨found, iter⟩ := found
                    dsimp only at hhit hvalues hnext ⊢
                    have hnot : ¬ (found = false ∨ pbLtype iter.field.type = pbLtypeExtension) := by
                      rw [hhit, hvalues]
                      rintro (hfalse | hext)
                      · cases hfalse
                      · exact hplain hext
                    rw [if_neg hnot, hvalues]
                    have hdecoded := (h b hbound).decode passes wireType mem a stream (by omega)
                    have hwithin := b.field.within wireType (view mem a) stream
                    rw [← hdecoded] at hwithin ⊢
                    have hinner : (fun sub a mem substream => decodeLoop schema.desc depth passes a
                        (pbFieldIterBegin (schema.desc sub) true).2 0 mem substream) = innerLoop schema depth passes :=
                      rfl
                    rw [hinner]
                    generalize decodeField schema.desc (setDefaults schema.desc depth) (innerLoop schema depth passes)
                      a (Entry.values b.entry) wireType mem stream = stored at hwithin ⊢
                    cases stored with
                    | fail e mem => rfl
                    | ok mem left =>
                        have hleft : left.length ≤ stream.length := hwithin
                        exact ih _ hnext _ _ _ (by omega)

theorem realizes_message {nesting : Nat} {zero : σ}
    (hwithin : ∀ mem mem' a, Same a (schema.size d) mem mem' → view mem' a = view mem a)
    (hzeroed : ∀ mem (a : Int), (∀ x, a ≤ x → x < a + schema.size d → mem x = 0) → view mem a = zero)
    (hreset : ∀ dest, pbMessageSetToDefaults (table.map BoundField.field) dest = zero)
    (h : ∀ depth, nesting ≤ depth → ∀ b ∈ table, Handles schema depth view (Entry.values b.entry) b.field) :
    Realizes schema (nesting + 1) d view zero (table.map BoundField.field) where
  within := hwithin
  zeroed := hzeroed
  reset := hreset
  default depth hdepth mem a := by
    obtain ⟨depth, rfl⟩ : ∃ k, depth = k + 1 := ⟨depth - 1, by omega⟩
    rw [setDefaults_cases, hentries]
    exact fold_default (h depth (by omega)) mem a
  decode depth hdepth passes iter hrests extensionRangeStart mem a stream hlen := by
    rw [decodeLoop_view hentries (h depth (by omega)) passes iter hrests _ _ _ _ hlen]
    exact decodeFields_passes _ _ _ _ hlen
  encode depth hdepth mem a stream := by
    obtain ⟨depth, rfl⟩ : ∃ k, depth = k + 1 := ⟨depth - 1, by omega⟩
    rw [pbEncode_cases, hentries]
    exact fold_encode (h depth (by omega)) stream

omit hentries in
/-- A whole message is decoded into the value that its struct stands for. -/
theorem Realizes.decoded {nesting : Nat} {zero : σ} {fields : List (PbField σ)}
    (h : Realizes schema nesting d view zero fields) {depth : Nat} (hdepth : nesting ≤ depth) (mem : Mem) (a : Int)
    (stream : IStream) :
    (pbDecodeInner schema.desc depth false d a mem stream).map (view · a) = pbDecode fields (view mem a) stream := by
  obtain ⟨iter, hrests, heq⟩ := pbDecodeInner_cases schema depth false d a mem stream
  rw [heq, h.decode depth hdepth _ iter hrests 0 _ a stream (Nat.le_refl _), if_neg Bool.false_ne_true,
    ← setDefaults_cases, h.default (depth + 1) (Nat.le_succ_of_le hdepth), pbDecode]

end Message

end RaceControl.Nanopb.Struct
