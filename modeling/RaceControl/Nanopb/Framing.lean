import RaceControl.Nanopb.Codec

namespace RaceControl.Nanopb

variable {σ : Type} {fields : List (PbField σ)}

def pbEncodeDelimited : UInt32 := 0x02
def pbEncodeNullterminated : UInt32 := 0x04

def pbEncodeEx (fields : List (PbField σ)) (flags : UInt32) (src : σ) (stream : OStream) : Encoded :=
  if flags &&& pbEncodeDelimited ≠ 0 then pbEncodeSubmessage (pbEncode fields src) stream
  else if flags &&& pbEncodeNullterminated ≠ 0 then (pbEncode fields src stream).andThen (pbWrite [0])
  else pbEncode fields src stream

def pbGetEncodedSize (fields : List (PbField σ)) (src : σ) : Option Nat :=
  let sized := pbEncode fields src pbOStreamSizing
  match sized.error with
  | some _ => none
  | none => some sized.stream.bytesWritten

def pbDecodeNoinit : UInt32 := 0x01
def pbDecodeDelimited : UInt32 := 0x02
def pbDecodeNullterminated : UInt32 := 0x04

-- The loop of pb_decode_inner with its flags. A zero tag is an error or the end of the message.
def decodeFieldsEx (fields : List (PbField σ)) (flags : UInt32) : Nat → σ → IStream → Decoded σ
  | _, dest, [] => .ok dest []
  | 0, dest, _ :: _ => .fail .ioError dest
  | passes + 1, dest, byte :: rest =>
      match pbDecodeTag (byte :: rest) with
      | .error e => .fail e dest
      | .ok (⟨wireType, tag⟩, stream) =>
          if tag = 0 then
            if flags &&& pbDecodeNullterminated ≠ 0 then .ok dest stream else .fail .zeroTag dest
          else match fields.find? (fun field => field.tag == tag) with
            | none => match pbSkipField wireType stream with
                | .error e => .fail e dest
                | .ok (_, stream) => decodeFieldsEx fields flags passes dest stream
            | some field => match field.decode wireType dest stream with
                | .fail e dest => .fail e dest
                | .ok dest stream => decodeFieldsEx fields flags passes dest stream

def pbDecodeInnerEx (fields : List (PbField σ)) (flags : UInt32) (dest : σ) (stream : IStream) : Decoded σ :=
  let dest := if flags &&& pbDecodeNoinit = 0 then pbMessageSetToDefaults fields dest else dest
  decodeFieldsEx fields flags stream.length dest stream

-- Closing the substream skips what the message has left of it.
def pbDecodeEx (fields : List (PbField σ)) (flags : UInt32) (dest : σ) (stream : IStream) : Decoded σ :=
  if flags &&& pbDecodeDelimited = 0 then pbDecodeInnerEx fields flags dest stream
  else match pbMakeStringSubstream stream with
    | .error e => .fail e dest
    | .ok (substream, stream) =>
        match pbDecodeInnerEx fields flags dest substream with
        | .ok dest _ => .ok dest stream
        | .fail e dest => .fail e dest

theorem decodeFieldsEx_plain {flags : UInt32} (h : flags &&& pbDecodeNullterminated = 0) (passes : Nat) (dest : σ)
    (stream : IStream) : decodeFieldsEx fields flags passes dest stream = decodeFields fields passes dest stream := by
  induction passes generalizing dest stream with
  | zero => cases stream <;> rfl
  | succ passes ih =>
      cases stream with
      | nil => rfl
      | cons byte stream =>
          rw [decodeFieldsEx, decodeFields]
          cases pbDecodeTag (byte :: stream) with
          | error e => rfl
          | ok r =>
              obtain ⟨⟨wireType, tag⟩, body⟩ := r
              dsimp only
              by_cases hzero : tag = 0
              · rw [if_pos hzero, if_pos hzero, if_neg (not_not_intro h)]
              · rw [if_neg hzero, if_neg hzero]
                cases fields.find? (fun field => field.tag == tag) with
                | none =>
                    dsimp only
                    cases pbSkipField wireType body with
                    | error e => rfl
                    | ok skipped => exact ih dest skipped.2
                | some field =>
                    dsimp only
                    cases field.decode wireType dest body with
                    | fail e dest' => rfl
                    | ok next rest => exact ih next rest

/-- Without flags it is the plain function. -/
theorem pbDecodeEx_plain (dest : σ) (stream : IStream) :
    pbDecodeEx fields 0 dest stream = pbDecode fields dest stream := by
  rw [pbDecodeEx, if_pos (by decide), pbDecodeInnerEx, if_pos (by decide), decodeFieldsEx_plain (by decide)]
  rfl

theorem decodeFieldsEx_skip {flags : UInt32} {stream body rest : IStream} {wireType tag : UInt32}
    (htag : pbDecodeTag stream = .ok (⟨wireType, tag⟩, body)) (hzero : tag ≠ 0)
    (hfind : fields.find? (fun field => field.tag == tag) = none)
    (hskip : pbSkipField wireType body = .ok ((), rest)) (passes : Nat) (dest : σ) :
    decodeFieldsEx fields flags (passes + 1) dest stream = decodeFieldsEx fields flags passes dest rest := by
  cases stream with
  | nil => exact absurd htag (pbDecodeTag_nil _)
  | cons byte stream =>
      rw [decodeFieldsEx, htag]
      dsimp only
      rw [if_neg hzero, hfind]
      dsimp only
      rw [hskip]

theorem decodeFieldsEx_field {flags : UInt32} {stream body rest : IStream} {wireType tag : UInt32} {field : PbField σ}
    {dest next : σ} (htag : pbDecodeTag stream = .ok (⟨wireType, tag⟩, body)) (hzero : tag ≠ 0)
    (hfind : fields.find? (fun field => field.tag == tag) = some field)
    (hdecode : field.decode wireType dest body = .ok next rest) (passes : Nat) :
    decodeFieldsEx fields flags (passes + 1) dest stream = decodeFieldsEx fields flags passes next rest := by
  cases stream with
  | nil => exact absurd htag (pbDecodeTag_nil _)
  | cons byte stream =>
      rw [decodeFieldsEx, htag]
      dsimp only
      rw [if_neg hzero, hfind]
      dsimp only
      rw [hdecode]

theorem pbDecodeTag_zero (rest : IStream) : pbDecodeTag (0 :: rest) = .ok (⟨0, 0⟩, rest) := rfl

/-- A message that is accepted on its own is accepted in front of a terminator.
The last pass is the one that reads the terminator. -/
theorem Parses.terminated (hstable : FieldsStable fields) {flags : UInt32}
    (hflag : flags &&& pbDecodeNullterminated ≠ 0) {dest dest' : σ} {stream : IStream}
    (h : Parses fields dest stream dest') (rest : IStream) {passes : Nat} (hpasses : stream.length ≤ passes) :
    decodeFieldsEx fields flags (passes + 1) dest (stream ++ 0 :: rest) = .ok dest' rest := by
  induction h generalizing passes with
  | done dest =>
      rw [List.nil_append, decodeFieldsEx, pbDecodeTag_zero]
      dsimp only
      rw [if_pos rfl, if_pos hflag]
  | skip htag hzero hfind hskip _ ih =>
      have hl := pbDecodeTag_consumes _ _ _ htag
      have hr := pbSkipField_consumes _ _ _ _ hskip
      obtain ⟨passes, rfl⟩ := Nat.exists_eq_add_of_le' (by omega : 1 ≤ passes)
      rw [decodeFieldsEx_skip (pbDecodeTag_stable _ _ _ (0 :: rest) htag) hzero hfind
        (pbSkipField_stable _ _ _ _ (0 :: rest) hskip)]
      exact ih (by omega)
  | @field dest next dest' stream body left wireType tag field htag hzero hfind hdecode _ ih =>
      have hl := pbDecodeTag_consumes _ _ _ htag
      have hw := field.within wireType dest body
      rw [hdecode] at hw
      have hr : left.length ≤ body.length := hw
      obtain ⟨passes, rfl⟩ := Nat.exists_eq_add_of_le' (by omega : 1 ≤ passes)
      rw [decodeFieldsEx_field (pbDecodeTag_stable _ _ _ (0 :: rest) htag) hzero hfind
        (hstable _ (List.mem_of_find?_eq_some hfind) _ _ _ _ _ (0 :: rest) hdecode)]
      exact ih (by omega)

/-- Where decoding starts: from the struct as it is, or from its defaults. -/
def startOf (fields : List (PbField σ)) (flags : UInt32) (dest : σ) : σ :=
  if flags &&& pbDecodeNoinit = 0 then pbMessageSetToDefaults fields dest else dest

theorem pbDecodeEx_terminated (hstable : FieldsStable fields) {flags : UInt32}
    (hflag : flags &&& pbDecodeNullterminated ≠ 0) (hplain : flags &&& pbDecodeDelimited = 0) {dest dest' : σ}
    {stream : IStream} (h : pbDecodeInner fields (startOf fields flags dest) stream = .ok dest' []) (rest : IStream) :
    pbDecodeEx fields flags dest (stream ++ 0 :: rest) = .ok dest' rest := by
  have hparses := (pbDecodeInner_parses h).2
  have hlen : (stream ++ 0 :: rest).length = stream.length + rest.length + 1 := by
    rw [List.length_append, List.length_cons, Nat.add_assoc]
  rw [pbDecodeEx, if_pos hplain, pbDecodeInnerEx, hlen]
  exact hparses.terminated hstable hflag rest (Nat.le_add_right _ _)

theorem pbDecodeEx_delimited {flags : UInt32} (hplain : flags &&& pbDecodeNullterminated = 0)
    (hflag : flags &&& pbDecodeDelimited ≠ 0) {dest dest' : σ} {stream : IStream} (hlen : stream.length < 2 ^ 32)
    (h : pbDecodeInner fields (startOf fields flags dest) stream = .ok dest' []) (rest : IStream) :
    pbDecodeEx fields flags dest (Leb128.encode stream.length ++ stream ++ rest) = .ok dest' rest := by
  have hinner : pbDecodeInnerEx fields flags dest stream = .ok dest' [] := by
    rw [pbDecodeInnerEx, decodeFieldsEx_plain hplain]
    exact h
  rw [pbDecodeEx, if_neg hflag, pbMakeStringSubstream_encode hlen]
  dsimp only
  rw [hinner]

/-- The size that is computed first is the size that is written. -/
theorem MessageCodec.size (codec : MessageCodec fields) (src : σ) :
    pbGetEncodedSize fields src = some (codec.codecs.bytes src).length := by
  rw [pbGetEncodedSize, (codec.codecs.appends src).sizing pbOStreamSizing rfl]
  simp [Encoded.ok, pbOStreamSizing]

theorem Appends.buffer_room {bytes : List UInt8} {encode : OStream → Encoded} (h : Appends bytes encode) {bufsize : Nat}
    (hroom : bytes.length ≤ bufsize) :
    encode (pbOStreamFromBuffer bufsize) = ⟨none, false, bufsize, bytes.length, bytes⟩ := by
  rw [h.room (pbOStreamFromBuffer bufsize) rfl (by simpa [pbOStreamFromBuffer] using hroom)]
  simp [Encoded.ok, pbOStreamFromBuffer]

theorem Appends.buffer_full {bytes : List UInt8} {encode : OStream → Encoded} (h : Appends bytes encode) {bufsize : Nat}
    (hfull : bufsize < bytes.length) :
    ∃ k ≤ bufsize, encode (pbOStreamFromBuffer bufsize) = ⟨some .streamFull, false, bufsize, k, bytes.take k⟩ := by
  obtain ⟨k, hk, hencode⟩ := h.full (pbOStreamFromBuffer bufsize) rfl (Nat.zero_le _)
    (by simpa [pbOStreamFromBuffer] using hfull)
  refine ⟨k, by simpa [pbOStreamFromBuffer] using hk, ?_⟩
  rw [hencode]
  simp [pbOStreamFromBuffer]

theorem Appends.written {bytes : List UInt8} {encode : OStream → Encoded} (h : Appends bytes encode) {bufsize : Nat}
    (hok : (encode (pbOStreamFromBuffer bufsize)).error = none) :
    (encode (pbOStreamFromBuffer bufsize)).stream.buf = bytes := by
  by_cases hroom : bytes.length ≤ bufsize
  · rw [h.buffer_room hroom]
  · obtain ⟨k, -, hfull⟩ := h.buffer_full (Nat.lt_of_not_le hroom)
    rw [hfull] at hok
    cases hok

theorem MessageCodec.encodeEx_delimited (codec : MessageCodec fields) (src : σ) :
    Appends (codec.delimited src) (pbEncodeEx fields pbEncodeDelimited src) := by
  have heq : pbEncodeEx fields pbEncodeDelimited src = pbEncodeSubmessage (pbEncode fields src) := by
    funext stream
    rw [pbEncodeEx, if_pos (by decide)]
  rw [heq]
  exact codec.delimited_appends src

theorem MessageCodec.encodeEx_terminated (codec : MessageCodec fields) (src : σ) :
    Appends (codec.codecs.bytes src ++ [0]) (pbEncodeEx fields pbEncodeNullterminated src) := by
  have heq : pbEncodeEx fields pbEncodeNullterminated src =
      fun stream => (pbEncode fields src stream).andThen (pbWrite [0]) := by
    funext stream
    rw [pbEncodeEx, if_neg (by decide), if_pos (by decide)]
  rw [heq]
  exact (codec.codecs.appends src).andThen (pbWrite_appends [0])

/-- What was written with its length in front is read back, up to its end. -/
theorem MessageCodec.delimited_round_trip (codec : MessageCodec fields) {flags : UInt32}
    (hplain : flags &&& pbDecodeNullterminated = 0) (hflag : flags &&& pbDecodeDelimited ≠ 0) {bufsize : Nat} {src : σ}
    (hok : (pbEncodeEx fields pbEncodeDelimited src (pbOStreamFromBuffer bufsize)).error = none) (dest : σ)
    (rest : IStream) :
    pbDecodeEx fields flags dest
        ((pbEncodeEx fields pbEncodeDelimited src (pbOStreamFromBuffer bufsize)).stream.buf ++ rest) =
      .ok (codec.codecs.merge (startOf fields flags dest) src) rest := by
  rw [(codec.encodeEx_delimited src).written hok]
  exact pbDecodeEx_delimited hplain hflag (codec.short src) (codec.decodes_all _ src) rest

theorem MessageCodec.terminated_round_trip (codec : MessageCodec fields) (hstable : FieldsStable fields) {flags : UInt32}
    (hflag : flags &&& pbDecodeNullterminated ≠ 0) (hplain : flags &&& pbDecodeDelimited = 0) {bufsize : Nat} {src : σ}
    (hok : (pbEncodeEx fields pbEncodeNullterminated src (pbOStreamFromBuffer bufsize)).error = none) (dest : σ)
    (rest : IStream) :
    pbDecodeEx fields flags dest
        ((pbEncodeEx fields pbEncodeNullterminated src (pbOStreamFromBuffer bufsize)).stream.buf ++ rest) =
      .ok (codec.codecs.merge (startOf fields flags dest) src) rest := by
  rw [(codec.encodeEx_terminated src).written hok, List.append_assoc]
  exact pbDecodeEx_terminated hstable hflag hplain (codec.decodes_all _ src) rest

end RaceControl.Nanopb
