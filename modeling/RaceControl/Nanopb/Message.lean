import RaceControl.Nanopb.Scalar

namespace RaceControl.Nanopb

/-- A field of a message struct σ as its descriptor sees it. Decoding it never
reads past the stream, and encoding it stores every byte it counts. -/
structure PbField (σ : Type) where
  tag : UInt32
  setToDefault : σ → σ
  decode : UInt32 → σ → IStream → Decoded σ
  encode : σ → OStream → Encoded
  within : ∀ wireType dest stream, (decode wireType dest stream).Within stream.length
  stores : ∀ src, Stores (encode src)

variable {σ τ : Type}

def pbMessageSetToDefaults (fields : List (PbField σ)) (dest : σ) : σ :=
  fields.foldl (fun dest field => field.setToDefault dest) dest

-- The loop of pb_decode_inner. One pass consumes at least the tag, so the length
-- of the stream bounds the number of passes.
def decodeFields (fields : List (PbField σ)) : Nat → σ → IStream → Decoded σ
  | _, dest, [] => .ok dest []
  | 0, dest, _ :: _ => .fail .ioError dest
  | passes + 1, dest, byte :: rest =>
      match pbDecodeTag (byte :: rest) with
      | .error e => .fail e dest
      | .ok (⟨wireType, tag⟩, stream) =>
          if tag = 0 then .fail .zeroTag dest
          else match fields.find? (fun field => field.tag == tag) with
            | none => match pbSkipField wireType stream with
                | .error e => .fail e dest
                | .ok (_, stream) => decodeFields fields passes dest stream
            | some field => match field.decode wireType dest stream with
                | .fail e dest => .fail e dest
                | .ok dest stream => decodeFields fields passes dest stream

def pbDecodeInner (fields : List (PbField σ)) (dest : σ) (stream : IStream) : Decoded σ :=
  decodeFields fields stream.length dest stream

def pbDecode (fields : List (PbField σ)) (dest : σ) (stream : IStream) : Decoded σ :=
  pbDecodeInner fields (pbMessageSetToDefaults fields dest) stream

def pbEncode : List (PbField σ) → σ → OStream → Encoded
  | [], _, stream => .ok stream
  | field :: fields, src, stream => (field.encode src stream).andThen (pbEncode fields src)

def pbDecSubmessage (fields : List (PbField σ)) (dest : σ) (stream : IStream) : Decoded σ :=
  match pbMakeStringSubstream stream with
  | .error e => .fail e dest
  | .ok (substream, stream) =>
      match pbDecodeInner fields dest substream with
      | .ok dest _ => .ok dest stream
      | .fail e dest => .fail e dest

theorem pbMakeStringSubstream_consumes : Consumes 0 pbMakeStringSubstream := by
  intro stream sub rest h
  rw [pbMakeStringSubstream] at h
  split at h
  · cases h
  · rename_i size stream' hr
    have hl := pbDecodeVarint32_consumes _ _ _ hr
    split at h
    · cases h
    · cases h
      simp only [List.length_drop]
      omega

theorem pbDecSubmessage_within (fields : List (PbField σ)) (dest : σ) (stream : IStream) :
    (pbDecSubmessage fields dest stream).Within stream.length := by
  rw [pbDecSubmessage]
  split
  · trivial
  · rename_i substream rest hr
    have hl := pbMakeStringSubstream_consumes _ _ _ hr
    split
    · exact hl
    · trivial

theorem pbEncode_stores (fields : List (PbField σ)) (src : σ) : Stores (pbEncode fields src) := by
  induction fields with
  | nil => exact stores_ok
  | cons field fields ih => exact (field.stores src).andThen ih

/-- More passes than the stream has bytes change nothing, so the loop never
stops for want of a pass. -/
theorem decodeFields_passes (fields : List (PbField σ)) (n : Nat) (dest : σ) (stream : IStream)
    (h : stream.length ≤ n) : decodeFields fields n dest stream = pbDecodeInner fields dest stream := by
  suffices hs : ∀ m n dest (stream : IStream), stream.length ≤ m → stream.length ≤ n →
      decodeFields fields m dest stream = decodeFields fields n dest stream from
    hs _ _ _ _ h (Nat.le_refl _)
  intro m
  induction m with
  | zero =>
      intro n dest stream hm hn
      have hnil : stream = [] := List.length_eq_zero_iff.mp (Nat.le_zero.mp hm)
      subst hnil
      cases n <;> rfl
  | succ m ih =>
      intro n dest stream hm hn
      cases stream with
      | nil => cases n <;> rfl
      | cons byte stream =>
          cases n with
          | zero => simp at hn
          | succ n =>
              rw [decodeFields, decodeFields]
              split
              · rfl
              · rename_i wireType tag rest ht
                have hl := pbDecodeTag_consumes _ _ _ ht
                split
                · rfl
                · split
                  · split
                    · rfl
                    · rename_i skipped hskip
                      have hr := pbSkipField_consumes _ _ _ _ hskip
                      exact ih _ _ _ (by omega) (by omega)
                  · rename_i field _
                    have hw := field.within wireType dest rest
                    split
                    · rfl
                    · rename_i hd
                      rw [hd] at hw
                      have hr : _ ≤ rest.length := hw
                      exact ih _ _ _ (by omega) (by omega)

section Kinds

def encodeTagged (wireType tag : UInt32) (encode : OStream → Encoded) (stream : OStream) : Encoded :=
  (pbEncodeTag wireType tag stream).andThen encode

theorem encodeTagged_stores (wireType tag : UInt32) {encode : OStream → Encoded}
    (h : Stores encode) : Stores (encodeTagged wireType tag encode) :=
  (pbEncodeVarint_stores _).andThen h

/-- A proto3 singular field is written only when its value is not all zeros. -/
def singular (tag : UInt32) (t : Scalar) (get : σ → t.Value) (set : t.Value → σ → σ) : PbField σ where
  tag := tag
  setToDefault dest := set t.zero dest
  decode wireType dest stream :=
    if wireType ≠ t.wireType then .fail .wrongWireType dest
    else (decodeScalar t (get dest) stream).map (fun value => set value dest)
  encode src stream :=
    if get src = t.zero then .ok stream
    else encodeTagged t.wireType tag (encodeScalar t (get src)) stream
  within wireType dest stream := by
    split
    · trivial
    · exact within_map _ (decodeScalar_within t _ stream)
  stores src := by
    intro stream before h
    split
    · exact stores_ok stream before h
    · exact encodeTagged_stores _ _ (encodeScalar_stores t _) stream before h

def optional (tag : UInt32) (fields : List (PbField τ)) (has : σ → Bool) (setHas : Bool → σ → σ)
    (get : σ → τ) (set : τ → σ → σ) : PbField σ where
  tag := tag
  setToDefault dest := set (pbMessageSetToDefaults fields (get dest)) (setHas false dest)
  decode wireType dest stream :=
    if wireType ≠ pbWtString then .fail .wrongWireType (setHas true dest)
    else (pbDecSubmessage fields (get dest) stream).map (fun sub => set sub (setHas true dest))
  encode src stream :=
    if has src = false then .ok stream
    else encodeTagged pbWtString tag (pbEncodeSubmessage (pbEncode fields (get src))) stream
  within wireType dest stream := by
    split
    · trivial
    · exact within_map _ (pbDecSubmessage_within fields _ stream)
  stores src := by
    intro stream before h
    split
    · exact stores_ok stream before h
    · exact encodeTagged_stores _ _ (pbEncodeSubmessage_stores (pbEncode_stores fields _))
        stream before h

/-- A submessage in a union. Selecting another member zeroes the new one. -/
def oneof (tag : UInt32) (fields : List (PbField τ)) (zero : τ) (clear : σ → σ)
    (select : σ → Option τ) (store : τ → σ → σ) : PbField σ where
  tag := tag
  setToDefault := clear
  decode wireType dest stream :=
    let sub := (select dest).getD zero
    if wireType ≠ pbWtString then .fail .wrongWireType (store sub dest)
    else (pbDecSubmessage fields sub stream).map (fun sub => store sub dest)
  encode src stream :=
    match select src with
    | none => .ok stream
    | some sub => encodeTagged pbWtString tag (pbEncodeSubmessage (pbEncode fields sub)) stream
  within wireType dest stream := by
    split
    · trivial
    · exact within_map _ (pbDecSubmessage_within fields _ stream)
  stores src := by
    intro stream before h
    split
    · exact stores_ok stream before h
    · exact encodeTagged_stores _ _ (pbEncodeSubmessage_stores (pbEncode_stores fields _))
        stream before h

end Kinds

end RaceControl.Nanopb
