import RaceControl.Nanopb.Message

namespace RaceControl.Nanopb

/-- The stream takes n more bytes. A sizing stream takes any number. -/
def OStream.Room (stream : OStream) (n : Nat) : Prop :=
  stream.sizing = true ∨ stream.bytesWritten + n ≤ stream.maxSize

/-- With room for them, exactly n bytes are written, whatever the stream. -/
def Writes (n : Nat) (encode : OStream → Encoded) : Prop :=
  ∀ stream, stream.Room n → (encode stream).error = none ∧
    (encode stream).stream.bytesWritten = stream.bytesWritten + n ∧
    (encode stream).stream.sizing = stream.sizing ∧ (encode stream).stream.maxSize = stream.maxSize

/-- The number of bytes is fixed, and at most n. -/
def Bounded (n : Nat) (encode : OStream → Encoded) : Prop := ∃ m, m ≤ n ∧ Writes m encode

theorem writes_ok : Writes 0 Encoded.ok := fun _ _ => ⟨rfl, rfl, rfl, rfl⟩

theorem pbWrite_writes (bytes : List UInt8) : Writes bytes.length (pbWrite bytes) := by
  intro stream hroom
  rw [pbWrite]
  split
  · rename_i hbuf
    have hfits : ¬ stream.maxSize < stream.bytesWritten + bytes.length := by
      rcases hroom with hs | hle
      · rw [hbuf.2] at hs
        cases hs
      · omega
    rw [if_neg hfits]
    exact ⟨rfl, rfl, rfl, rfl⟩
  · exact ⟨rfl, rfl, rfl, rfl⟩

theorem Writes.andThen {m n : Nat} {encode next : OStream → Encoded} (h : Writes m encode)
    (hn : Writes n next) : Writes (m + n) (fun stream => (encode stream).andThen next) := by
  intro stream hroom
  have hfirst : stream.Room m := by
    rcases hroom with hs | hle
    · exact .inl hs
    · exact .inr (by omega)
  obtain ⟨herr, hcount, hsizing, hmax⟩ := h stream hfirst
  have hsecond : (encode stream).stream.Room n := by
    rcases hroom with hs | hle
    · exact .inl (hsizing.trans hs)
    · exact .inr (by omega)
  obtain ⟨herr', hcount', hsizing', hmax'⟩ := hn _ hsecond
  simp only [Encoded.andThen, herr]
  exact ⟨herr', by omega, hsizing'.trans hsizing, hmax'.trans hmax⟩

/-- The second pass over a message finds the room that the first pass counted. -/
theorem encodeWindow_writes {n : Nat} {encode : OStream → Encoded} (h : Writes n encode) :
    Writes n (encodeWindow encode n) := by
  intro stream hroom
  rw [encodeWindow]
  split
  · exact ⟨rfl, rfl, rfl, rfl⟩
  · rename_i hbuf
    have hfits : ¬ stream.maxSize < stream.bytesWritten + n := by
      rcases hroom with hs | hle
      · exact absurd hs hbuf
      · omega
    obtain ⟨herr, hcount, -, -⟩ := h ⟨false, n, 0, stream.buf⟩ (.inr (Nat.le_of_eq (Nat.zero_add n)))
    rw [Nat.zero_add] at hcount
    rw [if_neg hfits]
    simp [hcount, herr]

theorem Bounded.mono {m n : Nat} {encode : OStream → Encoded} (h : Bounded m encode) (hmn : m ≤ n) :
    Bounded n encode := by
  obtain ⟨k, hk, hw⟩ := h
  exact ⟨k, Nat.le_trans hk hmn, hw⟩

theorem bounded_ok : Bounded 0 Encoded.ok := ⟨0, Nat.le_refl 0, writes_ok⟩

theorem Bounded.andThen {m n : Nat} {encode next : OStream → Encoded} (h : Bounded m encode)
    (hn : Bounded n next) : Bounded (m + n) (fun stream => (encode stream).andThen next) := by
  obtain ⟨k, hk, hw⟩ := h
  obtain ⟨k', hk', hw'⟩ := hn
  exact ⟨k + k', Nat.add_le_add hk hk', hw.andThen hw'⟩

theorem varintLowLoop_length (high : UInt32) (passes : Nat) (low : UInt32) (byte : UInt8)
    (buffer : List UInt8) :
    (varintLowLoop high passes low byte buffer).1.length ≤ buffer.length + passes := by
  induction passes generalizing low byte buffer with
  | zero => exact Nat.le_refl _
  | succ passes ih =>
      rw [varintLowLoop]
      split
      · have h := ih (low >>> 7) (low &&& 0x7F).toUInt8 (buffer ++ [byte ||| 0x80])
        simp only [List.length_append, List.length_singleton] at h
        omega
      · exact Nat.le_add_right _ _

theorem varintHighLoop_length (passes : Nat) (high : UInt32) (byte : UInt8) (buffer : List UInt8) :
    (varintHighLoop passes high byte buffer).1.length ≤ buffer.length + passes := by
  induction passes generalizing high byte buffer with
  | zero => exact Nat.le_refl _
  | succ passes ih =>
      rw [varintHighLoop]
      split
      · have h := ih (high >>> 7) (high &&& 0x7F).toUInt8 (buffer ++ [byte ||| 0x80])
        simp only [List.length_append, List.length_singleton] at h
        omega
      · exact Nat.le_add_right _ _

theorem varint32Bytes_length (low high : UInt32) : (varint32Bytes low high).length ≤ 10 := by
  have hlow := varintLowLoop_length high 4 (low >>> 7) (low &&& 0x7F).toUInt8 []
  rw [varint32Bytes]
  generalize varintLowLoop high 4 (low >>> 7) (low &&& 0x7F).toUInt8 [] = first at hlow
  obtain ⟨buffer, byte⟩ := first
  simp only [List.length_nil] at hlow
  dsimp only
  split
  · have hhigh := varintHighLoop_length 5 (high >>> 3) (byte ||| ((high &&& 0x07) <<< 4).toUInt8) buffer
    simp only [List.length_append, List.length_singleton]
    omega
  · simp only [List.length_append, List.length_singleton]
    omega

theorem pbEncodeVarint_bounded (value : UInt64) : Bounded 10 (pbEncodeVarint value) := by
  by_cases h : value ≤ 0x7F
  · refine ⟨1, by omega, fun stream hroom => ?_⟩
    rw [pbEncodeVarint, if_pos h]
    exact pbWrite_writes [value.toUInt8] stream hroom
  · refine ⟨_, varint32Bytes_length value.toUInt32 (value >>> 32).toUInt32, fun stream hroom => ?_⟩
    rw [pbEncodeVarint, if_neg h]
    exact pbWrite_writes _ stream hroom

theorem pbEncodeSubmessage_bounded {n : Nat} {encode : OStream → Encoded} (h : Bounded n encode) :
    Bounded (10 + n) (pbEncodeSubmessage encode) := by
  obtain ⟨m, hm, hw⟩ := h
  obtain ⟨herr, hcount, -, -⟩ := hw pbOStreamSizing (.inl rfl)
  have hsize : (encode pbOStreamSizing).stream.bytesWritten = m := hcount.trans (Nat.zero_add m)
  obtain ⟨k, hk, hwk⟩ := pbEncodeVarint_bounded (UInt64.ofNat m)
  refine ⟨k + m, by omega, ?_⟩
  intro stream hroom
  simp only [pbEncodeSubmessage, herr, hsize]
  exact hwk.andThen (encodeWindow_writes hw) stream hroom

theorem encodeTagged_bounded {n : Nat} (wireType tag : UInt32) {encode : OStream → Encoded}
    (h : Bounded n encode) : Bounded (10 + n) (encodeTagged wireType tag encode) :=
  (pbEncodeVarint_bounded _).andThen h

theorem littleEndianBytes_length (n value : Nat) : (littleEndianBytes n value).length = n := by
  induction n generalizing value with
  | zero => rfl
  | succ n ih => rw [littleEndianBytes, List.length_cons, ih]

theorem encodeScalar_bounded (t : Scalar) (value : t.Value) : Bounded 10 (encodeScalar t value) := by
  cases t with
  | bool | int32 | int64 | uenum => exact pbEncodeVarint_bounded _
  | float =>
      have h := pbWrite_writes (littleEndianBytes 4 (UInt32.toNat value))
      rw [littleEndianBytes_length] at h
      exact ⟨4, by omega, h⟩
  | double =>
      have h := pbWrite_writes (littleEndianBytes 8 (UInt64.toNat value))
      rw [littleEndianBytes_length] at h
      exact ⟨8, by omega, h⟩

section Fields

variable {σ τ : Type} {n : Nat}

/-- A field that is left out writes nothing. -/
theorem bounded_if {p : Prop} [Decidable p] {encode : OStream → Encoded} (h : Bounded n encode) :
    Bounded n (fun stream => if p then .ok stream else encode stream) := by
  by_cases hp : p
  · simp only [hp, if_true]
    exact bounded_ok.mono (Nat.zero_le n)
  · simpa only [hp, if_false] using h

theorem singular_bounded (tag : UInt32) (t : Scalar) (get : σ → t.Value) (set : t.Value → σ → σ) (src : σ) :
    Bounded 20 ((singular tag t get set).encode src) :=
  bounded_if (encodeTagged_bounded _ _ (encodeScalar_bounded t (get src)))

theorem optional_bounded {fields : List (PbField τ)} (h : ∀ sub, Bounded n (pbEncode fields sub))
    (tag : UInt32) (has : σ → Bool) (setHas : Bool → σ → σ) (get : σ → τ) (set : τ → σ → σ) (src : σ) :
    Bounded (10 + (10 + n)) ((optional tag fields has setHas get set).encode src) :=
  bounded_if (encodeTagged_bounded _ _ (pbEncodeSubmessage_bounded (h (get src))))

theorem oneof_bounded {fields : List (PbField τ)} (h : ∀ sub, Bounded n (pbEncode fields sub))
    (tag : UInt32) (zero : τ) (clear : σ → σ) (select : σ → Option τ) (store : τ → σ → σ) (src : σ) :
    Bounded (10 + (10 + n)) ((oneof tag fields zero clear select store).encode src) := by
  simp only [oneof]
  cases select src with
  | none => exact bounded_ok.mono (Nat.zero_le _)
  | some sub => exact encodeTagged_bounded _ _ (pbEncodeSubmessage_bounded (h sub))

theorem pbEncode_bounded_nil (src : σ) : Bounded 0 (pbEncode [] src) := bounded_ok

theorem pbEncode_bounded_cons {m : Nat} {field : PbField σ} {fields : List (PbField σ)} {src : σ}
    (h : Bounded m (field.encode src)) (hs : Bounded n (pbEncode fields src)) :
    Bounded (m + n) (pbEncode (field :: fields) src) :=
  h.andThen hs

theorem pbEncode_succeeds {fields : List (PbField σ)} {src : σ} (h : Bounded n (pbEncode fields src))
    {bufsize : Nat} (hn : n ≤ bufsize) : (pbEncode fields src (pbOStreamFromBuffer bufsize)).error = none := by
  obtain ⟨m, hm, hw⟩ := h
  exact (hw (pbOStreamFromBuffer bufsize) (.inr (by simp only [pbOStreamFromBuffer]; omega))).1

end Fields

end RaceControl.Nanopb
