import RaceControl.Nanopb.Stream

namespace RaceControl.Nanopb

/-- An output stream. A sizing stream has no callback: it counts the bytes that
would be written, without a limit and without storing them. -/
structure OStream where
  sizing : Bool
  maxSize : Nat
  bytesWritten : Nat
  buf : List UInt8

def pbOStreamFromBuffer (bufsize : Nat) : OStream := ⟨false, bufsize, 0, []⟩

def pbOStreamSizing : OStream := ⟨true, 0, 0, []⟩

/-- A failed write leaves the stream as the earlier writes left it. -/
structure Encoded where
  error : Option PbError
  stream : OStream

def Encoded.ok (stream : OStream) : Encoded := ⟨none, stream⟩

def Encoded.andThen (r : Encoded) (next : OStream → Encoded) : Encoded :=
  match r.error with
  | none => next r.stream
  | some _ => r

def pbWrite (bytes : List UInt8) (stream : OStream) : Encoded :=
  if bytes ≠ [] ∧ stream.sizing = false then
    if stream.bytesWritten + bytes.length > stream.maxSize then ⟨some .streamFull, stream⟩
    else .ok { stream with
      bytesWritten := stream.bytesWritten + bytes.length
      buf := stream.buf ++ bytes }
  else .ok { stream with bytesWritten := stream.bytesWritten + bytes.length }

-- The first loop runs while i < 4, so four passes bound it.
def varintLowLoop (high : UInt32) : Nat → UInt32 → UInt8 → List UInt8 → List UInt8 × UInt8
  | 0, _, byte, buffer => (buffer, byte)
  | passes + 1, low, byte, buffer =>
      if low ≠ 0 ∨ high ≠ 0 then
        varintLowLoop high passes (low >>> 7) (low &&& 0x7F).toUInt8 (buffer ++ [byte ||| 0x80])
      else (buffer, byte)

-- The second loop shifts what is left of high, 29 bits at most, by 7 a pass.
def varintHighLoop : Nat → UInt32 → UInt8 → List UInt8 → List UInt8 × UInt8
  | 0, _, byte, buffer => (buffer, byte)
  | passes + 1, high, byte, buffer =>
      if high ≠ 0 then
        varintHighLoop passes (high >>> 7) (high &&& 0x7F).toUInt8 (buffer ++ [byte ||| 0x80])
      else (buffer, byte)

def varint32Bytes (low high : UInt32) : List UInt8 :=
  let (buffer, byte) := varintLowLoop high 4 (low >>> 7) (low &&& 0x7F).toUInt8 []
  let (buffer, byte) :=
    if high ≠ 0 then
      varintHighLoop 5 (high >>> 3) (byte ||| ((high &&& 0x07) <<< 4).toUInt8) buffer
    else (buffer, byte)
  buffer ++ [byte]

def pbEncodeVarint32 (low high : UInt32) (stream : OStream) : Encoded :=
  pbWrite (varint32Bytes low high) stream

def pbEncodeVarint (value : UInt64) (stream : OStream) : Encoded :=
  if value ≤ 0x7F then pbWrite [value.toUInt8] stream
  else pbEncodeVarint32 value.toUInt32 (value >>> 32).toUInt32 stream

def littleEndianBytes : Nat → Nat → List UInt8
  | 0, _ => []
  | n + 1, value => UInt8.ofNat value :: littleEndianBytes n (value / 256)

def pbEncodeFixed32 (value : UInt32) (stream : OStream) : Encoded :=
  pbWrite (littleEndianBytes 4 value.toNat) stream

def pbEncodeFixed64 (value : UInt64) (stream : OStream) : Encoded :=
  pbWrite (littleEndianBytes 8 value.toNat) stream

def pbEncodeTag (wireType fieldNumber : UInt32) (stream : OStream) : Encoded :=
  pbEncodeVarint (fieldNumber.toUInt64 <<< 3 ||| wireType.toUInt64) stream

-- The second pass over a message, into a window of the size the first pass counted.
def encodeWindow (encode : OStream → Encoded) (size : Nat) (stream : OStream) : Encoded :=
  if stream.sizing then .ok { stream with bytesWritten := stream.bytesWritten + size }
  else if stream.bytesWritten + size > stream.maxSize then ⟨some .streamFull, stream⟩
  else
    let sub := encode ⟨false, size, 0, stream.buf⟩
    let stream := { stream with
      bytesWritten := stream.bytesWritten + sub.stream.bytesWritten
      buf := sub.stream.buf }
    if sub.stream.bytesWritten ≠ size then ⟨some (sub.error.getD .submsgSizeChanged), stream⟩
    else ⟨sub.error, stream⟩

def pbEncodeSubmessage (encode : OStream → Encoded) (stream : OStream) : Encoded :=
  let sized := encode pbOStreamSizing
  match sized.error with
  | some e => ⟨some e, stream⟩
  | none =>
      (pbEncodeVarint (UInt64.ofNat sized.stream.bytesWritten) stream).andThen
        (encodeWindow encode sized.stream.bytesWritten)

/-- The bytes counted are the bytes stored, and they fit the stream. -/
structure OStream.Stored (stream : OStream) (before : List UInt8) : Prop where
  buffered : stream.sizing = false
  counted : ∃ bytes, stream.buf = before ++ bytes ∧ bytes.length = stream.bytesWritten
  fits : stream.bytesWritten ≤ stream.maxSize

def Stores (encode : OStream → Encoded) : Prop :=
  ∀ stream before, stream.Stored before →
    (encode stream).stream.Stored before ∧ (encode stream).stream.maxSize = stream.maxSize

theorem stored_fresh (bufsize : Nat) : (pbOStreamFromBuffer bufsize).Stored [] :=
  ⟨rfl, ⟨[], rfl, rfl⟩, Nat.zero_le _⟩

theorem stores_ok : Stores Encoded.ok := fun _ _ h => ⟨h, rfl⟩

theorem Stores.andThen {encode next : OStream → Encoded} (h : Stores encode) (hn : Stores next) :
    Stores (fun stream => (encode stream).andThen next) := by
  intro stream before hs
  obtain ⟨he, hm⟩ := h stream before hs
  cases hr : (encode stream).error with
  | none =>
      obtain ⟨hx, hx'⟩ := hn _ before he
      simp only [Encoded.andThen, hr]
      exact ⟨hx, hx'.trans hm⟩
  | some e =>
      simp only [Encoded.andThen, hr]
      exact ⟨he, hm⟩

theorem pbWrite_stores (bytes : List UInt8) : Stores (pbWrite bytes) := by
  rintro stream before ⟨hb, ⟨stored, hs, hl⟩, hf⟩
  rw [pbWrite]
  split
  · split
    · exact ⟨⟨hb, ⟨stored, hs, hl⟩, hf⟩, rfl⟩
    · rename_i hroom
      refine ⟨⟨hb, ⟨stored ++ bytes, ?_, ?_⟩, ?_⟩, rfl⟩
      · simp [Encoded.ok, hs]
      · simp [Encoded.ok, hl]
      · simp only [Encoded.ok]
        omega
  · rename_i hempty
    have hnil : bytes = [] := by
      by_contra hne
      exact hempty ⟨hne, hb⟩
    subst hnil
    exact ⟨⟨hb, ⟨stored, hs, by simp [Encoded.ok, hl]⟩, by simpa [Encoded.ok] using hf⟩, rfl⟩

theorem pbEncodeVarint_stores (value : UInt64) : Stores (pbEncodeVarint value) := by
  intro stream before h
  rw [pbEncodeVarint]
  split
  · exact pbWrite_stores _ stream before h
  · exact pbWrite_stores _ stream before h

theorem encodeWindow_stores {encode : OStream → Encoded} (h : Stores encode) (size : Nat) :
    Stores (encodeWindow encode size) := by
  rintro stream before ⟨hb, ⟨stored, hbuf, hl⟩, hf⟩
  rw [encodeWindow, if_neg (by simp [hb])]
  split
  · exact ⟨⟨hb, ⟨stored, hbuf, hl⟩, hf⟩, rfl⟩
  · obtain ⟨⟨_, ⟨bytes, hw, hc⟩, hmax⟩, hkeep⟩ :=
      h ⟨false, size, 0, stream.buf⟩ stream.buf ⟨rfl, ⟨[], by simp, rfl⟩, Nat.zero_le _⟩
    generalize encode ⟨false, size, 0, stream.buf⟩ = sub at hw hc hmax hkeep
    have hstored : OStream.Stored { stream with
        bytesWritten := stream.bytesWritten + sub.stream.bytesWritten
        buf := sub.stream.buf } before := by
      refine ⟨hb, ⟨stored ++ bytes, ?_, ?_⟩, ?_⟩
      · simp only [hw, hbuf, List.append_assoc]
      · simp only [List.length_append, hl, hc]
      · dsimp only at hkeep ⊢
        omega
    dsimp only
    split <;> exact ⟨hstored, rfl⟩

theorem pbEncodeSubmessage_stores {encode : OStream → Encoded} (h : Stores encode) :
    Stores (pbEncodeSubmessage encode) := by
  intro stream before hs
  rw [pbEncodeSubmessage]
  split
  · exact ⟨hs, rfl⟩
  · exact (pbEncodeVarint_stores _).andThen (encodeWindow_stores h _) stream before hs

end RaceControl.Nanopb
