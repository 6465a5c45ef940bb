import Mathlib.Order.Bounds.Basic
import RaceControl.Messages
import RaceControl.Nanopb.Framing

namespace RaceControl.RoundTrip

open Nanopb Messages

section MergeFrom

def latLngMergeFrom (dest src : LatLng) : LatLng where
  latitude := pick 0 dest.latitude src.latitude
  longitude := pick 0 dest.longitude src.longitude

def kartMergeFrom (dest src : Kart) : Kart where
  isKartConnected := pick false dest.isKartConnected src.isKartConnected
  kartId := pick 0 dest.kartId src.kartId
  control := pick 0 dest.control src.control
  speed := pick 0 dest.speed src.speed
  steeringAngle := pick 0 dest.steeringAngle src.steeringAngle
  hasPosition := dest.hasPosition || src.hasPosition
  position := if src.hasPosition then latLngMergeFrom dest.position src.position else dest.position

def trackMergeFrom (dest src : Track) : Track where
  allowedControl := pick 0 dest.allowedControl src.allowedControl
  flagState := pick 0 dest.flagState src.flagState

def timestampMergeFrom (dest src : Timestamp) : Timestamp where
  seconds := pick 0 dest.seconds src.seconds
  nanos := pick 0 dest.nanos src.nanos

/-- A member of the union is merged into the same member and replaces the other. -/
def payloadMergeFrom (dest : Payload) : Payload → Payload
  | .none => dest
  | .kartStatus kart => .kartStatus (kartMergeFrom (dest.kart?.getD Kart.initZero) kart)
  | .trackStatus track => .trackStatus (trackMergeFrom (dest.track?.getD Track.initZero) track)

/-- What the schema says about messages that arrive in pieces: the later piece is
merged into the earlier one. -/
def mergeFrom (dest src : MQTTMessage) : MQTTMessage where
  topic := pick 0 dest.topic src.topic
  hasTimestamp := dest.hasTimestamp || src.hasTimestamp
  timestamp := if src.hasTimestamp then timestampMergeFrom dest.timestamp src.timestamp else dest.timestamp
  payload := payloadMergeFrom dest.payload src.payload

end MergeFrom

section Codecs

theorem latLngMsg_tagged : WellTagged latLngMsg :=
  ⟨by decide, by simp [latLngMsg, singular], by simp [latLngMsg, singular]⟩

theorem kartMsg_tagged : WellTagged kartMsg :=
  ⟨by decide, by simp [kartMsg, singular, Nanopb.optional], by simp [kartMsg, singular, Nanopb.optional]⟩

theorem trackMsg_tagged : WellTagged trackMsg :=
  ⟨by decide, by simp [trackMsg, singular], by simp [trackMsg, singular]⟩

theorem timestampMsg_tagged : WellTagged timestampMsg :=
  ⟨by decide, by simp [timestampMsg, singular], by simp [timestampMsg, singular]⟩

theorem mqttMessageMsg_tagged : WellTagged mqttMessageMsg :=
  ⟨by decide, by simp [mqttMessageMsg, singular, Nanopb.optional, oneof],
    by simp [mqttMessageMsg, singular, Nanopb.optional, oneof]⟩

def latLngCodec : MessageCodec latLngMsg where
  codecs := .cons (singularCodec 1 .double _ _) <| .cons (singularCodec 2 .double _ _) .nil
  tagged := latLngMsg_tagged
  short src := Nat.lt_of_le_of_lt ((Codecs.appends _ src).length_le (latLngMsg_bounded src)) (by decide)

def kartCodec : MessageCodec kartMsg where
  codecs :=
    .cons (singularCodec 1 .bool _ _) <| .cons (singularCodec 2 .int32 _ _) <|
    .cons (singularCodec 3 .uenum _ _) <| .cons (singularCodec 4 .float _ _) <|
    .cons (singularCodec 5 .float _ _) <| .cons (optionalCodec latLngCodec 6 _ _ _ _) .nil
  tagged := kartMsg_tagged
  short src := Nat.lt_of_le_of_lt ((Codecs.appends _ src).length_le (kartMsg_bounded src)) (by decide)

def trackCodec : MessageCodec trackMsg where
  codecs := .cons (singularCodec 1 .uenum _ _) <| .cons (singularCodec 2 .uenum _ _) .nil
  tagged := trackMsg_tagged
  short src := Nat.lt_of_le_of_lt ((Codecs.appends _ src).length_le (trackMsg_bounded src)) (by decide)

def timestampCodec : MessageCodec timestampMsg where
  codecs := .cons (singularCodec 1 .int64 _ _) <| .cons (singularCodec 2 .int32 _ _) .nil
  tagged := timestampMsg_tagged
  short src := Nat.lt_of_le_of_lt ((Codecs.appends _ src).length_le (timestampMsg_bounded src)) (by decide)

def mqttMessageCodec : MessageCodec mqttMessageMsg where
  codecs :=
    .cons (singularCodec 1 .uenum _ _) <| .cons (optionalCodec timestampCodec 2 _ _ _ _) <|
    .cons (oneofCodec kartCodec 3 _ _ _ _) <| .cons (oneofCodec trackCodec 4 _ _ _ _) .nil
  tagged := mqttMessageMsg_tagged
  short src := Nat.lt_of_le_of_lt ((Codecs.appends _ src).length_le (mqttMessageMsg_bounded src)) (by decide)

theorem latLngCodec_merge (dest src : LatLng) : latLngCodec.codecs.merge dest src = latLngMergeFrom dest src :=
  Codecs.merge_cons (singularCodec_merge 1 (fun _ => rfl) dest src) <|
  Codecs.merge_cons (singularCodec_merge 2 (fun _ => rfl) _ src) rfl

theorem trackCodec_merge (dest src : Track) : trackCodec.codecs.merge dest src = trackMergeFrom dest src :=
  Codecs.merge_cons (singularCodec_merge 1 (fun _ => rfl) dest src) <|
  Codecs.merge_cons (singularCodec_merge 2 (fun _ => rfl) _ src) rfl

theorem timestampCodec_merge (dest src : Timestamp) :
    timestampCodec.codecs.merge dest src = timestampMergeFrom dest src :=
  Codecs.merge_cons (singularCodec_merge 1 (fun _ => rfl) dest src) <|
  Codecs.merge_cons (singularCodec_merge 2 (fun _ => rfl) _ src) rfl

theorem kartCodec_merge (dest src : Kart) : kartCodec.codecs.merge dest src = kartMergeFrom dest src := by
  rw [kartMergeFrom, ← latLngCodec_merge]
  exact Codecs.merge_cons (singularCodec_merge 1 (fun _ => rfl) dest src) <|
    Codecs.merge_cons (singularCodec_merge 2 (fun _ => rfl) _ src) <|
    Codecs.merge_cons (singularCodec_merge 3 (fun _ => rfl) _ src) <|
    Codecs.merge_cons (singularCodec_merge 4 (fun _ => rfl) _ src) <|
    Codecs.merge_cons (singularCodec_merge 5 (fun _ => rfl) _ src) <|
    Codecs.merge_cons (optionalCodec_merge latLngCodec 6 (fun _ => rfl) _ src) rfl

theorem mqttMessageCodec_merge (dest src : MQTTMessage) :
    mqttMessageCodec.codecs.merge dest src = mergeFrom dest src := by
  rw [mergeFrom, ← timestampCodec_merge]
  refine Codecs.merge_cons (singularCodec_merge 1 (fun _ => rfl) dest src) <|
    Codecs.merge_cons (optionalCodec_merge timestampCodec 2 (fun _ => rfl) _ src) <|
    Codecs.merge_cons rfl <| Codecs.merge_cons rfl ?_
  obtain ⟨topic, hasTimestamp, timestamp, payload⟩ := src
  cases payload with
  | none => rfl
  | kartStatus kart => simp only [payloadMergeFrom, ← kartCodec_merge]; rfl
  | trackStatus track => simp only [payloadMergeFrom, ← trackCodec_merge]; rfl

end Codecs

section Encoded

def encodedSize (msg : MQTTMessage) : Nat := (pbGetEncodedSize mqttMessageMsg msg).getD 0

/-- The message in a buffer of exactly its size. -/
def encoded (msg : MQTTMessage) : List UInt8 := (encodeMessage (encodedSize msg) msg).stream.buf

theorem encodedSize_eq (msg : MQTTMessage) : encodedSize msg = (mqttMessageCodec.codecs.bytes msg).length := by
  rw [encodedSize, mqttMessageCodec.size]
  rfl

theorem encoded_eq (msg : MQTTMessage) : encoded msg = mqttMessageCodec.codecs.bytes msg := by
  have hroom := (mqttMessageCodec.codecs.appends msg).buffer_room (Nat.le_of_eq (encodedSize_eq msg).symm)
  rw [encoded, encodeMessage, hroom]

/-- The size computed in advance is exact. A buffer that has it gets the message,
a smaller one an error and no more than the beginning of the message. -/
theorem encodeMessage_buffer (bufsize : Nat) (msg : MQTTMessage) :
    pbGetEncodedSize mqttMessageMsg msg = some (encoded msg).length ∧
      ((encoded msg).length ≤ bufsize →
        encodeMessage bufsize msg = ⟨none, false, bufsize, (encoded msg).length, encoded msg⟩) ∧
      (bufsize < (encoded msg).length → ∃ k ≤ bufsize,
        encodeMessage bufsize msg = ⟨some .streamFull, false, bufsize, k, (encoded msg).take k⟩) := by
  have happends := mqttMessageCodec.codecs.appends msg
  rw [encoded_eq]
  exact ⟨mqttMessageCodec.size msg, happends.buffer_room, happends.buffer_full⟩

theorem decodeInner_encoded (dest msg : MQTTMessage) (more : IStream) :
    pbDecodeInner mqttMessageMsg dest (encoded msg ++ more) =
      pbDecodeInner mqttMessageMsg (mergeFrom dest msg) more := by
  rw [encoded_eq, mqttMessageCodec.decodes, mqttMessageCodec_merge]

theorem decodeInner_encodings (start : MQTTMessage) (msgs : List MQTTMessage) :
    pbDecodeInner mqttMessageMsg start (msgs.flatMap encoded) = .ok (msgs.foldl mergeFrom start) [] := by
  induction msgs generalizing start with
  | nil => rfl
  | cons msg msgs ih => rw [List.flatMap_cons, decodeInner_encoded, List.foldl_cons, ih]

/-- Messages written one after the other are read as one, each merged into what
the earlier ones left. -/
theorem decodeMessage_encoded (dest : MQTTMessage) (msgs : List MQTTMessage) :
    decodeMessage dest (msgs.flatMap encoded) = .ok (msgs.foldl mergeFrom MQTTMessage.initDefault) [] := by
  rw [decodeMessage, pbDecode, defaults_mqttMessage, decodeInner_encodings]

theorem readMessage_encoded (msg : MQTTMessage) :
    readMessage (encoded msg) = some (mergeFrom MQTTMessage.initDefault msg) := by
  have h := decodeInner_encodings MQTTMessage.initDefault [msg]
  rw [List.flatMap_singleton] at h
  rw [readMessage, decodeMessage, pbDecode, defaults_mqttMessage, h]
  rfl

end Encoded

section Canonical

/-- A submessage that is not there holds zeros. -/
def CanonicalKart (kart : Kart) : Prop := kart.hasPosition = false → kart.position = LatLng.initZero

def Canonical (msg : MQTTMessage) : Prop :=
  (msg.hasTimestamp = false → msg.timestamp = Timestamp.initZero) ∧
    ∀ kart, msg.payload = .kartStatus kart → CanonicalKart kart

theorem pick_zero {α : Type} [DecidableEq α] (zero src : α) : pick zero zero src = src := by
  rw [pick]
  split
  · rename_i h
    exact h.symm
  · rfl

theorem latLngMergeFrom_zero (src : LatLng) : latLngMergeFrom LatLng.initZero src = src := by
  simp only [latLngMergeFrom, LatLng.initZero, pick_zero]

theorem trackMergeFrom_zero (src : Track) : trackMergeFrom Track.initZero src = src := by
  simp only [trackMergeFrom, Track.initZero, pick_zero]

theorem timestampMergeFrom_zero (src : Timestamp) : timestampMergeFrom Timestamp.initZero src = src := by
  simp only [timestampMergeFrom, Timestamp.initZero, pick_zero]

theorem kartMergeFrom_zero (src : Kart) : kartMergeFrom Kart.initZero src = src ↔ CanonicalKart src := by
  obtain ⟨connected, id, control, speed, steering, hasPosition, position⟩ := src
  cases hasPosition with
  | true => simp [kartMergeFrom, Kart.initZero, pick_zero, CanonicalKart, latLngMergeFrom_zero]
  | false => simp [kartMergeFrom, Kart.initZero, pick_zero, CanonicalKart, eq_comm]

theorem payloadMergeFrom_none (payload : Payload) :
    payloadMergeFrom .none payload = payload ↔ ∀ kart, payload = .kartStatus kart → CanonicalKart kart := by
  cases payload with
  | none => simp [payloadMergeFrom]
  | kartStatus kart => simp [payloadMergeFrom, Payload.kart?, kartMergeFrom_zero]
  | trackStatus track => simp [payloadMergeFrom, Payload.track?, trackMergeFrom_zero]

theorem mergeFrom_default (msg : MQTTMessage) : mergeFrom MQTTMessage.initDefault msg = msg ↔ Canonical msg := by
  obtain ⟨topic, hasTimestamp, timestamp, payload⟩ := msg
  rw [Canonical, ← payloadMergeFrom_none]
  cases hasTimestamp with
  | true => simp [mergeFrom, MQTTMessage.initDefault, topicUndefined, pick_zero, timestampMergeFrom_zero]
  | false => simp [mergeFrom, MQTTMessage.initDefault, topicUndefined, pick_zero, eq_comm]

theorem kartMsg_keeps : ∀ field ∈ kartMsg, Keeps CanonicalKart field := by
  simp only [kartMsg, List.forall_mem_cons, List.not_mem_nil, false_imp_iff, implies_true, and_true]
  refine ⟨singular_keeps _ _ ?_, singular_keeps _ _ ?_, singular_keeps _ _ ?_, singular_keeps _ _ ?_,
    singular_keeps _ _ ?_, optional_keeps _ _ _ _ ?_⟩
  · exact fun _ _ h => h
  · exact fun _ _ h => h
  · exact fun _ _ h => h
  · exact fun _ _ h => h
  · exact fun _ _ h => h
  · intro sub dest _ hhas
    cases hhas

theorem canonicalKart_zero : CanonicalKart Kart.initZero := fun _ => rfl

theorem kart?_some {payload : Payload} {kart : Kart} (h : payload.kart? = some kart) : payload = .kartStatus kart := by
  cases payload with
  | kartStatus kart' =>
      cases h
      rfl
  | none | trackStatus => cases h

theorem mqttMessageMsg_keeps : ∀ field ∈ mqttMessageMsg, Keeps Canonical field := by
  simp only [mqttMessageMsg, List.forall_mem_cons, List.not_mem_nil, false_imp_iff, implies_true, and_true]
  refine ⟨singular_keeps _ _ ?_, optional_keeps _ _ _ _ ?_, oneof_keeps _ kartMsg_keeps canonicalKart_zero _ ?_ ?_,
    oneof_keeps (Q := fun _ => True) _ (fun _ _ _ _ _ _ _ _ _ => trivial) trivial _ (fun _ _ _ _ => trivial) ?_⟩
  · exact fun _ _ h => h
  · rintro sub dest ⟨-, hkart⟩
    exact ⟨fun hhas => absurd hhas (by simp), hkart⟩
  · rintro dest sub ⟨-, hkart⟩ hsub
    exact hkart sub (kart?_some hsub)
  · rintro sub dest ⟨htime, -⟩ hsub
    refine ⟨htime, fun kart hkart => ?_⟩
    cases hkart
    exact hsub
  · rintro sub dest ⟨htime, -⟩ -
    refine ⟨htime, fun kart hkart => ?_⟩
    cases hkart

theorem readMessage_some {frame : List UInt8} {msg : MQTTMessage} (h : readMessage frame = some msg) :
    Parses mqttMessageMsg MQTTMessage.initDefault frame msg := by
  rw [readMessage] at h
  cases hd : decodeMessage MQTTMessage.initDefault frame with
  | fail e dest =>
      rw [hd] at h
      cases h
  | ok msg' rest =>
      rw [hd] at h
      cases h
      exact (pbDecodeInner_parses hd).2

theorem readMessage_canonical {frame : List UInt8} {msg : MQTTMessage} (h : readMessage frame = some msg) :
    Canonical msg :=
  (readMessage_some h).preserves mqttMessageMsg_keeps ⟨fun _ => rfl, fun _ hkart => by cases hkart⟩

theorem readMessage_encoded_iff (msg : MQTTMessage) : readMessage (encoded msg) = some msg ↔ Canonical msg := by
  rw [readMessage_encoded, Option.some_inj, mergeFrom_default]

/-- Exactly the canonical messages come back as they were sent, and every message
that is read from the wire is one of them. -/
theorem reencoded_reads_back :
    (∀ msg, readMessage (encoded msg) = some msg ↔ Canonical msg) ∧
      ∀ frame msg, readMessage frame = some msg → readMessage (encoded msg) = some msg :=
  ⟨readMessage_encoded_iff, fun _ _ h => (readMessage_encoded_iff _).mpr (readMessage_canonical h)⟩

end Canonical

section Pieces

theorem mqttMessageMsg_stable : FieldsStable mqttMessageMsg := by
  simp only [FieldsStable, mqttMessageMsg, List.forall_mem_cons, List.not_mem_nil, false_imp_iff, implies_true,
    and_true]
  exact ⟨singular_stable _ _ _ _, optional_stable _ _ _ _ _ _, oneof_stable _ _ _ _ _ _, oneof_stable _ _ _ _ _ _⟩

/-- A field that a newer schema may have: its tag names no field, its value can be skipped. -/
structure UnknownField (bytes : List UInt8) : Prop where
  tagged : ∃ wireType tag body, pbDecodeTag bytes = .ok (⟨wireType, tag⟩, body) ∧ tag ≠ 0 ∧
    (∀ field ∈ mqttMessageMsg, field.tag ≠ tag) ∧ pbSkipField wireType body = .ok ((), [])

theorem UnknownField.parses {bytes : List UInt8} (h : UnknownField bytes) (dest : MQTTMessage) :
    Parses mqttMessageMsg dest bytes dest := by
  obtain ⟨wireType, tag, body, htag, hzero, hunknown, hskip⟩ := h.tagged
  have hfind : mqttMessageMsg.find? (fun field => field.tag == tag) = none := by
    rw [List.find?_eq_none]
    intro field hmem
    simpa using hunknown field hmem
  exact .skip htag hzero hfind hskip (.done dest)

/-- A frame in front of another is read into it, and unknown fields between them
change nothing. -/
theorem decodeMessage_pieces {first : List UInt8} {msg : MQTTMessage} (h : readMessage first = some msg)
    (dest : MQTTMessage) (unknown : List (List UInt8)) (hunknown : ∀ bytes ∈ unknown, UnknownField bytes)
    (more : List UInt8) :
    decodeMessage dest (first ++ unknown.flatten ++ more) = pbDecodeInner mqttMessageMsg msg more := by
  rw [decodeMessage, pbDecode, defaults_mqttMessage, List.append_assoc,
    (readMessage_some h).append mqttMessageMsg_stable]
  induction unknown with
  | nil => rfl
  | cons bytes unknown ih =>
      rw [List.forall_mem_cons] at hunknown
      rw [List.flatten_cons, List.append_assoc, (hunknown.1.parses msg).append mqttMessageMsg_stable]
      exact ih hunknown.2

def trackFrame : List UInt8 := [0x08, 0x01, 0x22, 0x04, 0x08, 0x02, 0x10, 0x03]

/-- Between two frames stand field 5 with a varint and field 6 with three bytes. -/
theorem decodeMessage_pieces_example :
    readMessage trackFrame = some ⟨topicTrack, false, Timestamp.initZero, .trackStatus ⟨2, 3⟩⟩ ∧
      decodeMessage MQTTMessage.initZero
          (trackFrame ++ [[0x28, 0x96, 0x01], [0x32, 0x03, 0x01, 0x02, 0x03]].flatten ++ [0x08, 0x02]) =
        pbDecodeInner mqttMessageMsg ⟨topicTrack, false, Timestamp.initZero, .trackStatus ⟨2, 3⟩⟩ [0x08, 0x02] := by
  have hread : readMessage trackFrame = some ⟨topicTrack, false, Timestamp.initZero, .trackStatus ⟨2, 3⟩⟩ := by
    decide +kernel
  have hunknown : ∀ bytes ∈ ([[0x28, 0x96, 0x01], [0x32, 0x03, 0x01, 0x02, 0x03]] : List (List UInt8)),
      UnknownField bytes := by
    simp only [List.forall_mem_cons, List.not_mem_nil, false_imp_iff, implies_true, and_true]
    exact ⟨⟨0, 5, [0x96, 0x01], rfl, by decide, by simp [mqttMessageMsg, singular, Nanopb.optional, oneof], rfl⟩,
      ⟨2, 6, [0x03, 0x01, 0x02, 0x03], rfl, by decide, by simp [mqttMessageMsg, singular, Nanopb.optional, oneof], rfl⟩⟩
  exact ⟨hread, decodeMessage_pieces hread MQTTMessage.initZero _ hunknown [0x08, 0x02]⟩

end Pieces

section Framed

def writeMessageEx (flags : UInt32) (bufsize : Nat) (src : MQTTMessage) : Option (List UInt8) :=
  let r := pbEncodeEx mqttMessageMsg flags src (pbOStreamFromBuffer bufsize)
  match r.error with
  | none => some r.stream.buf
  | some _ => none

theorem writeMessageEx_some {flags : UInt32} {bufsize : Nat} {src : MQTTMessage} {frame : List UInt8}
    (h : writeMessageEx flags bufsize src = some frame) :
    (pbEncodeEx mqttMessageMsg flags src (pbOStreamFromBuffer bufsize)).error = none ∧
      (pbEncodeEx mqttMessageMsg flags src (pbOStreamFromBuffer bufsize)).stream.buf = frame := by
  rw [writeMessageEx] at h
  cases herr : (pbEncodeEx mqttMessageMsg flags src (pbOStreamFromBuffer bufsize)).error with
  | none =>
      rw [herr] at h
      exact ⟨rfl, Option.some.inj h⟩
  | some e =>
      rw [herr] at h
      cases h

/-- A stream of messages can be read back one message at a time, with either
framing, into a fresh struct or on top of what the struct holds. -/
theorem framed_round_trip (bufsize : Nat) (dest msg : MQTTMessage) (rest : IStream) :
    (∀ frame, writeMessageEx pbEncodeDelimited bufsize msg = some frame →
      pbDecodeEx mqttMessageMsg pbDecodeDelimited dest (frame ++ rest) =
          .ok (mergeFrom MQTTMessage.initDefault msg) rest ∧
        pbDecodeEx mqttMessageMsg (pbDecodeDelimited ||| pbDecodeNoinit) dest (frame ++ rest) =
          .ok (mergeFrom dest msg) rest) ∧
    (∀ frame, writeMessageEx pbEncodeNullterminated bufsize msg = some frame →
      pbDecodeEx mqttMessageMsg pbDecodeNullterminated dest (frame ++ rest) =
          .ok (mergeFrom MQTTMessage.initDefault msg) rest ∧
        pbDecodeEx mqttMessageMsg (pbDecodeNullterminated ||| pbDecodeNoinit) dest (frame ++ rest) =
          .ok (mergeFrom dest msg) rest) := by
  constructor
  · intro frame hframe
    obtain ⟨hok, rfl⟩ := writeMessageEx_some hframe
    rw [mqttMessageCodec.delimited_round_trip (by decide) (by decide) hok,
      mqttMessageCodec.delimited_round_trip (by decide) (by decide) hok, mqttMessageCodec_merge,
      mqttMessageCodec_merge]
    exact ⟨rfl, rfl⟩
  · intro frame hframe
    obtain ⟨hok, rfl⟩ := writeMessageEx_some hframe
    rw [mqttMessageCodec.terminated_round_trip mqttMessageMsg_stable (by decide) (by decide) hok,
      mqttMessageCodec.terminated_round_trip mqttMessageMsg_stable (by decide) (by decide) hok, mqttMessageCodec_merge,
      mqttMessageCodec_merge]
    exact ⟨rfl, rfl⟩

end Framed

section Truncated

theorem mergeFirst_topic (msg : MQTTMessage) :
    mqttMessageCodec.codecs.mergeFirst 1 MQTTMessage.initDefault msg =
      ⟨msg.topic, false, Timestamp.initZero, .none⟩ := by
  have h : mqttMessageCodec.codecs.mergeFirst 1 MQTTMessage.initDefault msg =
      ⟨pick 0 0 msg.topic, false, Timestamp.initZero, .none⟩ := singularCodec_merge 1 (fun _ => rfl) _ msg
  rw [h, pick_zero]

theorem mergeFirst_timestamp {msg : MQTTMessage} (h : Canonical msg) :
    mqttMessageCodec.codecs.mergeFirst 2 MQTTMessage.initDefault msg =
      ⟨msg.topic, msg.hasTimestamp, msg.timestamp, .none⟩ := by
  have hmerge : mqttMessageCodec.codecs.mergeFirst 2 MQTTMessage.initDefault msg = _ :=
    optionalCodec_merge timestampCodec 2 (fun _ => rfl)
      (mqttMessageCodec.codecs.mergeFirst 1 MQTTMessage.initDefault msg) msg
  rw [hmerge, mergeFirst_topic]
  dsimp only
  cases htime : msg.hasTimestamp with
  | true => rw [if_pos rfl, timestampCodec_merge, timestampMergeFrom_zero, Bool.false_or]
  | false => rw [if_neg (by decide), h.1 htime, Bool.false_or]

theorem mergeFirst_kart {msg : MQTTMessage} (h : Canonical msg) :
    mqttMessageCodec.codecs.mergeFirst 3 MQTTMessage.initDefault msg =
      ⟨msg.topic, msg.hasTimestamp, msg.timestamp,
        match msg.payload with
        | .kartStatus kart => .kartStatus kart
        | _ => .none⟩ := by
  obtain ⟨topic, hasTimestamp, timestamp, payload⟩ := msg
  have htwo := mergeFirst_timestamp h
  cases payload with
  | none | trackStatus track => exact htwo
  | kartStatus kart =>
      have hmerge (dest : MQTTMessage) :
          (oneofCodec kartCodec 3 Kart.initZero (fun m => { m with payload := .none }) (fun m => m.payload.kart?)
            (fun v m => { m with payload := .kartStatus v })).merge dest
              ⟨topic, hasTimestamp, timestamp, .kartStatus kart⟩ =
          { dest with payload := payloadMergeFrom dest.payload (.kartStatus kart) } := by
        rw [payloadMergeFrom, ← kartCodec_merge]
        rfl
      refine (hmerge (mqttMessageCodec.codecs.mergeFirst 2 MQTTMessage.initDefault
        ⟨topic, hasTimestamp, timestamp, .kartStatus kart⟩)).trans ?_
      rw [htwo]
      dsimp only
      rw [(payloadMergeFrom_none _).mpr h.2]

theorem mergeFirst_all {msg : MQTTMessage} (h : Canonical msg) (n : Nat) :
    mqttMessageCodec.codecs.mergeFirst (n + 4) MQTTMessage.initDefault msg = msg := by
  have hall : mqttMessageCodec.codecs.mergeFirst (n + 4) MQTTMessage.initDefault msg =
      mqttMessageCodec.codecs.merge MQTTMessage.initDefault msg := rfl
  rw [hall, mqttMessageCodec_merge, (mergeFrom_default msg).mpr h]

/-- A kart status is the end of its message. -/
theorem bytesFirst_kart {msg : MQTTMessage} {kart : Kart} (h : msg.payload = .kartStatus kart) :
    mqttMessageCodec.codecs.bytesFirst 3 msg = mqttMessageCodec.codecs.bytes msg := by
  obtain ⟨topic, hasTimestamp, timestamp, payload⟩ := msg
  obtain rfl : payload = .kartStatus kart := h
  rfl

/-- A message that lost its end is rejected, or read without what was lost. No
field takes another value, and the payload is there only when nothing is missing. -/
theorem truncated_never_misread (msg : MQTTMessage) (h : Canonical msg) (k : Nat) (got : MQTTMessage)
    (hread : readMessage ((encoded msg).take k) = some got) :
    (got.topic = topicUndefined ∨ got.topic = msg.topic) ∧
      (got.hasTimestamp = false ∧ got.timestamp = Timestamp.initZero ∨
        got.hasTimestamp = msg.hasTimestamp ∧ got.timestamp = msg.timestamp) ∧
      (got.payload = .none ∨ got.payload = msg.payload ∧ (encoded msg).length ≤ k) := by
  have hcut := mqttMessageCodec.codecs.truncated mqttMessageMsg_tagged mqttMessageMsg_stable (fun _ hmem => hmem)
    MQTTMessage.initDefault msg k
  rw [encoded_eq] at hread ⊢
  have hparsed := (readMessage_some hread).decodes
  rcases hcut with ⟨e, dest', hfail⟩ | ⟨n, hbytes, hok⟩
  · rw [hparsed] at hfail
    cases hfail
  · rw [hparsed] at hok
    have hgot := (Decoded.ok.inj hok).1
    subst hgot
    have hwhole : mqttMessageCodec.codecs.bytesFirst n msg = mqttMessageCodec.codecs.bytes msg →
        (mqttMessageCodec.codecs.bytes msg).length ≤ k := by
      intro hall
      have hlen := congrArg List.length (hbytes.trans hall)
      rw [List.length_take] at hlen
      omega
    match n with
    | 0 => exact ⟨.inl rfl, .inl ⟨rfl, rfl⟩, .inl rfl⟩
    | 1 =>
        rw [mergeFirst_topic]
        exact ⟨.inr rfl, .inl ⟨rfl, rfl⟩, .inl rfl⟩
    | 2 =>
        rw [mergeFirst_timestamp h]
        exact ⟨.inr rfl, .inr ⟨rfl, rfl⟩, .inl rfl⟩
    | 3 =>
        rw [mergeFirst_kart h]
        refine ⟨.inr rfl, .inr ⟨rfl, rfl⟩, ?_⟩
        cases hpayload : msg.payload with
        | none | trackStatus track => exact .inl rfl
        | kartStatus kart => exact .inr ⟨rfl, hwhole (bytesFirst_kart hpayload)⟩
    | n + 4 =>
        rw [mergeFirst_all h]
        exact ⟨.inr rfl, .inr ⟨rfl, rfl⟩, .inr ⟨rfl, hwhole rfl⟩⟩

def statusExample : MQTTMessage :=
  ⟨topicKart, true, ⟨5, 0⟩, .kartStatus ⟨true, 7, controlAuto, 0, 0, false, LatLng.initZero⟩⟩

theorem truncated_never_misread_example :
    readMessage ((encoded statusExample).take 6) = some ⟨topicKart, true, ⟨5, 0⟩, .none⟩ ∧
      ((topicKart = topicUndefined ∨ topicKart = statusExample.topic) ∧
        (true = false ∧ (⟨5, 0⟩ : Timestamp) = Timestamp.initZero ∨
          true = statusExample.hasTimestamp ∧ ⟨5, 0⟩ = statusExample.timestamp) ∧
        (Payload.none = .none ∨ Payload.none = statusExample.payload ∧ (encoded statusExample).length ≤ 6)) := by
  have hread : readMessage ((encoded statusExample).take 6) = some ⟨topicKart, true, ⟨5, 0⟩, .none⟩ := by
    decide +kernel
  have hcanonical : Canonical statusExample :=
    ⟨fun h => absurd h (by decide), fun kart hkart => by cases hkart; exact fun _ => rfl⟩
  exact ⟨hread, truncated_never_misread statusExample hcanonical 6 _ hread⟩

end Truncated

section Sizes

def latLngSize : Nat := 18
def kartSize : Nat := 45
def trackSize : Nat := 4
def timestampSize : Nat := 22
def mqttMessageSize : Nat := 73

/-- Enumerations hold values that the schema declares. -/
def KartDeclared (kart : Kart) : Prop := kart.control ≤ 2

def TrackDeclared (track : Track) : Prop := track.allowedControl ≤ 3 ∧ track.flagState ≤ 6

def Declared (msg : MQTTMessage) : Prop :=
  msg.topic ≤ 2 ∧ (∀ kart, msg.payload = .kartStatus kart → KartDeclared kart) ∧
    ∀ track, msg.payload = .trackStatus track → TrackDeclared track

instance (kart : Kart) : Decidable (KartDeclared kart) := inferInstanceAs (Decidable (_ ≤ _))

instance (track : Track) : Decidable (TrackDeclared track) := inferInstanceAs (Decidable (_ ∧ _))

theorem enumBytes_length {value bound : UInt32} (h : value ≤ bound) (hbound : bound.toNat < 128) :
    (scalarBytes .uenum value).length ≤ 1 := by
  have hle := UInt32.le_iff_toNat_le.mp h
  exact Nat.le_of_eq (tag_length (by omega))

theorem doubleBytes_length (value : UInt64) : (scalarBytes .double value).length ≤ 8 :=
  Nat.le_of_eq (littleEndianBytes_length 8 _)

theorem floatBytes_length (value : UInt32) : (scalarBytes .float value).length ≤ 4 :=
  Nat.le_of_eq (littleEndianBytes_length 4 _)

theorem boolBytes_length (value : Bool) : (scalarBytes .bool value).length ≤ 1 := by
  cases value <;> exact Nat.le_of_eq (tag_length (by decide))

theorem latLng_length (src : LatLng) : (latLngCodec.codecs.bytes src).length ≤ latLngSize :=
  Codecs.length_cons (singularCodec_length 1 .double 8 (by decide) (doubleBytes_length _)) <|
  Codecs.length_cons (singularCodec_length 2 .double 8 (by decide) (doubleBytes_length _)) (Codecs.length_nil src)

theorem timestamp_length (src : Timestamp) : (timestampCodec.codecs.bytes src).length ≤ timestampSize :=
  Codecs.length_cons (singularCodec_length 1 .int64 10 (by decide) (varint_length _)) <|
  Codecs.length_cons (singularCodec_length 2 .int32 10 (by decide) (varint_length _)) (Codecs.length_nil src)

theorem track_length {src : Track} (h : TrackDeclared src) : (trackCodec.codecs.bytes src).length ≤ trackSize :=
  Codecs.length_cons (singularCodec_length 1 .uenum 1 (by decide) (enumBytes_length h.1 (by decide))) <|
  Codecs.length_cons (singularCodec_length 2 .uenum 1 (by decide) (enumBytes_length h.2 (by decide)))
    (Codecs.length_nil src)

theorem kart_length {src : Kart} (h : KartDeclared src) : (kartCodec.codecs.bytes src).length ≤ kartSize :=
  Codecs.length_cons (singularCodec_length 1 .bool 1 (by decide) (boolBytes_length _)) <|
  Codecs.length_cons (singularCodec_length 2 .int32 10 (by decide) (varint_length _)) <|
  Codecs.length_cons (singularCodec_length 3 .uenum 1 (by decide) (enumBytes_length h (by decide))) <|
  Codecs.length_cons (singularCodec_length 4 .float 4 (by decide) (floatBytes_length _)) <|
  Codecs.length_cons (singularCodec_length 5 .float 4 (by decide) (floatBytes_length _)) <|
  Codecs.length_cons (optionalCodec_length latLngCodec 6 18 (by decide) (by decide) (latLng_length _))
    (Codecs.length_nil src)

/-- The two members of the union are never written together. -/
theorem payload_length {src : MQTTMessage} (h : Declared src) :
    ((Codecs.cons (oneofCodec kartCodec 3 Kart.initZero (fun m => { m with payload := .none })
        (fun m => m.payload.kart?) (fun v m => { m with payload := .kartStatus v })) <|
      .cons (oneofCodec trackCodec 4 Track.initZero (fun m : MQTTMessage => { m with payload := .none })
        (fun m => m.payload.track?) (fun v m => { m with payload := .trackStatus v })) .nil).bytes src).length ≤ 47 := by
  obtain ⟨-, hkart, htrack⟩ := h
  cases hpayload : src.payload with
  | none =>
      have hk : src.payload.kart? = none := by rw [hpayload]; rfl
      have ht : src.payload.track? = none := by rw [hpayload]; rfl
      exact Nat.le_trans (Codecs.length_cons (oneofCodec_absent hk)
        (Codecs.length_cons (oneofCodec_absent ht) (Codecs.length_nil src))) (by decide)
  | kartStatus kart =>
      have hk : src.payload.kart? = some kart := by rw [hpayload]; rfl
      have ht : src.payload.track? = none := by rw [hpayload]; rfl
      exact Nat.le_trans (Codecs.length_cons
        (oneofCodec_length kartCodec 3 45 hk (by decide) (by decide) (kart_length (hkart kart hpayload)))
        (Codecs.length_cons (oneofCodec_absent ht) (Codecs.length_nil src))) (by decide)
  | trackStatus track =>
      have hk : src.payload.kart? = none := by rw [hpayload]; rfl
      have ht : src.payload.track? = some track := by rw [hpayload]; rfl
      exact Nat.le_trans (Codecs.length_cons (oneofCodec_absent hk) (Codecs.length_cons
        (oneofCodec_length trackCodec 4 4 ht (by decide) (by decide) (track_length (htrack track hpayload)))
        (Codecs.length_nil src))) (by decide)

theorem mqttMessage_length {src : MQTTMessage} (h : Declared src) :
    (mqttMessageCodec.codecs.bytes src).length ≤ mqttMessageSize :=
  Codecs.length_cons (singularCodec_length 1 .uenum 1 (by decide) (enumBytes_length h.1 (by decide))) <|
  Codecs.length_cons (optionalCodec_length timestampCodec 2 22 (by decide) (by decide) (timestamp_length _))
    (payload_length h)

/-- The struct that is encoded longest. -/
def longestLatLng : LatLng := ⟨1, 1⟩

def longestKart : Kart := ⟨true, -1, 2, 1, 1, true, longestLatLng⟩

def longestTrack : Track := ⟨3, 6⟩

def longestTimestamp : Timestamp := ⟨-1, -1⟩

def longestMessage : MQTTMessage := ⟨2, true, longestTimestamp, .kartStatus longestKart⟩

/-- The sizes that the generated headers state are the largest sizes of the
messages whose enumerations hold declared values. -/
theorem generated_sizes :
    IsGreatest {n | ∃ src, pbGetEncodedSize latLngMsg src = some n} latLngSize ∧
      IsGreatest {n | ∃ src, KartDeclared src ∧ pbGetEncodedSize kartMsg src = some n} kartSize ∧
      IsGreatest {n | ∃ src, TrackDeclared src ∧ pbGetEncodedSize trackMsg src = some n} trackSize ∧
      IsGreatest {n | ∃ src, pbGetEncodedSize timestampMsg src = some n} timestampSize ∧
      IsGreatest {n | ∃ src, Declared src ∧ pbGetEncodedSize mqttMessageMsg src = some n} mqttMessageSize := by
  refine ⟨⟨⟨longestLatLng, by decide +kernel⟩, ?_⟩, ⟨⟨longestKart, by decide, by decide +kernel⟩, ?_⟩,
    ⟨⟨longestTrack, by decide, by decide +kernel⟩, ?_⟩, ⟨⟨longestTimestamp, by decide +kernel⟩, ?_⟩,
    ⟨⟨longestMessage, ?_, by decide +kernel⟩, ?_⟩⟩
  · rintro n ⟨src, hsize⟩
    cases (latLngCodec.size src).symm.trans hsize
    exact latLng_length src
  · rintro n ⟨src, hdeclared, hsize⟩
    cases (kartCodec.size src).symm.trans hsize
    exact kart_length hdeclared
  · rintro n ⟨src, hdeclared, hsize⟩
    cases (trackCodec.size src).symm.trans hsize
    exact track_length hdeclared
  · rintro n ⟨src, hsize⟩
    cases (timestampCodec.size src).symm.trans hsize
    exact timestamp_length src
  · refine ⟨by decide, fun kart hkart => ?_, fun track htrack => ?_⟩
    · cases hkart
      decide
    · cases htrack
  · rintro n ⟨src, hdeclared, hsize⟩
    cases (mqttMessageCodec.size src).symm.trans hsize
    exact mqttMessage_length hdeclared

end Sizes

end RaceControl.RoundTrip
