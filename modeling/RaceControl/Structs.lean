import RaceControl.Descriptors

namespace RaceControl.Messages

open Nanopb Nanopb.Struct Record

attribute [ext] LatLng Kart Track Timestamp MQTTMessage

section Members

inductive LatLngMember
  | latitude | longitude

inductive KartMember
  | isKartConnected | kartId | control | speed | steeringAngle | hasPosition | position

inductive TrackMember
  | allowedControl | flagState

inductive TimestampMember
  | seconds | nanos

inductive MQTTMessageMember
  | topic | hasTimestamp | timestamp | whichPayload | payload

/-- The sizes that sizeof gives. An enumeration takes as much as an int. -/
def LatLngMember.size : LatLngMember → Nat
  | .latitude => Scalar.size .double
  | .longitude => Scalar.size .double

def KartMember.size (latLng : Nat) : KartMember → Nat
  | .isKartConnected => Scalar.size .bool
  | .kartId => Scalar.size .int32
  | .control => Scalar.size .uenum
  | .speed => Scalar.size .float
  | .steeringAngle => Scalar.size .float
  | .hasPosition => 1
  | .position => latLng

def TrackMember.size : TrackMember → Nat
  | .allowedControl => Scalar.size .uenum
  | .flagState => Scalar.size .uenum

def TimestampMember.size : TimestampMember → Nat
  | .seconds => Scalar.size .int64
  | .nanos => Scalar.size .int32

def MQTTMessageMember.size (timestamp payload : Nat) : MQTTMessageMember → Nat
  | .topic => Scalar.size .uenum
  | .hasTimestamp => 1
  | .timestamp => timestamp
  | .whichPayload => 2
  | .payload => payload

end Members

/-- A layout of the five structs. The union of the payloads has room for each of them. -/
structure Structs where
  latLng : Layout LatLngMember.size
  kart : Layout (KartMember.size latLng.size)
  track : Layout TrackMember.size
  timestamp : Layout TimestampMember.size
  payload : Nat
  kart_le : kart.size ≤ payload
  track_le : track.size ≤ payload
  mqttMessage : Layout (MQTTMessageMember.size timestamp.size payload)
  small : mqttMessage.size < 2 ^ 31

def Structs.size (s : Structs) : MsgName → Nat
  | .latLng => s.latLng.size
  | .kart => s.kart.size
  | .track => s.track.size
  | .timestamp => s.timestamp.size
  | .mqttMessage => s.mqttMessage.size

section Sizes

variable (s : Structs)

theorem layout_pos {κ : Type} {length : κ → Nat} (l : Layout length) (k : κ) (hk : 0 < length k) : 0 < l.size :=
  (Nat.add_pos_right _ hk).trans_le (l.inside k)

theorem latLng_pos : 0 < s.size .latLng := layout_pos s.latLng .latitude (by decide)

theorem kart_pos : 0 < s.size .kart := layout_pos s.kart .kartId (Nat.succ_pos 3)

theorem track_pos : 0 < s.size .track := layout_pos s.track .flagState (by decide)

theorem timestamp_pos : 0 < s.size .timestamp := layout_pos s.timestamp .seconds (by decide)

theorem size_small (d : MsgName) : s.size d < 2 ^ 31 := by
  have hposition : s.latLng.size ≤ s.kart.size := (Nat.le_add_left _ _).trans (s.kart.inside .position)
  have htimestamp : s.timestamp.size ≤ s.mqttMessage.size :=
    (Nat.le_add_left _ _).trans (s.mqttMessage.inside .timestamp)
  have hpayload : s.payload ≤ s.mqttMessage.size := (Nat.le_add_left _ _).trans (s.mqttMessage.inside .payload)
  have hkart := s.kart_le
  have htrack := s.track_le
  have hsmall := s.small
  cases d <;> simp only [Structs.size] <;> omega

end Sizes

section Place

variable {κ : Type} {length : κ → Nat}

def scalarAt (l : Layout length) (k : κ) : Member := ⟨l.offset k, length k, none⟩

/-- A submessage with the member that is its flag or its selector. -/
def messageAt (l : Layout length) (k flag : κ) (size : Nat) : Member := ⟨l.offset k, size, some (l.offset flag)⟩

theorem sits_scalar {sizes : MsgName → Nat} (l : Layout length) (hsmall : l.size < 2 ^ 31) (k : κ) (t : Scalar)
    (tag : UInt32) (hlength : length k = t.size) : Sits sizes l.size ⟨.singular, .scalar t, tag⟩ (scalarAt l k) where
  small := hsmall
  exact := hlength
  data := l.inside k
  single _ := ⟨rfl, rfl⟩
  counted h := absurd rfl h

theorem sits_message {sizes : MsgName → Nat} (l : Layout length) (hsmall : l.size < 2 ^ 31) {k flag : κ} (rule : Rule)
    (name : MsgName) (tag : UInt32) (hrule : rule ≠ .singular) (hne : flag ≠ k) (hpos : 0 < sizes name)
    (hlength : sizes name ≤ length k) (hflag : length flag = rule.countSize) :
    Sits sizes l.size ⟨rule, .message name, tag⟩ (messageAt l k flag (sizes name)) where
  small := hsmall
  exact := rfl
  data := (Nat.add_le_add_left hlength _).trans (l.inside k)
  single h := absurd h hrule
  counted _ := by
    have hapart := l.apart flag k hne
    have hinside := l.inside flag
    have hcount : 0 < rule.countSize := by
      cases rule with
      | singular => exact absurd rfl hrule
      | optional => exact Nat.one_pos
      | oneof => exact Nat.two_pos
    exact ⟨_, rfl, by simp only [messageAt]; omega, by simp only; omega⟩

end Place

def Structs.members (s : Structs) : MsgName → List Member
  | .latLng => [scalarAt s.latLng .latitude, scalarAt s.latLng .longitude]
  | .kart =>
      [scalarAt s.kart .isKartConnected, scalarAt s.kart .kartId, scalarAt s.kart .control, scalarAt s.kart .speed,
       scalarAt s.kart .steeringAngle, messageAt s.kart .position .hasPosition (s.size .latLng)]
  | .track => [scalarAt s.track .allowedControl, scalarAt s.track .flagState]
  | .timestamp => [scalarAt s.timestamp .seconds, scalarAt s.timestamp .nanos]
  | .mqttMessage =>
      [scalarAt s.mqttMessage .topic, messageAt s.mqttMessage .timestamp .hasTimestamp (s.size .timestamp),
       messageAt s.mqttMessage .payload .whichPayload (s.size .kart),
       messageAt s.mqttMessage .payload .whichPayload (s.size .track)]

theorem sits_members (s : Structs) (d : MsgName) :
    List.Forall₂ (Sits s.size (s.size d)) (fieldList d).specs (s.members d) := by
  cases d with
  | latLng =>
      have hsmall := size_small s .latLng
      exact .cons (sits_scalar s.latLng hsmall .latitude .double 1 rfl) <|
        .cons (sits_scalar s.latLng hsmall .longitude .double 2 rfl) .nil
  | kart =>
      have hsmall := size_small s .kart
      exact .cons (sits_scalar s.kart hsmall .isKartConnected .bool 1 rfl) <|
        .cons (sits_scalar s.kart hsmall .kartId .int32 2 rfl) <|
        .cons (sits_scalar s.kart hsmall .control .uenum 3 rfl) <|
        .cons (sits_scalar s.kart hsmall .speed .float 4 rfl) <|
        .cons (sits_scalar s.kart hsmall .steeringAngle .float 5 rfl) <|
        .cons (sits_message s.kart hsmall .optional .latLng 6 nofun nofun (latLng_pos s) (Nat.le_refl _) rfl) .nil
  | track =>
      have hsmall := size_small s .track
      exact .cons (sits_scalar s.track hsmall .allowedControl .uenum 1 rfl) <|
        .cons (sits_scalar s.track hsmall .flagState .uenum 2 rfl) .nil
  | timestamp =>
      have hsmall := size_small s .timestamp
      exact .cons (sits_scalar s.timestamp hsmall .seconds .int64 1 rfl) <|
        .cons (sits_scalar s.timestamp hsmall .nanos .int32 2 rfl) .nil
  | mqttMessage =>
      have hsmall := size_small s .mqttMessage
      exact .cons (sits_scalar s.mqttMessage hsmall .topic .uenum 1 rfl) <|
        .cons (sits_message s.mqttMessage hsmall .optional .timestamp 2 nofun nofun (timestamp_pos s) (Nat.le_refl _)
          rfl) <|
        .cons (sits_message s.mqttMessage hsmall .oneof .kart 3 nofun nofun (kart_pos s) s.kart_le rfl) <|
        .cons (sits_message s.mqttMessage hsmall .oneof .track 4 nofun nofun (track_pos s) s.track_le rfl) .nil

/-- The descriptors that PB_BIND writes for a layout that passes its assertions. -/
structure Bound where
  structs : Structs
  asserts : ∀ d, layoutFits (fieldList d).specs (structs.members d) = true
  beyond : MsgName → Nat → UInt32

def Bound.schema (b : Bound) : Schema MsgName where
  entries d := entriesOf (fieldList d).specs (b.structs.members d) (b.asserts d)
  beyond := b.beyond
  size := b.structs.size
  bindable d := bindable_entries (fieldList d) (b.structs.members d) (b.asserts d)
  plain d e he := by
    obtain ⟨spec, m, hfits, -, rfl⟩ := exists_of_entry (sits_members b.structs d) (b.asserts d) e he
    exact isPlain_of_type spec.rule spec.type
  fits d e he := by
    obtain ⟨spec, m, hfits, hsits, rfl⟩ := exists_of_entry (sits_members b.structs d) (b.asserts d) e he
    exact fits_member hfits hsits

section Views

variable (s : Structs) (mem : Mem) (a : Int)

/-- What the bytes of a struct stand for. -/
def Structs.latLngView : LatLng where
  latitude := Scalar.load .double mem (a + s.latLng.offset .latitude)
  longitude := Scalar.load .double mem (a + s.latLng.offset .longitude)

def Structs.kartView : Kart where
  isKartConnected := Scalar.load .bool mem (a + s.kart.offset .isKartConnected)
  kartId := Scalar.load .int32 mem (a + s.kart.offset .kartId)
  control := Scalar.load .uenum mem (a + s.kart.offset .control)
  speed := Scalar.load .float mem (a + s.kart.offset .speed)
  steeringAngle := Scalar.load .float mem (a + s.kart.offset .steeringAngle)
  hasPosition := safeReadBool mem (a + s.kart.offset .hasPosition)
  position := s.latLngView mem (a + s.kart.offset .position)

def Structs.trackView : Track where
  allowedControl := Scalar.load .uenum mem (a + s.track.offset .allowedControl)
  flagState := Scalar.load .uenum mem (a + s.track.offset .flagState)

def Structs.timestampView : Timestamp where
  seconds := Scalar.load .int64 mem (a + s.timestamp.offset .seconds)
  nanos := Scalar.load .int32 mem (a + s.timestamp.offset .nanos)

/-- A selector that is no tag of the union selects nothing. -/
def Structs.payloadView : Payload :=
  let which := selector (s.mqttMessage.offset .whichPayload) mem a
  if which = kartStatusTag then .kartStatus (s.kartView mem (a + s.mqttMessage.offset .payload))
  else if which = trackStatusTag then .trackStatus (s.trackView mem (a + s.mqttMessage.offset .payload))
  else .none

def Structs.mqttMessageView : MQTTMessage where
  topic := Scalar.load .uenum mem (a + s.mqttMessage.offset .topic)
  hasTimestamp := safeReadBool mem (a + s.mqttMessage.offset .hasTimestamp)
  timestamp := s.timestampView mem (a + s.mqttMessage.offset .timestamp)
  payload := s.payloadView mem a

end Views

section Places

def latLngMembers : Members LatLngMember LatLng where
  value _ := UInt64
  get
    | .latitude => LatLng.latitude
    | .longitude => LatLng.longitude
  set
    | .latitude => fun v x => { x with latitude := v }
    | .longitude => fun v x => { x with longitude := v }
  get_set i v x := by cases i <;> rfl
  get_set_ne i j v x h := by cases i <;> cases j <;> first | rfl | exact absurd rfl h
  ext x y h := LatLng.ext (h .latitude) (h .longitude)

def KartMember.Value : KartMember → Type
  | .isKartConnected => Bool
  | .kartId => Int32
  | .control => UInt32
  | .speed => UInt32
  | .steeringAngle => UInt32
  | .hasPosition => Bool
  | .position => LatLng

def kartMembers : Members KartMember Kart where
  value := KartMember.Value
  get
    | .isKartConnected => Kart.isKartConnected
    | .kartId => Kart.kartId
    | .control => Kart.control
    | .speed => Kart.speed
    | .steeringAngle => Kart.steeringAngle
    | .hasPosition => Kart.hasPosition
    | .position => Kart.position
  set
    | .isKartConnected => fun v x => { x with isKartConnected := v }
    | .kartId => fun v x => { x with kartId := v }
    | .control => fun v x => { x with control := v }
    | .speed => fun v x => { x with speed := v }
    | .steeringAngle => fun v x => { x with steeringAngle := v }
    | .hasPosition => fun v x => { x with hasPosition := v }
    | .position => fun v x => { x with position := v }
  get_set i v x := by cases i <;> rfl
  get_set_ne i j v x h := by cases i <;> cases j <;> first | rfl | exact absurd rfl h
  ext x y h := Kart.ext (h .isKartConnected) (h .kartId) (h .control) (h .speed) (h .steeringAngle) (h .hasPosition)
    (h .position)

def trackMembers : Members TrackMember Track where
  value _ := UInt32
  get
    | .allowedControl => Track.allowedControl
    | .flagState => Track.flagState
  set
    | .allowedControl => fun v x => { x with allowedControl := v }
    | .flagState => fun v x => { x with flagState := v }
  get_set i v x := by cases i <;> rfl
  get_set_ne i j v x h := by cases i <;> cases j <;> first | rfl | exact absurd rfl h
  ext x y h := Track.ext (h .allowedControl) (h .flagState)

def TimestampMember.Value : TimestampMember → Type
  | .seconds => Int64
  | .nanos => Int32

def timestampMembers : Members TimestampMember Timestamp where
  value := TimestampMember.Value
  get
    | .seconds => Timestamp.seconds
    | .nanos => Timestamp.nanos
  set
    | .seconds => fun v x => { x with seconds := v }
    | .nanos => fun v x => { x with nanos := v }
  get_set i v x := by cases i <;> rfl
  get_set_ne i j v x h := by cases i <;> cases j <;> first | rfl | exact absurd rfl h
  ext x y h := Timestamp.ext (h .seconds) (h .nanos)

/-- The selector and the union make one member of the value. -/
inductive MQTTMessagePart
  | topic | hasTimestamp | timestamp | payload

def MQTTMessagePart.Value : MQTTMessagePart → Type
  | .topic => UInt32
  | .hasTimestamp => Bool
  | .timestamp => Timestamp
  | .payload => Payload

def MQTTMessageMember.part : MQTTMessageMember → MQTTMessagePart
  | .topic => .topic
  | .hasTimestamp => .hasTimestamp
  | .timestamp => .timestamp
  | .whichPayload => .payload
  | .payload => .payload

def mqttMessageMembers : Members MQTTMessagePart MQTTMessage where
  value := MQTTMessagePart.Value
  get
    | .topic => MQTTMessage.topic
    | .hasTimestamp => MQTTMessage.hasTimestamp
    | .timestamp => MQTTMessage.timestamp
    | .payload => MQTTMessage.payload
  set
    | .topic => fun v x => { x with topic := v }
    | .hasTimestamp => fun v x => { x with hasTimestamp := v }
    | .timestamp => fun v x => { x with timestamp := v }
    | .payload => fun v x => { x with payload := v }
  get_set i v x := by cases i <;> rfl
  get_set_ne i j v x h := by cases i <;> cases j <;> first | rfl | exact absurd rfl h
  ext x y h := MQTTMessage.ext (h .topic) (h .hasTimestamp) (h .timestamp) (h .payload)

variable (s : Structs)

def Structs.latLngPlaced : Placed latLngMembers s.latLng UInt8 where
  owner := id
  view := s.latLngView
  within i mem mem' a h := by
    cases i with
    | latitude => exact load_congr .double (h .latitude rfl)
    | longitude => exact load_congr .double (h .longitude rfl)

def Structs.trackPlaced : Placed trackMembers s.track UInt8 where
  owner := id
  view := s.trackView
  within i mem mem' a h := by
    cases i with
    | allowedControl => exact load_congr .uenum (h .allowedControl rfl)
    | flagState => exact load_congr .uenum (h .flagState rfl)

def Structs.timestampPlaced : Placed timestampMembers s.timestamp UInt8 where
  owner := id
  view := s.timestampView
  within i mem mem' a h := by
    cases i with
    | seconds => exact load_congr .int64 (h .seconds rfl)
    | nanos => exact load_congr .int32 (h .nanos rfl)

def Structs.kartPlaced : Placed kartMembers s.kart UInt8 where
  owner := id
  view := s.kartView
  within i mem mem' a h := by
    cases i with
    | isKartConnected => exact load_congr .bool (h .isKartConnected rfl)
    | kartId => exact load_congr .int32 (h .kartId rfl)
    | control => exact load_congr .uenum (h .control rfl)
    | speed => exact load_congr .float (h .speed rfl)
    | steeringAngle => exact load_congr .float (h .steeringAngle rfl)
    | hasPosition => exact load_congr .bool (h .hasPosition rfl)
    | position => exact s.latLngPlaced.view_same (h .position rfl)

theorem same_part {β : Type} {a : Int} {n k : Nat} {mem mem' : Memory β} (h : Same a n mem mem') (hle : k ≤ n) :
    Same a k mem mem' := fun x hx hlt => h x hx (by omega)

def Structs.mqttMessagePlaced : Placed mqttMessageMembers s.mqttMessage UInt8 where
  owner := MQTTMessageMember.part
  view := s.mqttMessageView
  within i mem mem' a h := by
    cases i with
    | topic => exact load_congr .uenum (h .topic rfl)
    | hasTimestamp => exact load_congr .bool (h .hasTimestamp rfl)
    | timestamp => exact s.timestampPlaced.view_same (h .timestamp rfl)
    | payload =>
        have hwhich : selector (s.mqttMessage.offset .whichPayload) mem' a =
            selector (s.mqttMessage.offset .whichPayload) mem a :=
          congrArg littleEndian (read_congr (h .whichPayload rfl))
        have hkart := s.kartPlaced.view_same (same_part (h .payload rfl) s.kart_le)
        have htrack := s.trackPlaced.view_same (same_part (h .payload rfl) s.track_le)
        have hkart' : s.kartView mem' (a + s.mqttMessage.offset .payload) =
          s.kartView mem (a + s.mqttMessage.offset .payload) := hkart
        have htrack' : s.trackView mem' (a + s.mqttMessage.offset .payload) =
          s.trackView mem (a + s.mqttMessage.offset .payload) := htrack
        have hpayload : s.payloadView mem' a = s.payloadView mem a := by
          rw [Structs.payloadView, Structs.payloadView, hwhich, hkart', htrack']
        exact hpayload

end Places

section Zero

variable (s : Structs) {mem : Mem} {a : Int}

theorem zero_at {κ : Type} {length : κ → Nat} (l : Layout length) (h : ∀ x, a ≤ x → x < a + l.size → mem x = 0) (k : κ)
    (x : Int) (hle : a + l.offset k ≤ x) (hlt : x < a + l.offset k + length k) : mem x = 0 := by
  have hinside := l.inside k
  exact h x (by omega) (by omega)

theorem latLng_zero (h : ∀ x, a ≤ x → x < a + s.latLng.size → mem x = 0) : s.latLngView mem a = LatLng.initZero := by
  have hzero := zero_at s.latLng h
  exact LatLng.ext (load_zero .double (hzero .latitude)) (load_zero .double (hzero .longitude))

theorem track_zero (h : ∀ x, a ≤ x → x < a + s.track.size → mem x = 0) : s.trackView mem a = Track.initZero := by
  have hzero := zero_at s.track h
  exact Track.ext (load_zero .uenum (hzero .allowedControl)) (load_zero .uenum (hzero .flagState))

theorem timestamp_zero (h : ∀ x, a ≤ x → x < a + s.timestamp.size → mem x = 0) :
    s.timestampView mem a = Timestamp.initZero := by
  have hzero := zero_at s.timestamp h
  exact Timestamp.ext (load_zero .int64 (hzero .seconds)) (load_zero .int32 (hzero .nanos))

theorem kart_zero (h : ∀ x, a ≤ x → x < a + s.kart.size → mem x = 0) : s.kartView mem a = Kart.initZero := by
  have hzero := zero_at s.kart h
  exact Kart.ext (load_zero .bool (hzero .isKartConnected)) (load_zero .int32 (hzero .kartId))
    (load_zero .uenum (hzero .control)) (load_zero .float (hzero .speed)) (load_zero .float (hzero .steeringAngle))
    (load_zero .bool (hzero .hasPosition)) (latLng_zero s (hzero .position))

theorem mqttMessage_zero (h : ∀ x, a ≤ x → x < a + s.mqttMessage.size → mem x = 0) :
    s.mqttMessageView mem a = MQTTMessage.initZero := by
  have hzero := zero_at s.mqttMessage h
  have hwhich : selector (s.mqttMessage.offset .whichPayload) mem a = 0 := by
    have hread : read mem (a + s.mqttMessage.offset .whichPayload) 2 = List.replicate 2 0 :=
      read_replicate (hzero .whichPayload)
    rw [selector, hread]
    rfl
  have hpayload : s.payloadView mem a = .none := by
    rw [Structs.payloadView, hwhich]
    rfl
  exact MQTTMessage.ext (load_zero .uenum (hzero .topic)) (load_zero .bool (hzero .hasTimestamp))
    (timestamp_zero s (hzero .timestamp)) hpayload

end Zero

section Realize

variable (b : Bound)

theorem realizes_bound {σ : Type} {nesting : Nat} {d : MsgName} {view : Mem → Int → σ} {zero : σ}
    {fields : List (PbField σ)} (htags : fields.map PbField.tag = (fieldList d).specs.map FieldSpec.tag)
    (hwithin : ∀ mem mem' a, Same a (b.schema.size d) mem mem' → view mem' a = view mem a)
    (hzeroed : ∀ mem (a : Int), (∀ x, a ≤ x → x < a + b.schema.size d → mem x = 0) → view mem a = zero)
    (hreset : ∀ dest, pbMessageSetToDefaults fields dest = zero)
    (h : ∀ depth, nesting ≤ depth →
      HandlesAll b.schema depth view (b.schema.size d) (fieldList d).specs (b.structs.members d) fields) :
    Realizes b.schema (nesting + 1) d view zero fields := by
  obtain ⟨hentries, hfields⟩ := bindFields_map (fieldList d).specs (b.structs.members d) fields (b.asserts d) htags
  have hrealizes := realizes_message hentries.symm hwithin hzeroed (hfields.symm ▸ hreset)
    (fun depth hdepth => (h depth hdepth).bound (sits_members b.structs d) (b.asserts d) htags)
  rwa [hfields] at hrealizes

theorem latLng_realizes : Realizes b.schema 1 .latLng b.structs.latLngView LatLng.initZero latLngMsg := by
  have hplaced := b.structs.latLngPlaced.piece_at
  refine realizes_bound b rfl (fun _ _ _ h => b.structs.latLngPlaced.view_same h) (fun _ _ h => latLng_zero _ h)
    (fun _ => rfl) fun depth _ => ?_
  exact .cons (fun hfits h => handles_scalar hfits h (hplaced .latitude)) <|
    .cons (fun hfits h => handles_scalar hfits h (hplaced .longitude)) .nil

theorem track_realizes : Realizes b.schema 1 .track b.structs.trackView Track.initZero trackMsg := by
  have hplaced := b.structs.trackPlaced.piece_at
  refine realizes_bound b rfl (fun _ _ _ h => b.structs.trackPlaced.view_same h) (fun _ _ h => track_zero _ h)
    (fun _ => rfl) fun depth _ => ?_
  exact .cons (fun hfits h => handles_scalar hfits h (hplaced .allowedControl)) <|
    .cons (fun hfits h => handles_scalar hfits h (hplaced .flagState)) .nil

theorem timestamp_realizes :
    Realizes b.schema 1 .timestamp b.structs.timestampView Timestamp.initZero timestampMsg := by
  have hplaced := b.structs.timestampPlaced.piece_at
  refine realizes_bound b rfl (fun _ _ _ h => b.structs.timestampPlaced.view_same h) (fun _ _ h => timestamp_zero _ h)
    (fun _ => rfl) fun depth _ => ?_
  exact .cons (fun hfits h => handles_scalar hfits h (hplaced .seconds)) <|
    .cons (fun hfits h => handles_scalar hfits h (hplaced .nanos)) .nil

theorem kart_realizes : Realizes b.schema 2 .kart b.structs.kartView Kart.initZero kartMsg := by
  have hplaced := b.structs.kartPlaced.piece_at
  refine realizes_bound b rfl (fun _ _ _ h => b.structs.kartPlaced.view_same h) (fun _ _ h => kart_zero _ h)
    (fun _ => rfl) fun depth hdepth => ?_
  exact .cons (fun hfits h => handles_scalar hfits h (hplaced .isKartConnected)) <|
    .cons (fun hfits h => handles_scalar hfits h (hplaced .kartId)) <|
    .cons (fun hfits h => handles_scalar hfits h (hplaced .control)) <|
    .cons (fun hfits h => handles_scalar hfits h (hplaced .speed)) <|
    .cons (fun hfits h => handles_scalar hfits h (hplaced .steeringAngle)) <|
    .cons (fun hfits h => handles_flagged (latLng_realizes b) hdepth hfits h rfl (hplaced .hasPosition)
      (hplaced .position) (fun _ _ => rfl)) .nil

/-- The choice of a member of the union, by its tag. -/
theorem payload_choice {τ : Type} (s : Structs) {tag : Nat} {size : Nat} (hle : size ≤ s.payload)
    {member : Mem → Int → τ} {wrap : τ → Payload} {unwrap : Payload → Option τ}
    (hselects : ∀ mem a, unwrap (s.payloadView mem a) =
      if selector (s.mqttMessage.offset .whichPayload) mem a = tag then some (member mem a) else none)
    (hwrap : ∀ mem a, selector (s.mqttMessage.offset .whichPayload) mem a = tag →
      s.payloadView mem a = wrap (member mem a)) :
    Choice s.mqttMessageView
      (fun x => Span (s.mqttMessage.offset .whichPayload) 2 x ∨ Span (s.mqttMessage.offset .payload) size x)
      (selector (s.mqttMessage.offset .whichPayload)) tag member (fun m => { m with payload := .none })
      (fun m => unwrap m.payload) (fun v m => { m with payload := wrap v }) := by
  have hpiece : Piece s.mqttMessageView
      (fun x => Span (s.mqttMessage.offset .whichPayload) 2 x ∨ Span (s.mqttMessage.offset .payload) size x)
      s.payloadView MQTTMessage.payload (fun v m => { m with payload := v }) :=
    (s.mqttMessagePlaced.piece .payload).mono fun x hx => by
      rcases hx with hwhich | ⟨hstart, hend⟩
      · exact ⟨.whichPayload, rfl, hwhich⟩
      · have hsize : MQTTMessageMember.size s.timestamp.size s.payload .payload = s.payload := rfl
        exact ⟨.payload, rfl, hstart, by omega⟩
  refine hpiece.choice hselects hwrap fun mem a hzero => ?_
  rw [Structs.payloadView, hzero]
  rfl

theorem kart_selected (s : Structs) (mem : Mem) (a : Int) :
    (s.payloadView mem a).kart? = if selector (s.mqttMessage.offset .whichPayload) mem a = kartStatusTag
      then some (s.kartView mem (a + s.mqttMessage.offset .payload)) else none := by
  rw [Structs.payloadView]
  split
  · rfl
  · split <;> rfl

theorem track_selected (s : Structs) (mem : Mem) (a : Int) :
    (s.payloadView mem a).track? = if selector (s.mqttMessage.offset .whichPayload) mem a = trackStatusTag
      then some (s.trackView mem (a + s.mqttMessage.offset .payload)) else none := by
  rw [Structs.payloadView]
  split
  · rename_i hkart
    rw [hkart]
    rfl
  · split <;> rfl

theorem kart_wrapped (s : Structs) (mem : Mem) (a : Int)
    (h : selector (s.mqttMessage.offset .whichPayload) mem a = kartStatusTag) :
    s.payloadView mem a = .kartStatus (s.kartView mem (a + s.mqttMessage.offset .payload)) := by
  rw [Structs.payloadView, h]
  rfl

theorem track_wrapped (s : Structs) (mem : Mem) (a : Int)
    (h : selector (s.mqttMessage.offset .whichPayload) mem a = trackStatusTag) :
    s.payloadView mem a = .trackStatus (s.trackView mem (a + s.mqttMessage.offset .payload)) := by
  rw [Structs.payloadView, h]
  rfl

theorem union_apart (s : Structs) {size : Nat} (hle : size ≤ s.payload) :
    s.mqttMessage.offset .whichPayload + 2 ≤ s.mqttMessage.offset .payload ∨
      s.mqttMessage.offset .payload + size ≤ s.mqttMessage.offset .whichPayload := by
  have hapart := s.mqttMessage.apart .whichPayload .payload nofun
  have hwhich : MQTTMessageMember.size s.timestamp.size s.payload .whichPayload = 2 := rfl
  have hpayload : MQTTMessageMember.size s.timestamp.size s.payload .payload = s.payload := rfl
  omega

theorem mqttMessage_realizes :
    Realizes b.schema 3 .mqttMessage b.structs.mqttMessageView MQTTMessage.initZero mqttMessageMsg := by
  have hplaced := b.structs.mqttMessagePlaced.piece_at
  refine realizes_bound b rfl (fun _ _ _ h => b.structs.mqttMessagePlaced.view_same h)
    (fun _ _ h => mqttMessage_zero _ h) (fun _ => rfl) fun depth hdepth => ?_
  exact .cons (fun hfits h => handles_scalar hfits h (hplaced .topic)) <|
    .cons (fun hfits h => handles_flagged (timestamp_realizes b) (by omega) hfits h rfl (hplaced .hasTimestamp)
      (hplaced .timestamp) (fun _ _ => rfl)) <|
    .cons (fun hfits h => handles_selected (kart_realizes b) hdepth hfits h rfl
      (payload_choice b.structs b.structs.kart_le (kart_selected b.structs) (kart_wrapped b.structs))
      (union_apart b.structs b.structs.kart_le)) <|
    .cons (fun hfits h => handles_selected (track_realizes b) (by omega) hfits h rfl
      (payload_choice b.structs b.structs.track_le (track_selected b.structs) (track_wrapped b.structs))
      (union_apart b.structs b.structs.track_le)) .nil

end Realize

section Layout

/-- The structs as a compiler for a target of 32 bits lays them out. -/
def structs32 : Structs where
  latLng :=
    { offset := fun | .latitude => 0 | .longitude => 8
      size := 16
      inside := by rintro (_ | _) <;> decide
      apart := by rintro (_ | _) (_ | _) h <;> first | exact absurd rfl h | decide }
  kart :=
    { offset := fun
        | .isKartConnected => 0
        | .kartId => 4
        | .control => 8
        | .speed => 12
        | .steeringAngle => 16
        | .hasPosition => 20
        | .position => 24
      size := 40
      inside := by rintro (_ | _ | _ | _ | _ | _ | _) <;> decide
      apart := by
        rintro (_ | _ | _ | _ | _ | _ | _) (_ | _ | _ | _ | _ | _ | _) h <;> first | exact absurd rfl h | decide }
  track :=
    { offset := fun | .allowedControl => 0 | .flagState => 4
      size := 8
      inside := by rintro (_ | _) <;> decide
      apart := by rintro (_ | _) (_ | _) h <;> first | exact absurd rfl h | decide }
  timestamp :=
    { offset := fun | .seconds => 0 | .nanos => 8
      size := 16
      inside := by rintro (_ | _) <;> decide
      apart := by rintro (_ | _) (_ | _) h <;> first | exact absurd rfl h | decide }
  payload := 40
  kart_le := by decide
  track_le := by decide
  mqttMessage :=
    { offset := fun
        | .topic => 0
        | .hasTimestamp => 4
        | .timestamp => 8
        | .whichPayload => 24
        | .payload => 32
      size := 72
      inside := by rintro (_ | _ | _ | _ | _) <;> decide
      apart := by rintro (_ | _ | _ | _ | _) (_ | _ | _ | _ | _) h <;> first | exact absurd rfl h | decide }
  small := by decide

def layout32 : Bound where
  structs := structs32
  asserts d := by cases d <;> decide
  beyond _ _ := 0

/-- Whatever the layout and whatever the struct held before, decoding a frame through
the packed descriptors leaves a struct that stands for the decoded message, with the
same error, and changes no byte outside it; and encoding a struct writes what its
message encodes to. -/
theorem descriptors_agree (b : Bound) (depth : Nat) (hdepth : 3 ≤ depth) (mem : Mem) (a : Int) :
    (∀ frame,
        (Struct.pbDecodeInner b.schema.desc depth false .mqttMessage a mem frame).map (b.structs.mqttMessageView · a) =
          decodeMessage (b.structs.mqttMessageView mem a) frame ∧
        Frame a b.structs.mqttMessage.size mem
          (Struct.pbDecodeInner b.schema.desc depth false .mqttMessage a mem frame).dest) ∧
      ∀ bufsize, Struct.pbEncode b.schema.desc mem depth .mqttMessage a (pbOStreamFromBuffer bufsize) =
        encodeMessage bufsize (b.structs.mqttMessageView mem a) := by
  have hrealizes := mqttMessage_realizes b
  exact ⟨fun frame => ⟨hrealizes.decoded hdepth mem a frame,
    pbDecodeInner_frame b.schema depth false .mqttMessage a mem frame⟩,
    fun bufsize => hrealizes.encode depth hdepth mem a _⟩

/-- A kart status with an unknown field before its number, into memory full of ones. -/
theorem descriptors_agree_layout32 :
    (Struct.pbDecodeInner layout32.schema.desc 3 false .mqttMessage 100 (fun _ => 255)
        [26, 6, 120, 7, 50, 0, 16, 5, 8, 2]).map (structs32.mqttMessageView · 100) =
      .ok ⟨topicKart, false, Timestamp.initZero, .kartStatus ⟨false, 5, 0, 0, 0, true, LatLng.initZero⟩⟩ [] :=
  ((descriptors_agree layout32 3 (Nat.le_refl 3) _ 100).1 _).1.trans rfl

end Layout

end RaceControl.Messages
