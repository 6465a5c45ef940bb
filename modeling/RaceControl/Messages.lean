import RaceControl.Nanopb.Capacity

namespace RaceControl.Messages

open Nanopb

structure LatLng where
  latitude : UInt64
  longitude : UInt64
  deriving DecidableEq

structure Kart where
  isKartConnected : Bool
  kartId : Int32
  control : UInt32
  speed : UInt32
  steeringAngle : UInt32
  hasPosition : Bool
  position : LatLng
  deriving DecidableEq

structure Track where
  allowedControl : UInt32
  flagState : UInt32
  deriving DecidableEq

structure Timestamp where
  seconds : Int64
  nanos : Int32
  deriving DecidableEq

inductive Payload
  | none
  | kartStatus (kart : Kart)
  | trackStatus (track : Track)
  deriving DecidableEq

/-- Enumerations hold the number that was read, which need not be a declared value. -/
structure MQTTMessage where
  topic : UInt32
  hasTimestamp : Bool
  timestamp : Timestamp
  payload : Payload
  deriving DecidableEq

def topicUndefined : UInt32 := 0
def topicTrack : UInt32 := 1
def topicKart : UInt32 := 2

def controlAuto : UInt32 := 2

def LatLng.initZero : LatLng := ⟨0, 0⟩

def Kart.initZero : Kart := ⟨false, 0, 0, 0, 0, false, LatLng.initZero⟩

def Track.initZero : Track := ⟨0, 0⟩

def Timestamp.initZero : Timestamp := ⟨0, 0⟩

def MQTTMessage.initZero : MQTTMessage := ⟨topicUndefined, false, Timestamp.initZero, .none⟩

def MQTTMessage.initDefault : MQTTMessage := ⟨topicUndefined, false, Timestamp.initZero, .none⟩

def Payload.whichPayload : Payload → Nat
  | .none => 0
  | .kartStatus _ => 3
  | .trackStatus _ => 4

def kartStatusTag : Nat := 3
def trackStatusTag : Nat := 4

def Payload.kart? : Payload → Option Kart
  | .kartStatus kart => some kart
  | _ => Option.none

def Payload.track? : Payload → Option Track
  | .trackStatus track => some track
  | _ => Option.none

def latLngMsg : List (PbField LatLng) :=
  [singular 1 .double LatLng.latitude (fun v m => { m with latitude := v }),
   singular 2 .double LatLng.longitude (fun v m => { m with longitude := v })]

def kartMsg : List (PbField Kart) :=
  [singular 1 .bool Kart.isKartConnected (fun v m => { m with isKartConnected := v }),
   singular 2 .int32 Kart.kartId (fun v m => { m with kartId := v }),
   singular 3 .uenum Kart.control (fun v m => { m with control := v }),
   singular 4 .float Kart.speed (fun v m => { m with speed := v }),
   singular 5 .float Kart.steeringAngle (fun v m => { m with steeringAngle := v }),
   optional 6 latLngMsg Kart.hasPosition (fun v m => { m with hasPosition := v })
     Kart.position (fun v m => { m with position := v })]

def trackMsg : List (PbField Track) :=
  [singular 1 .uenum Track.allowedControl (fun v m => { m with allowedControl := v }),
   singular 2 .uenum Track.flagState (fun v m => { m with flagState := v })]

def timestampMsg : List (PbField Timestamp) :=
  [singular 1 .int64 Timestamp.seconds (fun v m => { m with seconds := v }),
   singular 2 .int32 Timestamp.nanos (fun v m => { m with nanos := v })]

def mqttMessageMsg : List (PbField MQTTMessage) :=
  [singular 1 .uenum MQTTMessage.topic (fun v m => { m with topic := v }),
   optional 2 timestampMsg MQTTMessage.hasTimestamp (fun v m => { m with hasTimestamp := v })
     MQTTMessage.timestamp (fun v m => { m with timestamp := v }),
   oneof 3 kartMsg Kart.initZero (fun m => { m with payload := .none })
     (fun m => m.payload.kart?) (fun v m => { m with payload := .kartStatus v }),
   oneof 4 trackMsg Track.initZero (fun m => { m with payload := .none })
     (fun m => m.payload.track?) (fun v m => { m with payload := .trackStatus v })]

def decodeMessage (dest : MQTTMessage) (frame : List UInt8) : Decoded MQTTMessage :=
  pbDecode mqttMessageMsg dest frame

def encodeMessage (bufsize : Nat) (src : MQTTMessage) : Encoded :=
  pbEncode mqttMessageMsg src (pbOStreamFromBuffer bufsize)

def readMessage (frame : List UInt8) : Option MQTTMessage :=
  match decodeMessage MQTTMessage.initDefault frame with
  | .ok msg _ => some msg
  | .fail _ _ => Option.none

theorem defaults_mqttMessage (dest : MQTTMessage) :
    pbMessageSetToDefaults mqttMessageMsg dest = MQTTMessage.initDefault := rfl

theorem decodeMessage_dest (dest dest' : MQTTMessage) (frame : List UInt8) :
    decodeMessage dest frame = decodeMessage dest' frame := by
  rw [decodeMessage, decodeMessage, pbDecode, pbDecode, defaults_mqttMessage, defaults_mqttMessage]

theorem encodeMessage_stored (bufsize : Nat) (src : MQTTMessage) :
    (encodeMessage bufsize src).stream.Stored [] ∧
      (encodeMessage bufsize src).stream.maxSize = bufsize :=
  pbEncode_stores mqttMessageMsg src (pbOStreamFromBuffer bufsize) [] (stored_fresh bufsize)

theorem latLngMsg_bounded (src : LatLng) : Bounded 40 (pbEncode latLngMsg src) :=
  pbEncode_bounded_cons (singular_bounded _ _ _ _ src) <|
  pbEncode_bounded_cons (singular_bounded _ _ _ _ src) (pbEncode_bounded_nil src)

theorem kartMsg_bounded (src : Kart) : Bounded 160 (pbEncode kartMsg src) :=
  pbEncode_bounded_cons (singular_bounded _ _ _ _ src) <|
  pbEncode_bounded_cons (singular_bounded _ _ _ _ src) <|
  pbEncode_bounded_cons (singular_bounded _ _ _ _ src) <|
  pbEncode_bounded_cons (singular_bounded _ _ _ _ src) <|
  pbEncode_bounded_cons (singular_bounded _ _ _ _ src) <|
  pbEncode_bounded_cons (optional_bounded latLngMsg_bounded _ _ _ _ _ src) (pbEncode_bounded_nil src)

theorem trackMsg_bounded (src : Track) : Bounded 40 (pbEncode trackMsg src) :=
  pbEncode_bounded_cons (singular_bounded _ _ _ _ src) <|
  pbEncode_bounded_cons (singular_bounded _ _ _ _ src) (pbEncode_bounded_nil src)

theorem timestampMsg_bounded (src : Timestamp) : Bounded 40 (pbEncode timestampMsg src) :=
  pbEncode_bounded_cons (singular_bounded _ _ _ _ src) <|
  pbEncode_bounded_cons (singular_bounded _ _ _ _ src) (pbEncode_bounded_nil src)

theorem mqttMessageMsg_bounded (src : MQTTMessage) : Bounded 320 (pbEncode mqttMessageMsg src) :=
  pbEncode_bounded_cons (singular_bounded _ _ _ _ src) <|
  pbEncode_bounded_cons (optional_bounded timestampMsg_bounded _ _ _ _ _ src) <|
  pbEncode_bounded_cons (oneof_bounded kartMsg_bounded _ _ _ _ _ src) <|
  pbEncode_bounded_cons (oneof_bounded trackMsg_bounded _ _ _ _ _ src) (pbEncode_bounded_nil src)

/-- No message of the schema is too long for a buffer of 320 bytes. -/
theorem encodeMessage_succeeds {bufsize : Nat} (h : 320 ≤ bufsize) (src : MQTTMessage) :
    (encodeMessage bufsize src).error = none :=
  pbEncode_succeeds (mqttMessageMsg_bounded src) h

end RaceControl.Messages
