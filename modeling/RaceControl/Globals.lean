import RaceControl.MeshSend
import RaceControl.Messages
import RaceControl.Topic

namespace RaceControl.Globals

open Memory Esp MeshSend

/-- The static variables of mesh.cpp, with the latch of esp_mesh_comm_start. The
station interface is recorded as present or missing. -/
structure MeshVars where
  txBuf : Block UInt8 txSize
  rxBuf : Block UInt8 rxSize
  isRunning : Bool
  isMeshConnected : Bool
  meshRootAddr : MeshAddr
  meshParentAddr : MeshAddr
  meshCurrentAddr : MeshAddr
  meshLayer : Int
  netifSta : Bool
  isCommStarted : Bool

/-- The static variables of mqtt_app.cpp, with the latch of its task start. The
client handle is recorded as set or null. Declared in a header, is_running is a
variable of its own here. -/
structure MqttVars where
  isRunning : Bool
  mqttHandle : Bool
  isMqttConnected : Bool
  isCommMqttTaskStarted : Bool
  deriving DecidableEq

/-- The state initialize_wifi leaves: static initial values, the station
interface created and its MAC read. -/
def meshVarsInit (mac : MeshAddr) : MeshVars where
  txBuf := fill txSize 0
  rxBuf := fill rxSize 0
  isRunning := true
  isMeshConnected := false
  meshRootAddr := zeroAddr
  meshParentAddr := zeroAddr
  meshCurrentAddr := mac
  meshLayer := -1
  netifSta := true
  isCommStarted := false

def mqttVarsInit : MqttVars := ⟨true, false, false, false⟩

inductive Task
  | meshRx | mqtt
  deriving DecidableEq, Repr

/-- What esp_mqtt_client_publish is asked to send. The payload is missing when
its length was looked for past the end of the memory it was given. -/
structure Publication where
  topic : String
  payload : Option (List UInt8)
  qos : Nat
  retain : Bool
  deriving DecidableEq

/-- The calls by which a node acts on the system around it, with their results
where the node or the environment can see them. -/
inductive Call
  | createTask (task : Task) (created : Bool)
  | startReturned (task : Task) (ret : EspErr)
  | dhcpcStop
  | dhcpcStart
  | postToDSState (reachable : Bool)
  | createMutex
  | clientStart
  | subscribe (topic : String) (msgId : Int)
  | disconnect
  | reconnect
  | publish (publication : Publication)
  | sendRoot (dest : MeshAddr) (data : MeshData) (result : SendResult)
  | broadcast (data : MeshData) (result : SendResult)
  deriving DecidableEq

/-- What a call acts on: the node itself, its session with the broker, or the
traffic on the mesh and to the broker. -/
inductive Area
  | node | session | traffic
  deriving DecidableEq

def Call.area : Call → Area
  | .subscribe _ _ | .disconnect => .session
  | .publish _ | .sendRoot _ _ _ | .broadcast _ _ => .traffic
  | _ => .node

/-- The client library, by the payload it reads from the memory it is given. A
length of zero stands for the length of the string there, which has none when no
terminator ends it. -/
structure MqttClient where
  payload : List UInt8 → Nat → Option (List UInt8)
  payload_zero : ∀ data, payload data 0 = scan 0 data

def MqttClient.strlen : MqttClient where
  payload data len := if len = 0 then scan 0 data else some (data.take len)
  payload_zero _ := rfl

/-- What the calls made while one event is handled return. -/
structure Env where
  createTask : Bool
  getLayer : Int
  clientInit : Bool
  subscribe : Int
  stack : MeshStack
  client : MqttClient

def Env.allOk : Env := ⟨true, 1, true, 0, ⟨fun _ => (espOk, []), fun _ _ _ => espOk⟩, .strlen⟩

end RaceControl.Globals
