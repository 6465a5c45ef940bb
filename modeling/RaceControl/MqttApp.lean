import RaceControl.Globals

namespace RaceControl.MqttApp

open Memory Esp MeshSend Globals Topic

def espMqttClientPublish (client : MqttClient) (topic : String) (data : List UInt8) (len qos : Nat)
    (retain : Bool) : Publication :=
  ⟨topic, client.payload data len, qos, retain⟩

def mqttAppPublish (client : MqttClient) (vars : MqttVars) (topic : String) (publishString : List UInt8) : List Call :=
  if vars.mqttHandle then [.publish (espMqttClientPublish client topic publishString 0 1 false)] else []

theorem espMqttClientPublish_string (client : MqttClient) (topic : String) (data : List UInt8) (qos : Nat)
    (retain : Bool) : espMqttClientPublish client topic data 0 qos retain = ⟨topic, scan 0 data, qos, retain⟩ := by
  rw [espMqttClientPublish, client.payload_zero]

structure DataEvent where
  data : List UInt8
  dataLen : Int
  currentDataOffset : Int
  totalDataLen : Int
  deriving DecidableEq

inductive MqttEvent
  | connected
  | disconnected
  | subscribed (msgId : Int) (accepted : Bool)
  | unsubscribed (msgId : Int)
  | published (msgId : Int)
  | data (event : DataEvent)
  | error
  | other (id : Int)
  deriving DecidableEq

def mqttEventProcess (env : Env) (vars : MqttVars) : MqttEvent → MqttVars × List Call
  | .connected =>
      let vars := { vars with isMqttConnected := true }
      if env.subscribe < 0 then (vars, [.subscribe mqttTrackTopic env.subscribe, .disconnect])
      else (vars, [.subscribe mqttTrackTopic env.subscribe])
  | .disconnected => ({ vars with isMqttConnected := false }, [])
  | .subscribed _ _ | .unsubscribed _ | .published _ => (vars, [])
  | .data event =>
      let data : MeshData := ⟨event.data, UInt16.ofInt event.dataLen, .mqtt, .p2p⟩
      (vars, [.broadcast data (meshBroadcast env.stack data)])
  | .error => (vars, [])
  | .other _ => (vars, [])

def mqttAppStart (env : Env) (vars : MqttVars) : MqttVars × List Call :=
  ({ vars with mqttHandle := env.clientInit }, [.clientStart])

/-- Where the MQTT task is: not created, created but not entered, in its loop. -/
inductive MqttTask
  | none | created | polling
  deriving DecidableEq

def espMeshMqttTask (env : Env) (vars : MqttVars) : MqttTask → MqttVars × MqttTask × List Call
  | .none => (vars, .none, [])
  | .created =>
      let (vars, calls) := mqttAppStart env { vars with isRunning := true }
      (vars, .polling, calls)
  | .polling =>
      if vars.isRunning then
        if vars.isMqttConnected then (vars, .polling, []) else (vars, .polling, [.reconnect])
      else (vars, .none, [])

def espMeshCommMqttTaskStart (env : Env) (vars : MqttVars) : MqttVars × List Call :=
  if vars.isCommMqttTaskStarted then (vars, [.startReturned .mqtt espOk])
  else
    ({ vars with isCommMqttTaskStarted := true },
      [.createTask .mqtt env.createTask, .startReturned .mqtt espOk])

end RaceControl.MqttApp
