import RaceControl.MeshEvents
import RaceControl.MeshRx
import RaceControl.MqttApp

namespace RaceControl.Node

open Memory Esp MeshSend Globals MeshRx MeshEvents MqttApp

/-- Everything a node runs on. The receive task has its local variables once it
has been created. -/
structure NodeState where
  mesh : MeshVars
  rx : Option RxLocals
  mqtt : MqttVars
  mqttTask : MqttTask

inductive NodeEvent
  | mesh (event : MeshEvent)
  | gotIp
  | received (o : Received)
  | mqtt (event : MqttEvent)
  | mqttTask

structure NodeInput where
  event : NodeEvent
  env : Env

/-- What does not change on a node: its role, and what the stack of its receive
task holds when the task starts. -/
structure NodeConfig where
  isRoot : Bool
  rxStack : RxLocals

def nodeInit (mac : MeshAddr) : NodeState := ⟨meshVarsInit mac, none, mqttVarsInit, .none⟩

def ipEventHandler (isRoot : Bool) (env : Env) (vars : MqttVars) : MqttVars × List Call :=
  let (started, calls) := espMeshCommMqttTaskStart env vars
  (started, (if isRoot then [.postToDSState true] else []) ++ .createMutex :: calls)

def rxCall (env : Env) (mesh : MeshVars) (mqtt : MqttVars) : RxCall → List Call
  | .appPublish topic data => mqttAppPublish env.client mqtt topic data
  | .encode _ _ => []
  | .sendRoot data => [.sendRoot mesh.meshRootAddr data (meshSendRoot env.stack mesh.meshRootAddr data)]

/-- A created receive task runs up to its first esp_mesh_recv. -/
def startRx (config : NodeConfig) (calls : List Call) (s : NodeState) : NodeState :=
  if .createTask .meshRx true ∈ calls then
    let entry := rxMainEntry s.mesh config.rxStack
    { s with mesh := entry.vars, rx := some entry.loc }
  else s

def startMqtt (calls : List Call) (s : NodeState) : NodeState :=
  if .createTask .mqtt true ∈ calls then { s with mqttTask := .created } else s

def nodeStep (config : NodeConfig) (s : NodeState) (i : NodeInput) : NodeState × List Call :=
  match i.event with
  | .mesh event =>
      let (mesh, calls) := meshEventHandler config.isRoot i.env s.mesh event
      (startRx config calls { s with mesh := mesh }, calls)
  | .gotIp =>
      let (mqtt, calls) := ipEventHandler config.isRoot i.env s.mqtt
      (startMqtt calls { s with mqtt := mqtt }, calls)
  | .received o =>
      match s.rx with
      | none => (s, [])
      | some loc =>
          let (rx, calls) := rxPass config.isRoot pbEncoder ⟨s.mesh, loc⟩ o
          ({ s with mesh := rx.vars, rx := some rx.loc }, calls.flatMap (rxCall i.env s.mesh s.mqtt))
  | .mqtt event =>
      let (mqtt, calls) := mqttEventProcess i.env s.mqtt event
      ({ s with mqtt := mqtt }, calls)
  | .mqttTask =>
      let (mqtt, task, calls) := espMeshMqttTask i.env s.mqtt s.mqttTask
      ({ s with mqtt := mqtt, mqttTask := task }, calls)

def NodeEvent.root? : NodeEvent → Option MeshAddr
  | .mesh event => event.root?
  | _ => none

def NodeEvent.area : NodeEvent → Area
  | .received _ | .mqtt (.data _) => .traffic
  | .mqtt .connected => .session
  | _ => .node

section Spec

variable (config : NodeConfig) {s : NodeState} (i : NodeInput)

theorem startRx_mesh (calls : List Call) (s : NodeState) :
    ∃ running, (startRx config calls s).mesh = { s.mesh with isRunning := running } ∧
      (s.mesh.isRunning = true → running = true) := by
  by_cases h : Call.createTask .meshRx true ∈ calls
  · refine ⟨true, ?_, fun _ => rfl⟩
    rw [startRx, if_pos h]
    rfl
  · refine ⟨s.mesh.isRunning, ?_, id⟩
    rw [startRx, if_neg h]

theorem startRx_mqtt (calls : List Call) (s : NodeState) : (startRx config calls s).mqtt = s.mqtt := by
  rw [startRx]
  split <;> rfl

theorem startMqtt_mesh (calls : List Call) (s : NodeState) : (startMqtt calls s).mesh = s.mesh := by
  rw [startMqtt]
  split <;> rfl

theorem startMqtt_mqtt (calls : List Call) (s : NodeState) : (startMqtt calls s).mqtt = s.mqtt := by
  rw [startMqtt]
  split <;> rfl

/-- What a step leaves of the variables that decide about frames: the loop keeps
running, the own address stays, and the root address is the last one announced. -/
theorem nodeStep_mesh (hrun : s.mesh.isRunning = true) :
    (nodeStep config s i).1.mesh.isRunning = true ∧
      (nodeStep config s i).1.mesh.meshCurrentAddr = s.mesh.meshCurrentAddr ∧
      (nodeStep config s i).1.mesh.meshRootAddr = i.event.root?.getD s.mesh.meshRootAddr := by
  obtain ⟨event, env⟩ := i
  cases event with
  | mesh event =>
      obtain ⟨running, hm, hr⟩ := startRx_mesh config (meshEventHandler config.isRoot env s.mesh event).2
        { s with mesh := (meshEventHandler config.isRoot env s.mesh event).1 }
      refine ⟨?_, ?_, ?_⟩
      · rw [nodeStep, hm]
        exact hr (by rw [meshEventHandler_running, hrun])
      · rw [nodeStep, hm, meshEventHandler_current]
      · rw [nodeStep, hm, meshEventHandler_root, NodeEvent.root?]
  | gotIp =>
      have hm : (nodeStep config s ⟨.gotIp, env⟩).1.mesh = s.mesh := startMqtt_mesh _ _
      rw [hm]
      exact ⟨hrun, rfl, rfl⟩
  | received o =>
      cases hrx : s.rx with
      | none =>
          have hm : (nodeStep config s ⟨.received o, env⟩).1.mesh = s.mesh := by simp only [nodeStep, hrx]
          rw [hm]
          exact ⟨hrun, rfl, rfl⟩
      | some loc =>
          obtain ⟨tx, hv⟩ := rxPass_vars config.isRoot pbEncoder (s := ⟨s.mesh, loc⟩) hrun o
          have hm : (nodeStep config s ⟨.received o, env⟩).1.mesh =
              { s.mesh with rxBuf := store s.mesh.rxBuf o.frame, txBuf := tx } := by
            simp only [nodeStep, hrx, hv]
          rw [hm]
          exact ⟨hrun, rfl, rfl⟩
  | mqtt event => exact ⟨hrun, rfl, rfl⟩
  | mqttTask => exact ⟨hrun, rfl, rfl⟩

theorem ipEventHandler_area (isRoot : Bool) (env : Env) (vars : MqttVars) :
    ∀ c ∈ (ipEventHandler isRoot env vars).2, c.area = .node := by
  simp only [ipEventHandler, espMeshCommMqttTaskStart]
  split <;> split <;> simp [Call.area]

theorem espMeshMqttTask_area (env : Env) (vars : MqttVars) (task : MqttTask) :
    ∀ c ∈ (espMeshMqttTask env vars task).2.2, c.area = .node := by
  cases task with
  | none | created => simp [espMeshMqttTask, mqttAppStart, Call.area]
  | polling =>
      simp only [espMeshMqttTask]
      split
      · split <;> simp [Call.area]
      · simp

theorem rxCall_area (env : Env) (mesh : MeshVars) (mqtt : MqttVars) (call : RxCall) :
    ∀ c ∈ rxCall env mesh mqtt call, c.area = .traffic := by
  cases call with
  | appPublish topic data =>
      rw [rxCall, mqttAppPublish]
      split <;> simp [Call.area]
  | encode msg status => simp [rxCall]
  | sendRoot data => simp [rxCall, Call.area]

theorem nodeStep_area : ∀ c ∈ (nodeStep config s i).2, c.area = i.event.area := by
  obtain ⟨event, env⟩ := i
  cases event with
  | mesh event => exact meshEventHandler_area config.isRoot env s.mesh event
  | gotIp => exact ipEventHandler_area config.isRoot env s.mqtt
  | received o =>
      simp only [nodeStep]
      split
      · exact fun c hc => absurd hc List.not_mem_nil
      · intro c hc
        obtain ⟨call, _, hcall⟩ := List.mem_flatMap.mp hc
        exact rxCall_area env s.mesh s.mqtt call c hcall
  | mqtt event =>
      cases event with
      | connected =>
          simp only [nodeStep, mqttEventProcess]
          split <;> simp [Call.area, NodeEvent.area]
      | data event => simp [nodeStep, mqttEventProcess, Call.area, NodeEvent.area]
      | _ => exact fun c hc => absurd hc List.not_mem_nil
  | mqttTask => exact espMeshMqttTask_area env s.mqtt s.mqttTask

theorem nodeStep_received (hrun : s.mesh.isRunning = true) (o : Received) (env : Env) :
    (nodeStep config s ⟨.received o, env⟩).2 =
      if s.rx.isSome then (frameCalls config.isRoot pbEncoder s.mesh o).flatMap (rxCall env s.mesh s.mqtt)
      else [] := by
  cases hrx : s.rx with
  | none => simp [nodeStep, hrx]
  | some loc => simp [nodeStep, hrx, rxPass_calls config.isRoot pbEncoder (s := ⟨s.mesh, loc⟩) hrun]

/-- A track message is answered on a leaf, once, and nothing else is. -/
theorem leaf_received (hrun : s.mesh.isRunning = true) (rxStack : RxLocals) (o : Received) (env : Env) :
    (nodeStep ⟨false, rxStack⟩ s ⟨.received o, env⟩).2 =
      if s.rx.isSome ∧ OnTopic s.mesh.meshCurrentAddr Messages.topicTrack o then
        [.sendRoot s.mesh.meshRootAddr (replyData pbEncoder s.mesh)
          (meshSendRoot env.stack s.mesh.meshRootAddr (replyData pbEncoder s.mesh))]
      else [] := by
  rw [nodeStep_received _ hrun, frameCalls_leaf]
  by_cases ht : OnTopic s.mesh.meshCurrentAddr Messages.topicTrack o
  · simp [ht, replyCalls, kartStatus_bytes, rxCall]
  · simp [ht]

/-- A kart message is published at the root, once, on its sender's topic, and
nothing else is. -/
theorem root_received (hrun : s.mesh.isRunning = true) (rxStack : RxLocals) (o : Received) (env : Env) :
    (nodeStep ⟨true, rxStack⟩ s ⟨.received o, env⟩).2 =
      if s.rx.isSome ∧ OnTopic s.mesh.meshCurrentAddr Messages.topicKart o then
        mqttAppPublish env.client s.mqtt (Topic.kartTopic o.sender) (store s.mesh.rxBuf o.frame).cells
      else [] := by
  rw [nodeStep_received _ hrun, frameCalls_root]
  by_cases hk : OnTopic s.mesh.meshCurrentAddr Messages.topicKart o
  · simp [hk, rxCall]
  · simp [hk]

end Spec

end RaceControl.Node
