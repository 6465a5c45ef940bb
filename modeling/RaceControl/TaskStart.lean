import RaceControl.Library.StartOnce
import RaceControl.Node

namespace RaceControl.TaskStart

open Machine Esp Globals MeshEvents MqttApp Node StartOnce

def latched : Task → NodeState → Bool
  | .meshRx, s => s.mesh.isCommStarted
  | .mqtt, s => s.mqtt.isCommMqttTaskStarted

def running : Task → NodeState → Bool
  | .meshRx, s => s.rx.isSome
  | .mqtt, s => s.mqttTask ≠ .none

def starts : NodeEvent → Option Task
  | .mesh (.parentConnected _ _) => some .meshRx
  | .gotIp => some .mqtt
  | _ => none

def request (task : Task) (i : NodeInput) : Option Bool :=
  if starts i.event = some task then some i.env.createTask else none

def latchOf (task : Task) (s : NodeState) : Latch := ⟨latched task s, running task s⟩

def startOutput (task : Task) : Call → Option Output
  | .createTask t created => if t = task then some (.created created) else none
  | .startReturned t ret => if t = task ∧ ret = espOk then some .returned else none
  | _ => none

/-- At most one task of each kind is created, and a start that reports success
leaves its task existing. -/
structure TasksStarted (config : NodeConfig) (s : NodeState) (run : List NodeInput) : Prop where
  once : ∀ task, (trace (nodeStep config) s run).count (.createTask task true) ≤ 1
  exist : ∀ task, Along (nodeStep config)
    (fun s i => .startReturned task espOk ∈ (nodeStep config s i).2 →
      running task (nodeStep config s i).1 = true) s run

variable {config : NodeConfig} {s : NodeState} {i : NodeInput}

theorem mqttEventProcess_task (env : Env) (vars : MqttVars) (event : MqttEvent) :
    (mqttEventProcess env vars event).1.isRunning = vars.isRunning ∧
      (mqttEventProcess env vars event).1.isCommMqttTaskStarted = vars.isCommMqttTaskStarted := by
  cases event with
  | connected =>
      simp only [mqttEventProcess]
      split <;> exact ⟨rfl, rfl⟩
  | _ => exact ⟨rfl, rfl⟩

theorem mqttEventProcess_starts (task : Task) (env : Env) (vars : MqttVars) (event : MqttEvent) :
    (mqttEventProcess env vars event).2.filterMap (startOutput task) = [] := by
  cases event with
  | connected =>
      simp only [mqttEventProcess]
      split <;> rfl
  | _ => rfl

theorem rxCall_starts (task : Task) (env : Env) (mesh : MeshVars) (mqtt : MqttVars) (c : MeshRx.RxCall) :
    (rxCall env mesh mqtt c).filterMap (startOutput task) = [] := by
  cases c with
  | appPublish topic data =>
      simp only [rxCall, mqttAppPublish]
      split <;> rfl
  | _ => rfl

theorem espMeshMqttTask_task (env : Env) (vars : MqttVars) (task : MqttTask) (hrun : vars.isRunning = true) :
    (espMeshMqttTask env vars task).1.isRunning = true ∧
      (espMeshMqttTask env vars task).1.isCommMqttTaskStarted = vars.isCommMqttTaskStarted ∧
      ((espMeshMqttTask env vars task).2.1 = .none ↔ task = .none) ∧
      ∀ t, (espMeshMqttTask env vars task).2.2.filterMap (startOutput t) = [] := by
  cases task with
  | none => exact ⟨hrun, rfl, Iff.rfl, fun _ => rfl⟩
  | created => exact ⟨rfl, rfl, by simp [espMeshMqttTask], fun _ => rfl⟩
  | polling =>
      simp only [espMeshMqttTask, hrun, if_true]
      split <;> exact ⟨hrun, rfl, by simp, fun _ => rfl⟩

theorem restartDhcpc_starts (task : Task) (isRoot : Bool) (vars : MeshVars) :
    (restartDhcpc isRoot vars).filterMap (startOutput task) = [] := by
  rw [restartDhcpc]
  split
  · split <;> rfl
  · rfl

theorem mem_restartDhcpc (t : Task) (c isRoot : Bool) (vars : MeshVars) :
    Call.createTask t c ∉ restartDhcpc isRoot vars := by
  rw [restartDhcpc]
  split
  · split <;> simp
  · simp

def LatchStep (config : NodeConfig) (task : Task) (s : NodeState) (i : NodeInput) : Prop :=
  latchOf task (nodeStep config s i).1 = (step (latchOf task s) (request task i)).1 ∧
    (nodeStep config s i).2.filterMap (startOutput task) = (step (latchOf task s) (request task i)).2

theorem parentConnected_latchStep (task : Task) (selfLayer : UInt16) (bssid : MeshAddr) (env : Env) :
    LatchStep config task s ⟨.mesh (.parentConnected selfLayer bssid), env⟩ := by
  cases hl : s.mesh.isCommStarted <;> cases hc : env.createTask <;> cases task <;>
    simp [LatchStep, nodeStep, meshEventHandler, espMeshCommStart, hl, hc, startRx, mem_restartDhcpc,
      restartDhcpc_starts, latchOf, latched, running, request, starts, step, startOutput, MeshRx.rxMainEntry]

theorem gotIp_latchStep (task : Task) (env : Env) : LatchStep config task s ⟨.gotIp, env⟩ := by
  cases hl : s.mqtt.isCommMqttTaskStarted <;> cases hc : env.createTask <;> cases hr : config.isRoot <;>
    cases task <;>
    simp [LatchStep, nodeStep, ipEventHandler, espMeshCommMqttTaskStart, hl, hc, hr, startMqtt, latchOf,
      latched, running, request, starts, step, startOutput, List.filterMap_cons]

theorem meshEvent_latchStep (task : Task) (event : MeshEvent) (env : Env) :
    LatchStep config task s ⟨.mesh event, env⟩ := by
  cases event with
  | parentConnected selfLayer bssid => exact parentConnected_latchStep task selfLayer bssid env
  | _ => cases task <;> exact ⟨rfl, rfl⟩

theorem received_latchStep (task : Task) (o : MeshRx.Received) (env : Env) (hrun : s.mesh.isRunning = true) :
    LatchStep config task s ⟨.received o, env⟩ := by
  have hreq : request task ⟨.received o, env⟩ = none := rfl
  rw [LatchStep, hreq]
  cases hrx : s.rx with
  | none => simp [nodeStep, hrx, step]
  | some loc =>
      obtain ⟨tx, hv⟩ := MeshRx.rxPass_vars config.isRoot MeshRx.pbEncoder (s := ⟨s.mesh, loc⟩)
        hrun o
      constructor
      · cases task with
        | meshRx => simp [nodeStep, hrx, hv, latchOf, latched, running, step]
        | mqtt => simp [nodeStep, hrx, latchOf, latched, running, step]
      · simp [nodeStep, hrx, List.filterMap_flatMap, rxCall_starts, step]

theorem mqttEvent_latchStep (task : Task) (event : MqttEvent) (env : Env) :
    LatchStep config task s ⟨.mqtt event, env⟩ := by
  have hreq : request task ⟨.mqtt event, env⟩ = none := rfl
  rw [LatchStep, hreq]
  refine ⟨?_, mqttEventProcess_starts task env s.mqtt event⟩
  cases task with
  | meshRx => rfl
  | mqtt => exact congrArg (Latch.mk · _) (mqttEventProcess_task env s.mqtt event).2

theorem mqttTask_latchStep (task : Task) (env : Env) (hrun : s.mqtt.isRunning = true) :
    LatchStep config task s ⟨.mqttTask, env⟩ := by
  obtain ⟨-, hl, hn, hc⟩ := espMeshMqttTask_task env s.mqtt s.mqttTask hrun
  have hreq : request task ⟨.mqttTask, env⟩ = none := rfl
  rw [LatchStep, hreq]
  refine ⟨?_, hc task⟩
  cases task with
  | meshRx => rfl
  | mqtt => simp [nodeStep, latchOf, latched, running, step, hl, hn]

def LoopsRun (s : NodeState) : Prop := s.mesh.isRunning = true ∧ s.mqtt.isRunning = true

theorem nodeStep_loopsRun (h : LoopsRun s) : LoopsRun (nodeStep config s i).1 := by
  refine ⟨(nodeStep_mesh config i h.1).1, ?_⟩
  obtain ⟨event, env⟩ := i
  cases event with
  | mesh event =>
      simp only [nodeStep, startRx]
      split <;> exact h.2
  | gotIp =>
      have hm : (nodeStep config s ⟨.gotIp, env⟩).1.mqtt = (espMeshCommMqttTaskStart env s.mqtt).1 :=
        startMqtt_mqtt _ _
      rw [hm, espMeshCommMqttTaskStart]
      split <;> exact h.2
  | received o =>
      simp only [nodeStep]
      split <;> exact h.2
  | mqtt event => exact (mqttEventProcess_task env s.mqtt event).1.trans h.2
  | mqttTask => exact (espMeshMqttTask_task env s.mqtt s.mqttTask h.2).1

theorem nodeStep_simulates (config : NodeConfig) (task : Task) :
    Simulates (nodeStep config) step LoopsRun (latchOf task) (request task) (startOutput task) := by
  rintro s ⟨event, env⟩ h
  refine ⟨nodeStep_loopsRun h, ?_⟩
  cases event with
  | mesh event => exact meshEvent_latchStep task event env
  | gotIp => exact gotIp_latchStep task env
  | received o => exact received_latchStep task o env h.1
  | mqtt event => exact mqttEvent_latchStep task event env
  | mqttTask => exact mqttTask_latchStep task env h.2

theorem created_count (task : Task) (calls : List Call) :
    (calls.filterMap (startOutput task)).count (.created true) = calls.count (.createTask task true) := by
  rw [List.count, List.count, List.countP_filterMap]
  congr 1
  funext c
  cases c with
  | createTask t created => by_cases ht : t = task <;> simp [startOutput, ht]
  | startReturned t ret => by_cases ht : t = task ∧ ret = espOk <;> simp [startOutput, ht]
  | _ => rfl

theorem returned_mem (task : Task) (calls : List Call) :
    .returned ∈ calls.filterMap (startOutput task) ↔ .startReturned task espOk ∈ calls := by
  rw [List.mem_filterMap]
  constructor
  · rintro ⟨c, hc, ho⟩
    cases c with
    | createTask t created => by_cases ht : t = task <;> simp [startOutput, ht] at ho
    | startReturned t ret =>
        by_cases ht : t = task ∧ ret = espOk
        · obtain ⟨rfl, rfl⟩ := ht
          exact hc
        · simp [startOutput, ht] at ho
    | _ => cases ho
  · intro h
    exact ⟨_, h, by simp [startOutput]⟩

theorem latchOf_init (task : Task) (mac : MeshAddr) : latchOf task (nodeInit mac) = unset := by
  cases task <;> rfl

theorem tasks_exist_iff (config : NodeConfig) (mac : MeshAddr) (task : Task) (run : List NodeInput) :
    Along (nodeStep config)
        (fun s i => .startReturned task espOk ∈ (nodeStep config s i).2 →
          running task (nodeStep config s i).1 = true) (nodeInit mac) run ↔
      firstStart (run.map (request task)) ≠ some false := by
  rw [← honest_iff, ← latchOf_init task mac]
  refine (nodeStep_simulates config task).along ?_ ⟨rfl, rfl⟩ run
  intro s i h
  obtain ⟨-, hview, hout⟩ := nodeStep_simulates config task s i h
  rw [Honest, ← hview, ← hout, returned_mem]
  rfl

/-- Tasks are never created twice, and they are all started exactly when the
first creation of each succeeds. -/
theorem tasks_started_iff (config : NodeConfig) (mac : MeshAddr) (run : List NodeInput) :
    TasksStarted config (nodeInit mac) run ↔ ∀ task, firstStart (run.map (request task)) ≠ some false := by
  constructor
  · intro h task
    exact (tasks_exist_iff config mac task run).mp (h.exist task)
  · intro h
    refine ⟨?_, fun task => (tasks_exist_iff config mac task run).mpr (h task)⟩
    intro task
    rw [← created_count, (nodeStep_simulates config task).trace ⟨rfl, rfl⟩]
    exact created_le_one _ _

/-- The creation of the receive task fails, and its start reports success. -/
theorem failed_start_reports_ok :
    ¬ TasksStarted ⟨false, MeshRx.RxLocals.initZero⟩ (nodeInit zeroAddr)
      [⟨.mesh (.parentConnected 2 ⟨1, 2, 3, 4, 5, 6⟩), { Env.allOk with createTask := false }⟩] := by
  intro h
  have hrx := (h.exist .meshRx).1 (by decide +kernel)
  exact absurd hrx (by decide +kernel)

end RaceControl.TaskStart
