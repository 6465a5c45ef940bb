import RaceControl.Library.History
import RaceControl.TaskStart

namespace RaceControl.Lifecycle

open Machine History Esp Globals Topic MeshRx MeshEvents MqttApp Node TaskStart

/-- What a call rests on: the calls the node has to have made before it. -/
def Ordered (config : NodeConfig) (past : List Call) : Call → Prop
  | .createTask task _ => ∀ created, .createTask task created ∉ past
  | .startReturned task _ => ∃ created, .createTask task created ∈ past
  | .clientStart => .createTask .mqtt true ∈ past ∧ .clientStart ∉ past
  | .reconnect => .clientStart ∈ past
  | .subscribe topic _ => topic = mqttTrackTopic
  | .disconnect => ∃ msgId < 0, past.getLast? = some (.subscribe mqttTrackTopic msgId)
  | .publish _ => config.isRoot = true ∧ .clientStart ∈ past ∧ .createTask .meshRx true ∈ past
  | .sendRoot _ _ _ => config.isRoot = false ∧ .createTask .meshRx true ∈ past
  | .dhcpcStop | .postToDSState _ => config.isRoot = true
  | .dhcpcStart => config.isRoot = true ∧ past.getLast? = some .dhcpcStop
  | .createMutex | .broadcast _ _ => True

/-- What a node has started so far. -/
structure Phase where
  rxLatched : Bool
  rxRunning : Bool
  mqttLatched : Bool
  mqttTask : MqttTask
  mqttHandle : Bool
  netifSta : Bool

def phase (s : NodeState) : Phase :=
  ⟨s.mesh.isCommStarted, s.rx.isSome, s.mqtt.isCommMqttTaskStarted, s.mqttTask, s.mqtt.mqttHandle, s.mesh.netifSta⟩

/-- The phase of a node is what its calls have brought about. -/
structure Began (past : List Call) (p : Phase) : Prop where
  rxLatched : p.rxLatched = true ↔ ∃ created, .createTask .meshRx created ∈ past
  rxRunning : p.rxRunning = true ↔ .createTask .meshRx true ∈ past
  mqttLatched : p.mqttLatched = true ↔ ∃ created, .createTask .mqtt created ∈ past
  mqttCreated : p.mqttTask ≠ .none ↔ .createTask .mqtt true ∈ past
  polling : p.mqttTask = .polling ↔ .clientStart ∈ past
  handle : p.mqttHandle = true → p.mqttTask = .polling
  netifSta : p.netifSta = true

def isStart : Call → Bool
  | .createTask _ _ | .clientStart => true
  | _ => false

section Steps

variable {config : NodeConfig} {s : NodeState} {past : List Call}

theorem began_init (mac : MeshAddr) : Began [] (phase (nodeInit mac)) := by
  constructor <;> simp [phase, nodeInit, meshVarsInit, mqttVarsInit]

theorem Began.quiet {p : Phase} (h : Began past p) {calls : List Call} (hcalls : ∀ c ∈ calls, isStart c = false) :
    Began (past ++ calls) p := by
  have hmem : ∀ c, isStart c = true → (c ∈ past ++ calls ↔ c ∈ past) := by
    intro c hc
    rw [List.mem_append, or_iff_left]
    intro hmem
    rw [hcalls c hmem] at hc
    cases hc
  have hcreate : ∀ task created, Call.createTask task created ∈ past ++ calls ↔ .createTask task created ∈ past :=
    fun task created => hmem _ rfl
  have hclient : Call.clientStart ∈ past ++ calls ↔ .clientStart ∈ past := hmem _ rfl
  constructor
  · simpa only [hcreate] using h.rxLatched
  · simpa only [hcreate] using h.rxRunning
  · simpa only [hcreate] using h.mqttLatched
  · simpa only [hcreate] using h.mqttCreated
  · simpa only [hclient] using h.polling
  · exact h.handle
  · exact h.netifSta

/-- What one event does to the phase of a node, and that its calls come in order. -/
def InOrder (config : NodeConfig) (past : List Call) (s : NodeState) (i : NodeInput) : Prop :=
  Began (past ++ (nodeStep config s i).2) (phase (nodeStep config s i).1) ∧
    Follows (Ordered config) past (nodeStep config s i).2

theorem inOrder_quiet {i : NodeInput} (h : Began past (phase s))
    (hphase : phase (nodeStep config s i).1 = phase s)
    (hcalls : ∀ c ∈ (nodeStep config s i).2, isStart c = false)
    (hfollows : Follows (Ordered config) past (nodeStep config s i).2) : InOrder config past s i := by
  refine ⟨?_, hfollows⟩
  rw [hphase]
  exact h.quiet hcalls

theorem inOrder_idle {i : NodeInput} (h : Began past (phase s)) (hstep : nodeStep config s i = (s, [])) :
    InOrder config past s i := by
  rw [InOrder, hstep]
  exact ⟨by simpa using h, trivial⟩

theorem Began.startRx {p : Phase} (h : Began past p) (created : Bool) :
    Began (past ++ [.createTask .meshRx created]) { p with rxLatched := true, rxRunning := p.rxRunning || created } where
  rxLatched := by simp
  rxRunning := by cases created <;> simp [h.rxRunning]
  mqttLatched := by simp [h.mqttLatched]
  mqttCreated := by simp [h.mqttCreated]
  polling := by simp [h.polling]
  handle := h.handle
  netifSta := h.netifSta

theorem Began.startMqtt {p : Phase} (h : Began past p) (hfirst : p.mqttLatched = false) (created : Bool) :
    Began (past ++ [.createTask .mqtt created])
      { p with mqttLatched := true, mqttTask := if created then .created else p.mqttTask } := by
  have hnone : p.mqttTask = .none := by
    by_contra hne
    have hlatched := h.mqttLatched.mpr ⟨true, h.mqttCreated.mp hne⟩
    rw [hfirst] at hlatched
    cases hlatched
  have hclient : Call.clientStart ∉ past := fun hmem => by
    have hpolling := h.polling.mpr hmem
    rw [hnone] at hpolling
    cases hpolling
  have hcreated : Call.createTask .mqtt true ∉ past := fun hmem => h.mqttCreated.mpr hmem hnone
  have hhandle : p.mqttHandle = false := by
    cases hh : p.mqttHandle with
    | false => rfl
    | true =>
        have hpolling := h.handle hh
        rw [hnone] at hpolling
        cases hpolling
  constructor
  · simp [h.rxLatched]
  · simp [h.rxRunning]
  · simp
  · cases created <;> simp [hnone, hcreated]
  · cases created <;> simp [hnone, hclient]
  · simp [hhandle]
  · exact h.netifSta

theorem Began.startClient {p : Phase} (h : Began past p) (hcreated : p.mqttTask = .created) (handle : Bool) :
    Began (past ++ [.clientStart]) { p with mqttTask := .polling, mqttHandle := handle } where
  rxLatched := by simp [h.rxLatched]
  rxRunning := by simp [h.rxRunning]
  mqttLatched := by simp [h.mqttLatched]
  mqttCreated := by simpa using h.mqttCreated.mp (by simp [hcreated])
  polling := by simp
  handle := fun _ => rfl
  netifSta := h.netifSta

theorem nodeStep_parentConnected (config : NodeConfig) (hn : s.mesh.netifSta = true) (selfLayer : UInt16)
    (bssid : MeshAddr) (env : Env) :
    (nodeStep config s ⟨.mesh (.parentConnected selfLayer bssid), env⟩).2 =
        (if config.isRoot then [.dhcpcStop, .dhcpcStart] else []) ++
          (if s.mesh.isCommStarted then [] else [.createTask .meshRx env.createTask]) ++
          [.startReturned .meshRx espOk] ∧
      phase (nodeStep config s ⟨.mesh (.parentConnected selfLayer bssid), env⟩).1 =
        if s.mesh.isCommStarted then phase s else
          { phase s with rxLatched := true, rxRunning := s.rx.isSome || env.createTask } := by
  cases hr : config.isRoot <;> cases hc : s.mesh.isCommStarted <;> cases he : env.createTask <;>
    simp [nodeStep, meshEventHandler, espMeshCommStart, restartDhcpc, Node.startRx, rxMainEntry, phase, hr, hc, he, hn]

theorem nodeStep_gotIp (config : NodeConfig) (s : NodeState) (env : Env) :
    (nodeStep config s ⟨.gotIp, env⟩).2 =
        (if config.isRoot then [.postToDSState true] else []) ++ [.createMutex] ++
          (if s.mqtt.isCommMqttTaskStarted then [] else [.createTask .mqtt env.createTask]) ++
          [.startReturned .mqtt espOk] ∧
      phase (nodeStep config s ⟨.gotIp, env⟩).1 =
        if s.mqtt.isCommMqttTaskStarted then phase s else
          { phase s with mqttLatched := true, mqttTask := if env.createTask then .created else s.mqttTask } := by
  cases hr : config.isRoot <;> cases hc : s.mqtt.isCommMqttTaskStarted <;> cases he : env.createTask <;>
    simp [nodeStep, ipEventHandler, espMeshCommMqttTaskStart, Node.startMqtt, phase, hr, hc, he]

theorem dhcpc_follows (config : NodeConfig) (past : List Call) :
    Follows (Ordered config) past (if config.isRoot then [.dhcpcStop, .dhcpcStart] else []) := by
  split
  · rename_i h
    exact ⟨h, ⟨h, List.getLast?_concat⟩, trivial⟩
  · trivial

theorem toDS_follows (config : NodeConfig) (past : List Call) :
    Follows (Ordered config) past ((if config.isRoot then [.postToDSState true] else []) ++ [.createMutex]) := by
  split
  · rename_i h
    exact ⟨h, trivial, trivial⟩
  · exact ⟨trivial, trivial⟩

theorem parentConnected_inOrder (h : Began past (phase s)) (selfLayer : UInt16) (bssid : MeshAddr) (env : Env) :
    InOrder config past s ⟨.mesh (.parentConnected selfLayer bssid), env⟩ := by
  obtain ⟨hcalls, hphase⟩ := nodeStep_parentConnected config h.netifSta selfLayer bssid env
  rw [InOrder, hcalls, hphase]
  have hdhcp : Began (past ++ if config.isRoot then [.dhcpcStop, .dhcpcStart] else []) (phase s) :=
    h.quiet (by split <;> simp [isStart])
  cases hc : s.mesh.isCommStarted with
  | true =>
      obtain ⟨created, hcreated⟩ := hdhcp.rxLatched.mp hc
      simp only [if_true, List.append_nil, ← List.append_assoc]
      refine ⟨hdhcp.quiet (by simp [isStart]), ?_⟩
      exact follows_append (dhcpc_follows config past) ⟨⟨created, hcreated⟩, trivial⟩
  | false =>
      simp only [Bool.false_eq_true, if_false, ← List.append_assoc]
      refine ⟨(hdhcp.startRx env.createTask).quiet (by simp [isStart]), ?_⟩
      refine follows_append (follows_append (dhcpc_follows config past) ⟨?_, trivial⟩) ⟨⟨env.createTask, by simp⟩, trivial⟩
      intro created hcreated
      have hlatched := hdhcp.rxLatched.mpr ⟨created, hcreated⟩
      exact absurd (hlatched.symm.trans hc) (by decide)

theorem gotIp_inOrder (h : Began past (phase s)) (env : Env) : InOrder config past s ⟨.gotIp, env⟩ := by
  obtain ⟨hcalls, hphase⟩ := nodeStep_gotIp config s env
  rw [InOrder, hcalls, hphase]
  have hds : Began (past ++ ((if config.isRoot then [.postToDSState true] else []) ++ [.createMutex])) (phase s) :=
    h.quiet (by split <;> simp [isStart])
  cases hc : s.mqtt.isCommMqttTaskStarted with
  | true =>
      obtain ⟨created, hcreated⟩ := hds.mqttLatched.mp hc
      simp only [if_true, List.append_nil]
      refine ⟨?_, follows_append (toDS_follows config past) ⟨⟨created, hcreated⟩, trivial⟩⟩
      rw [← List.append_assoc]
      exact hds.quiet (by simp [isStart])
  | false =>
      simp only [Bool.false_eq_true, if_false]
      refine ⟨?_, follows_append (follows_append (toDS_follows config past) ⟨?_, trivial⟩)
        ⟨⟨env.createTask, by simp⟩, trivial⟩⟩
      · rw [← List.append_assoc, ← List.append_assoc]
        exact (hds.startMqtt hc env.createTask).quiet (by simp [isStart])
      · intro created hcreated
        have hlatched := hds.mqttLatched.mpr ⟨created, hcreated⟩
        exact absurd (hlatched.symm.trans hc) (by decide)

theorem mqttTask_inOrder (h : Began past (phase s)) (hloops : LoopsRun s) (env : Env) :
    InOrder config past s ⟨.mqttTask, env⟩ := by
  cases ht : s.mqttTask with
  | none =>
      have hstep : nodeStep config s ⟨.mqttTask, env⟩ = (s, []) := by
        simp only [nodeStep, espMeshMqttTask, ht]
        rw [← ht]
      exact inOrder_idle h hstep
  | created =>
      have hcreated : Call.createTask .mqtt true ∈ past := h.mqttCreated.mp (by simp [phase, ht])
      have hfirst : Call.clientStart ∉ past := fun hmem =>
        absurd (ht.symm.trans (h.polling.mpr hmem)) (by decide)
      have hstart := h.startClient ht env.clientInit
      simpa [InOrder, nodeStep, espMeshMqttTask, mqttAppStart, ht, phase, Follows, Ordered] using
        ⟨hstart, hcreated, hfirst⟩
  | polling =>
      have hclient : Call.clientStart ∈ past := h.polling.mp ht
      refine inOrder_quiet h ?_ ?_ ?_
      · simp only [nodeStep, espMeshMqttTask, ht, hloops.2, if_true]
        split <;> simp [phase, ht]
      · simp only [nodeStep, espMeshMqttTask, ht, hloops.2, if_true]
        split <;> simp [isStart]
      · simp only [nodeStep, espMeshMqttTask, ht, hloops.2, if_true]
        split
        · trivial
        · exact ⟨hclient, trivial⟩

/-- What a received frame leads to rests on the receive task, and at the root on
the client as well. -/
theorem received_follows (h : Began past (phase s)) (hrun : s.mesh.isRunning = true) (o : Received) (env : Env) :
    Follows (Ordered config) past (nodeStep config s ⟨.received o, env⟩).2 := by
  obtain ⟨isRoot, rxStack⟩ := config
  cases isRoot with
  | true =>
      rw [root_received hrun]
      split
      · rename_i hrx
        have hcreated : Call.createTask .meshRx true ∈ past := h.rxRunning.mp hrx.1
        rw [mqttAppPublish]
        split
        · rename_i hhandle
          exact ⟨⟨rfl, h.polling.mp (h.handle hhandle), hcreated⟩, trivial⟩
        · trivial
      · trivial
  | false =>
      rw [leaf_received hrun]
      split
      · rename_i hrx
        exact ⟨⟨rfl, h.rxRunning.mp hrx.1⟩, trivial⟩
      · trivial

theorem received_inOrder (h : Began past (phase s)) (hloops : LoopsRun s) (o : Received) (env : Env) :
    InOrder config past s ⟨.received o, env⟩ := by
  refine inOrder_quiet h ?_ ?_ (received_follows h hloops.1 o env)
  · cases hrx : s.rx with
    | none => simp [nodeStep, hrx]
    | some loc =>
        obtain ⟨tx, hv⟩ := rxPass_vars config.isRoot pbEncoder (s := ⟨s.mesh, loc⟩) hloops.1 o
        simp [nodeStep, hrx, hv, phase]
  · intro c hc
    have harea := nodeStep_area config ⟨.received o, env⟩ c hc
    cases c with
    | createTask | clientStart => cases harea
    | _ => rfl

theorem mqttEvent_inOrder (h : Began past (phase s)) (event : MqttEvent) (env : Env) :
    InOrder config past s ⟨.mqtt event, env⟩ := by
  cases event with
  | connected =>
      by_cases hsub : env.subscribe < 0
      · refine inOrder_quiet h ?_ ?_ ?_
        · simp [nodeStep, mqttEventProcess, hsub, phase]
        · simp [nodeStep, mqttEventProcess, hsub, isStart]
        · simp only [nodeStep, mqttEventProcess, if_pos hsub]
          exact ⟨rfl, ⟨env.subscribe, hsub, List.getLast?_concat⟩, trivial⟩
      · refine inOrder_quiet h ?_ ?_ ?_
        · simp [nodeStep, mqttEventProcess, hsub, phase]
        · simp [nodeStep, mqttEventProcess, hsub, isStart]
        · simp only [nodeStep, mqttEventProcess, if_neg hsub]
          exact ⟨rfl, trivial⟩
  | data event =>
      exact inOrder_quiet h rfl (by simp [nodeStep, mqttEventProcess, isStart]) ⟨trivial, trivial⟩
  | _ => exact inOrder_quiet h rfl (fun c hc => absurd hc List.not_mem_nil) trivial

theorem nodeStep_inOrder (config : NodeConfig) (h : Began past (phase s)) (hloops : LoopsRun s) (i : NodeInput) :
    InOrder config past s i := by
  obtain ⟨event, env⟩ := i
  cases event with
  | mesh event =>
      cases event with
      | parentConnected selfLayer bssid => exact parentConnected_inOrder h selfLayer bssid env
      | _ => exact inOrder_quiet h rfl (fun c hc => absurd hc List.not_mem_nil) trivial
  | gotIp => exact gotIp_inOrder h env
  | received o => exact received_inOrder h hloops o env
  | mqtt event => exact mqttEvent_inOrder h event env
  | mqttTask => exact mqttTask_inOrder h hloops env

end Steps

/-- A node whose past calls came in order and made it what it is. -/
structure Grown (config : NodeConfig) (past : List Call) (s : NodeState) : Prop where
  loops : LoopsRun s
  began : Began past (phase s)
  ordered : Explained (Ordered config) past

theorem grown_run (config : NodeConfig) (mac : MeshAddr) (run : List NodeInput) :
    Grown config (trace (nodeStep config) (nodeInit mac) run) (final (nodeStep config) (nodeInit mac) run) := by
  have h := history_invariant (nodeStep config) (P := Grown config) ?_
    ⟨⟨rfl, rfl⟩, began_init mac, explained_nil⟩ run
  · simpa using h
  · intro past s i h
    obtain ⟨hbegan, hfollows⟩ := nodeStep_inOrder config h.began h.loops i
    exact ⟨nodeStep_loopsRun h.loops, hbegan, explained_follows h.ordered hfollows⟩

/-- A node with a client handle has started its client for good. -/
def ClientUp (s : NodeState) : Prop :=
  s.mqtt.mqttHandle = true ∧ s.mqtt.isCommMqttTaskStarted = true ∧ s.mqttTask ≠ .created

theorem clientUp_of_handle (config : NodeConfig) (mac : MeshAddr) (run : List NodeInput)
    (h : (final (nodeStep config) (nodeInit mac) run).mqtt.mqttHandle = true) :
    ClientUp (final (nodeStep config) (nodeInit mac) run) := by
  obtain ⟨-, hbegan, -⟩ := grown_run config mac run
  have hpolling := hbegan.handle h
  have hcreated := hbegan.mqttCreated.mp (by rw [hpolling]; decide)
  refine ⟨h, hbegan.mqttLatched.mpr ⟨true, hcreated⟩, ?_⟩
  change (phase _).mqttTask ≠ .created
  rw [hpolling]
  decide

theorem nodeStep_clientUp {config : NodeConfig} {s : NodeState} (h : ClientUp s) (i : NodeInput) :
    ClientUp (nodeStep config s i).1 := by
  obtain ⟨hhandle, hlatched, htask⟩ := h
  obtain ⟨event, env⟩ := i
  cases event with
  | mesh event =>
      simp only [nodeStep, Node.startRx]
      split <;> exact ⟨hhandle, hlatched, htask⟩
  | gotIp =>
      have hstep : nodeStep config s ⟨.gotIp, env⟩ = (s, (nodeStep config s ⟨.gotIp, env⟩).2) := by
        cases hr : config.isRoot <;>
          simp [nodeStep, ipEventHandler, espMeshCommMqttTaskStart, hlatched, Node.startMqtt, hr]
      rw [hstep]
      exact ⟨hhandle, hlatched, htask⟩
  | received o =>
      simp only [nodeStep]
      split <;> exact ⟨hhandle, hlatched, htask⟩
  | mqtt event =>
      cases event with
      | connected =>
          simp only [nodeStep, mqttEventProcess]
          split <;> exact ⟨hhandle, hlatched, htask⟩
      | _ => exact ⟨hhandle, hlatched, htask⟩
  | mqttTask =>
      cases ht : s.mqttTask with
      | created => exact absurd ht htask
      | none => simpa [nodeStep, espMeshMqttTask, ht, ClientUp] using ⟨hhandle, hlatched⟩
      | polling =>
          simp only [nodeStep, espMeshMqttTask, ht]
          split
          · split <;> simp [ClientUp, hhandle, hlatched]
          · simp [ClientUp, hhandle, hlatched]

section View

variable {config : NodeConfig} {s : NodeState}

/-- What the mesh events say about the link to the parent. -/
def linked? (i : NodeInput) : Option Bool :=
  match i.event with
  | .mesh (.parentConnected _ _) => some true
  | .mesh .started | .mesh .stopped | .mesh (.parentDisconnected _) => some false
  | _ => none

/-- The layer is taken from the event that reports it, or asked for when the
link is lost. -/
def layer? (i : NodeInput) : Option Int :=
  match i.event with
  | .mesh (.parentConnected selfLayer _) => some selfLayer.toNat
  | .mesh (.layerChange newLayer) => some newLayer.toNat
  | .mesh .started | .mesh .stopped | .mesh (.parentDisconnected _) => some i.env.getLayer
  | _ => none

def parent? (i : NodeInput) : Option MeshAddr :=
  match i.event with
  | .mesh (.parentConnected _ bssid) => some bssid
  | _ => none

def session? (i : NodeInput) : Option Bool :=
  match i.event with
  | .mqtt .connected => some true
  | .mqtt .disconnected => some false
  | _ => none

def lastSaid {α : Type} (say : NodeInput → Option α) (run : List NodeInput) : Option α :=
  (run.filterMap say).getLast?

/-- The variables of mesh.cpp and mqtt_app.cpp that only events write. -/
structure View where
  linked : Bool
  layer : Int
  parent : MeshAddr
  root : MeshAddr
  session : Bool

def view (s : NodeState) : View :=
  ⟨s.mesh.isMeshConnected, s.mesh.meshLayer, s.mesh.meshParentAddr, s.mesh.meshRootAddr, s.mqtt.isMqttConnected⟩

def View.write (v : View) (i : NodeInput) : View where
  linked := (linked? i).getD v.linked
  layer := (layer? i).getD v.layer
  parent := (parent? i).getD v.parent
  root := i.event.root?.getD v.root
  session := (session? i).getD v.session

theorem startRx_view (calls : List Call) (s : NodeState) : view (Node.startRx config calls s) = view s := by
  rw [Node.startRx]
  split <;> rfl

theorem startMqtt_view (calls : List Call) (s : NodeState) : view (Node.startMqtt calls s) = view s := by
  rw [Node.startMqtt]
  split <;> rfl

theorem meshEvent_view (event : MeshEvent) (env : Env) :
    view (nodeStep config s ⟨.mesh event, env⟩).1 = (view s).write ⟨.mesh event, env⟩ := by
  have hstart : view (nodeStep config s ⟨.mesh event, env⟩).1 =
      view { s with mesh := (meshEventHandler config.isRoot env s.mesh event).1 } := startRx_view _ _
  rw [hstart]
  cases event with
  | parentConnected selfLayer bssid =>
      simp only [meshEventHandler, espMeshCommStart_vars]
      rfl
  | _ => rfl

theorem mqttTask_view (env : Env) (hloops : LoopsRun s) :
    view (nodeStep config s ⟨.mqttTask, env⟩).1 = view s := by
  cases ht : s.mqttTask with
  | polling =>
      simp only [nodeStep, espMeshMqttTask, ht, hloops.2, if_true]
      split <;> rfl
  | _ => simp only [nodeStep, espMeshMqttTask, ht, mqttAppStart, view]

theorem nodeStep_view (hloops : LoopsRun s) (i : NodeInput) :
    view (nodeStep config s i).1 = (view s).write i := by
  obtain ⟨event, env⟩ := i
  cases event with
  | mesh event => exact meshEvent_view event env
  | gotIp =>
      have hstart : view (nodeStep config s ⟨.gotIp, env⟩).1 =
          view { s with mqtt := (espMeshCommMqttTaskStart env s.mqtt).1 } := startMqtt_view _ _
      rw [hstart, espMeshCommMqttTaskStart]
      split <;> rfl
  | received o =>
      cases hrx : s.rx with
      | none => simp only [nodeStep, hrx]; rfl
      | some loc =>
          obtain ⟨tx, hv⟩ := rxPass_vars config.isRoot pbEncoder (s := ⟨s.mesh, loc⟩) hloops.1 o
          simp only [nodeStep, hrx, hv]
          rfl
  | mqtt event =>
      cases event with
      | connected =>
          simp only [nodeStep, mqttEventProcess]
          split <;> rfl
      | _ => rfl
  | mqttTask => exact mqttTask_view env hloops

theorem view_register {α : Type} (field : View → α) (say : NodeInput → Option α)
    (hfield : ∀ v i, field (v.write i) = (say i).getD (field v)) (config : NodeConfig) (mac : MeshAddr)
    (run : List NodeInput) :
    field (view (final (nodeStep config) (nodeInit mac) run)) =
      (lastSaid say run).getD (field (view (nodeInit mac))) := by
  refine final_register (nodeStep config) (P := LoopsRun) (fun s => field (view s)) say ?_ ⟨rfl, rfl⟩ run
  intro s i hloops
  refine ⟨nodeStep_loopsRun hloops, ?_⟩
  rw [nodeStep_view hloops, hfield]

/-- Every node knows what the last event about it said, and nothing else: where
it stands in the mesh, who the root is, and whether it is connected to the
broker. Its task asks for a new connection exactly when the client has been
started and was not reported connected since. -/
theorem node_follows_events (config : NodeConfig) (mac : MeshAddr) (run : List NodeInput) :
    let s := final (nodeStep config) (nodeInit mac) run
    view s =
        { linked := (lastSaid linked? run).getD false
          layer := (lastSaid layer? run).getD (-1)
          parent := (lastSaid parent? run).getD zeroAddr
          root := (lastSaid (fun i => i.event.root?) run).getD zeroAddr
          session := (lastSaid session? run).getD false } ∧
      ∀ env, .reconnect ∈ (nodeStep config s ⟨.mqttTask, env⟩).2 ↔
        .clientStart ∈ trace (nodeStep config) (nodeInit mac) run ∧ lastSaid session? run ≠ some true := by
  intro s
  have hsession : s.mqtt.isMqttConnected = (lastSaid session? run).getD false :=
    view_register View.session session? (fun _ _ => rfl) config mac run
  constructor
  · have hlinked := view_register View.linked linked? (fun _ _ => rfl) config mac run
    have hlayer := view_register View.layer layer? (fun _ _ => rfl) config mac run
    have hparent := view_register View.parent parent? (fun _ _ => rfl) config mac run
    have hroot := view_register View.root (fun i => i.event.root?) (fun _ _ => rfl) config mac run
    exact congr (congr (congr (congr (congrArg View.mk hlinked) hlayer) hparent) hroot) hsession
  · intro env
    obtain ⟨hloops, hbegan, -⟩ := grown_run config mac run
    rw [← hbegan.polling]
    have hconnected : lastSaid session? run ≠ some true ↔ s.mqtt.isMqttConnected = false := by
      rw [hsession]
      cases lastSaid session? run with
      | none => simp
      | some connected => cases connected <;> simp
    rw [hconnected]
    change _ ↔ s.mqttTask = .polling ∧ _
    cases ht : s.mqttTask with
    | polling =>
        have hrun : s.mqtt.isRunning = true := hloops.2
        cases hc : s.mqtt.isMqttConnected <;> simp [nodeStep, espMeshMqttTask, ht, hrun, hc]
    | _ => simp [nodeStep, espMeshMqttTask, mqttAppStart, ht]

end View

end RaceControl.Lifecycle
