import RaceControl.Library.Machine
import RaceControl.Node

namespace RaceControl.Subscription

open Machine Esp Globals Topic MqttApp Node

/-- What an observer of the client knows about the subscription on the current
session: the request still unanswered, whether the broker accepted it, and
whether a disconnect was requested. -/
structure Session where
  pending : Option Int
  accepted : Bool
  retry : Bool
  deriving DecidableEq

def fresh : Session := ⟨none, false, false⟩

def observeEvent (m : Session) : NodeEvent → Session
  | .mqtt .connected | .mqtt .disconnected => fresh
  | .mqtt (.subscribed msgId accepted) =>
      if m.pending = some msgId then { m with pending := none, accepted := m.accepted || accepted } else m
  | _ => m

def observeCall (m : Session) : Call → Session
  | .subscribe topic msgId =>
      if topic = mqttTrackTopic ∧ 0 ≤ msgId then { m with pending := some msgId } else m
  | .disconnect => { m with retry := true }
  | _ => m

def observe (m : Session) (i : NodeInput) (calls : List Call) : Session :=
  calls.foldl observeCall (observeEvent m i.event)

def sessionStep (config : NodeConfig) : Step (NodeState × Session) NodeInput Call :=
  monitored (nodeStep config) observe

/-- A node that believes to be connected has the subscription, waits for it, or
is about to try again. -/
def Kept (s : NodeState × Session) : Prop :=
  s.1.mqtt.isMqttConnected = true → s.2.pending.isSome = true ∨ s.2.accepted = true ∨ s.2.retry = true

def RunKept (config : NodeConfig) (mac : MeshAddr) (run : List NodeInput) : Prop :=
  Along (sessionStep config) (fun s i => Kept (sessionStep config s i).1) (nodeInit mac, fresh) run

def Refused (s : NodeState × Session) (i : NodeInput) : Prop :=
  ∃ msgId, i.event = .mqtt (.subscribed msgId false) ∧ s.2.pending = some msgId

/-- While a request is unanswered the node is connected, and nothing else was
done about the subscription on this session. -/
def Waiting (s : NodeState × Session) : Prop :=
  s.2.pending.isSome = true →
    s.1.mqtt.isMqttConnected = true ∧ s.2.accepted = false ∧ s.2.retry = false

variable {config : NodeConfig} {s : NodeState × Session} {i : NodeInput}

theorem sessionStep_node (config : NodeConfig) (s : NodeState × Session) (run : List NodeInput) :
    (final (sessionStep config) s run).1 = final (nodeStep config) s.1 run :=
  final_monitored (nodeStep config) observe s run

theorem observeCall_area {c : Call} (h : c.area ≠ .session) (m : Session) : observeCall m c = m := by
  cases c with
  | subscribe topic msgId => exact absurd rfl h
  | disconnect => exact absurd rfl h
  | _ => rfl

theorem observe_area (h : i.event.area ≠ .session) (m : Session) (s : NodeState) :
    observe m i (nodeStep config s i).2 = observeEvent m i.event := by
  have hcalls : ∀ c ∈ (nodeStep config s i).2, c.area ≠ .session := by
    intro c hc
    rw [nodeStep_area config i c hc]
    exact h
  rw [observe]
  generalize (nodeStep config s i).2 = calls at hcalls
  generalize observeEvent m i.event = m
  induction calls with
  | nil => rfl
  | cons c calls ih =>
      rw [List.foldl_cons, observeCall_area (hcalls c (by simp))]
      exact ih (fun d hd => hcalls d (by simp [hd]))

theorem sessionStep_connected (config : NodeConfig) (s : NodeState × Session) (env : Env) :
    (sessionStep config s ⟨.mqtt .connected, env⟩).1.1.mqtt.isMqttConnected = true ∧
      (sessionStep config s ⟨.mqtt .connected, env⟩).1.2 =
        if env.subscribe < 0 then ⟨none, false, true⟩ else ⟨some env.subscribe, false, false⟩ := by
  simp only [sessionStep, monitored, nodeStep, mqttEventProcess, observe, observeEvent]
  split
  · rename_i hneg
    have hfail : ¬ (0 ≤ env.subscribe) := by omega
    simp [observeCall, hfail, fresh]
  · rename_i hneg
    have hok : 0 ≤ env.subscribe := by omega
    simp [observeCall, hok, fresh]

theorem espMeshMqttTask_connected (env : Env) (vars : MqttVars) (task : MqttTask) :
    (espMeshMqttTask env vars task).1.isMqttConnected = vars.isMqttConnected := by
  cases task with
  | none | created => rfl
  | polling =>
      simp only [espMeshMqttTask]
      split
      · split <;> rfl
      · rfl

theorem nodeStep_connected (hc : i.event ≠ .mqtt .connected) (hd : i.event ≠ .mqtt .disconnected)
    (s : NodeState) : (nodeStep config s i).1.mqtt.isMqttConnected = s.mqtt.isMqttConnected := by
  obtain ⟨event, env⟩ := i
  cases event with
  | mesh event =>
      have hm : (nodeStep config s ⟨.mesh event, env⟩).1.mqtt = s.mqtt := startRx_mqtt config _ _
      rw [hm]
  | gotIp =>
      have hm : (nodeStep config s ⟨.gotIp, env⟩).1.mqtt = (espMeshCommMqttTaskStart env s.mqtt).1 :=
        startMqtt_mqtt _ _
      rw [hm, espMeshCommMqttTaskStart]
      split <;> rfl
  | received o =>
      simp only [nodeStep]
      split <;> rfl
  | mqtt event =>
      cases event with
      | connected => exact absurd rfl hc
      | disconnected => exact absurd rfl hd
      | _ => rfl
  | mqttTask => exact espMeshMqttTask_connected env s.mqtt s.mqttTask

/-- Away from the ends of a session the connection flag stays, and the observer
learns from the event alone. -/
theorem sessionStep_other (config : NodeConfig) (s : NodeState × Session)
    (hc : i.event ≠ .mqtt .connected) (hd : i.event ≠ .mqtt .disconnected) :
    (sessionStep config s i).1.1.mqtt.isMqttConnected = s.1.mqtt.isMqttConnected ∧
      (sessionStep config s i).1.2 = observeEvent s.2 i.event := by
  refine ⟨nodeStep_connected hc hd s.1, observe_area ?_ s.2 s.1⟩
  cases he : i.event with
  | mqtt event =>
      cases event with
      | connected => exact absurd he hc
      | _ => simp [NodeEvent.area]
  | _ => simp [NodeEvent.area]

theorem observeEvent_cases (m : Session) {event : NodeEvent} (hc : event ≠ .mqtt .connected)
    (hd : event ≠ .mqtt .disconnected) : observeEvent m event = m ∨
      ∃ msgId accepted, event = .mqtt (.subscribed msgId accepted) ∧ m.pending = some msgId ∧
        observeEvent m event = { m with pending := none, accepted := m.accepted || accepted } := by
  cases event with
  | mqtt event =>
      cases event with
      | connected => exact absurd rfl hc
      | disconnected => exact absurd rfl hd
      | subscribed msgId accepted =>
          by_cases hid : m.pending = some msgId
          · exact .inr ⟨msgId, accepted, rfl, hid, if_pos hid⟩
          · exact .inl (if_neg hid)
      | _ => exact .inl rfl
  | _ => exact .inl rfl

theorem observeEvent_pending {m : Session} {event : NodeEvent}
    (h : (observeEvent m event).pending.isSome = true) : observeEvent m event = m := by
  cases event with
  | mqtt event =>
      cases event with
      | connected | disconnected => cases h
      | subscribed msgId accepted =>
          by_cases hid : m.pending = some msgId
          · simp [observeEvent, hid] at h
          · rw [observeEvent, if_neg hid]
      | _ => rfl
  | _ => rfl

theorem waiting_step (h : Waiting s) : Waiting (sessionStep config s i).1 := by
  by_cases hc : i.event = .mqtt .connected
  · obtain ⟨event, env⟩ := i
    cases hc
    obtain ⟨hconn, hsess⟩ := sessionStep_connected config s env
    intro hp
    rw [hsess] at hp ⊢
    refine ⟨hconn, ?_⟩
    split at hp
    · cases hp
    · rename_i hneg
      rw [if_neg hneg]
      exact ⟨rfl, rfl⟩
  · by_cases hd : i.event = .mqtt .disconnected
    · obtain ⟨event, env⟩ := i
      cases hd
      intro hp
      cases hp
    · obtain ⟨hconn, hsess⟩ := sessionStep_other config s hc hd
      intro hp
      rw [hsess] at hp ⊢
      rw [hconn, observeEvent_pending hp]
      rw [observeEvent_pending hp] at hp
      exact h hp

theorem kept_step (h : Kept s) (hr : ¬ Refused s i) : Kept (sessionStep config s i).1 := by
  by_cases hc : i.event = .mqtt .connected
  · obtain ⟨event, env⟩ := i
    cases hc
    obtain ⟨-, hsess⟩ := sessionStep_connected config s env
    intro _
    rw [hsess]
    split
    · exact .inr (.inr rfl)
    · exact .inl rfl
  · by_cases hd : i.event = .mqtt .disconnected
    · obtain ⟨event, env⟩ := i
      cases hd
      intro hconn
      cases hconn
    · obtain ⟨hconn, hsess⟩ := sessionStep_other config s hc hd
      intro hflag
      have hkept := h (hconn ▸ hflag)
      rw [hsess]
      rcases observeEvent_cases s.2 hc hd with he | ⟨msgId, accepted, hevent, hid, he⟩
      · rw [he]
        exact hkept
      · rw [he]
        cases accepted with
        | true => exact .inr (.inl (Bool.or_true _))
        | false => exact absurd ⟨msgId, hevent, hid⟩ hr

theorem refused_lost (hw : Waiting s) (hr : Refused s i) : ¬ Kept (sessionStep config s i).1 := by
  obtain ⟨msgId, hevent, hid⟩ := hr
  obtain ⟨hflag, haccepted, hretry⟩ := hw (by rw [hid]; rfl)
  obtain ⟨hconn, hsess⟩ := sessionStep_other config s (i := i) (by simp [hevent])
    (by simp [hevent])
  intro hk
  have hlost := hk (hconn.trans hflag)
  rw [hsess, hevent] at hlost
  simp [observeEvent, hid, haccepted, hretry] at hlost

/-- A run keeps the subscription exactly when the broker never refuses the request
of the current session. -/
theorem subscription_kept_iff (config : NodeConfig) (mac : MeshAddr) (run : List NodeInput) :
    RunKept config mac run ↔
      Along (sessionStep config) (fun s i => ¬ Refused s i) (nodeInit mac, fresh) run := by
  constructor
  · apply along_imp _ (P := Waiting) ?_ (fun hp => by cases hp)
    intro s i hw hk
    exact ⟨waiting_step hw, fun hr => refused_lost hw hr hk⟩
  · apply along_imp _ (P := Kept) ?_ (fun hflag => by cases hflag)
    intro s i hk hr
    exact ⟨kept_step hk hr, kept_step hk hr⟩

/-- The client connects, and the broker refuses the subscription. -/
theorem refusal_is_lost :
    ¬ RunKept ⟨true, MeshRx.RxLocals.initZero⟩ zeroAddr
      [⟨.gotIp, .allOk⟩, ⟨.mqttTask, .allOk⟩, ⟨.mqtt .connected, { Env.allOk with subscribe := 1 }⟩,
       ⟨.mqtt (.subscribed 1 false), .allOk⟩] := by
  intro h
  have hkept := h.2.2.2.1 (by decide +kernel)
  exact absurd hkept (by decide +kernel)

end RaceControl.Subscription
