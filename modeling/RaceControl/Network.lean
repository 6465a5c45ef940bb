import RaceControl.Library.Machine
import RaceControl.Node

namespace RaceControl.Network

open Machine Esp MeshSend Globals Messages Topic MeshRx MeshEvents MqttApp Node

variable {ι : Type}

/-- The nodes of a mesh with their station addresses, one of them the fixed root. -/
structure Mesh (ι : Type) where
  addr : ι → NodeAddr
  distinct : Function.Injective addr
  root : ι
  rxStack : ι → RxLocals

def Mesh.config [DecidableEq ι] (mesh : Mesh ι) (n : ι) : NodeConfig := ⟨decide (n = mesh.root), mesh.rxStack n⟩

/-- A frame on its way. Its number and its origin only say which send it is from. -/
structure Flight (ι : Type) where
  id : Nat
  origin : ι
  dest : MeshAddr
  frame : List UInt8
  deriving DecidableEq

/-- The frames in flight, and the events that the broker's track publications
will still raise at the root. -/
structure Traffic (ι : Type) where
  inFlight : List (Flight ι)
  nextId : Nat
  broker : List DataEvent

structure NetState (ι : Type) where
  nodes : ι → NodeState
  traffic : Traffic ι

/-- What the environment decides: somebody publishes on the track topic, the
root's client raises one of the events that are due, a frame is delivered or
lost, or something else happens at a node. -/
inductive NetInput (ι : Type)
  | external (events : List DataEvent)
  | data (k : Nat) (env : Env)
  | deliver (k : Nat) (dest : ι) (env : Env)
  | lose (k : Nat)
  | node (n : ι) (input : NodeInput)

/-- What an observer of the network sees. Frames and publications are recorded
with the delivered frame that they answer, if any. -/
inductive NetOutput (ι : Type)
  | delivered (dest : ι) (flight : Flight ι)
  | dataEvent (event : DataEvent)
  | sent (cause : Option (Flight ι)) (flight : Flight ι)
  | published (cause : Option (Flight ι)) (publication : Publication)

def netInit (mesh : Mesh ι) : NetState ι := ⟨fun n => nodeInit (mesh.addr n), ⟨[], 0, []⟩⟩

def sends : Call → List SendCall
  | .sendRoot _ _ result => result.calls
  | .broadcast _ result => result.calls
  | _ => []

def publications (calls : List Call) : List Publication :=
  calls.filterMap fun
    | .publish publication => some publication
    | _ => none

/-- A send that reports an error may have gone out all the same. -/
def launch (origin : ι) : Nat → List SendCall → List (Flight ι)
  | _, [] => []
  | id, call :: calls => ⟨id, origin, call.dest, call.data.frame⟩ :: launch origin (id + 1) calls

def subscribed (publication : Publication) : List DataEvent :=
  if publication.topic = mqttTrackTopic then
    let payload := publication.payload.getD []
    [⟨payload, payload.length, 0, payload.length⟩]
  else []

def perform [DecidableEq ι] (mesh : Mesh ι) (s : NetState ι) (n : ι) (cause : Option (Flight ι)) (input : NodeInput) :
    NetState ι × List (NetOutput ι) :=
  let (node, calls) := nodeStep (mesh.config n) (s.nodes n) input
  let flights := launch n s.traffic.nextId (calls.flatMap sends)
  ({ nodes := Function.update s.nodes n node
     traffic :=
      { inFlight := s.traffic.inFlight ++ flights
        nextId := s.traffic.nextId + flights.length
        broker := s.traffic.broker ++ (publications calls).flatMap subscribed } },
    flights.map (.sent cause) ++ (publications calls).map (.published cause))

/-- What a node receives of a frame that is for it: the sender is the station
address of its origin. -/
def arrival (mesh : Mesh ι) (s : NetState ι) (flight : Flight ι) (dest : ι) : Option Received :=
  if h : (mesh.addr dest).1 = flight.dest ∧ (s.nodes dest).rx.isSome = true ∧
      flight.frame.length ≤ rxSize then
    some ⟨espOk, mesh.addr flight.origin, flight.frame, h.2.2⟩
  else none

/-- Frames and data events come from the network alone, and a root address is
the address of a node. -/
def occurs : NodeEvent → Bool
  | .received o => o.err ≠ espOk
  | .mqtt (.data _) => false
  | .mesh (.rootAddress addr) => addr ≠ broadcastAddr
  | _ => true

def netStep [DecidableEq ι] (mesh : Mesh ι) (s : NetState ι) : NetInput ι → NetState ι × List (NetOutput ι)
  | .external events =>
      ({ s with traffic.broker := s.traffic.broker ++ events }, [])
  | .data k env =>
      match s.traffic.broker[k]? with
      | none => (s, [])
      | some event =>
          let s := { s with traffic.broker := s.traffic.broker.eraseIdx k }
          let (s, outputs) := perform mesh s mesh.root none ⟨.mqtt (.data event), env⟩
          (s, .dataEvent event :: outputs)
  | .deliver k dest env =>
      match s.traffic.inFlight[k]? with
      | none => (s, [])
      | some flight =>
          match arrival mesh s flight dest with
          | none => (s, [])
          | some o =>
              let s := { s with traffic.inFlight := s.traffic.inFlight.eraseIdx k }
              let (s, outputs) := perform mesh s dest (some flight) ⟨.received o, env⟩
              (s, .delivered dest flight :: outputs)
  | .lose k => ({ s with traffic.inFlight := s.traffic.inFlight.eraseIdx k }, [])
  | .node n input => if occurs input.event then perform mesh s n none input else (s, [])

def topicOf (frame : List UInt8) : Option UInt32 := (readMessage frame).map MQTTMessage.topic

def IsTrack (flight : Flight ι) : Prop := topicOf flight.frame = some topicTrack

instance (flight : Flight ι) : Decidable (IsTrack flight) := inferInstanceAs (Decidable (_ = _))

def forwarded (event : DataEvent) : MeshData :=
  ⟨event.data, UInt16.ofInt event.dataLen, .mqtt, .p2p⟩

def replyFlight (s : NetState ι) (n : ι) : Flight ι :=
  ⟨s.traffic.nextId, n, (s.nodes n).mesh.meshRootAddr, (pbEncoder kartStatusMsg).bytes⟩

def broadcastFlights (mesh : Mesh ι) (s : NetState ι) (env : Env) (event : DataEvent) : List (Flight ι) :=
  launch mesh.root s.traffic.nextId (meshBroadcast env.stack (forwarded event)).calls

inductive Effect (mesh : Mesh ι) (s : NetState ι) :
    NetInput ι → Traffic ι → List (NetOutput ι) → Prop
  | idle (i) : Effect mesh s i s.traffic []
  | external (events) :
      Effect mesh s (.external events) { s.traffic with broker := s.traffic.broker ++ events } []
  | lose (k) :
      Effect mesh s (.lose k) { s.traffic with inFlight := s.traffic.inFlight.eraseIdx k } []
  | data (k env event) (hk : s.traffic.broker[k]? = some event) :
      Effect mesh s (.data k env)
        { inFlight := s.traffic.inFlight ++ broadcastFlights mesh s env event
          nextId := s.traffic.nextId + (broadcastFlights mesh s env event).length
          broker := s.traffic.broker.eraseIdx k }
        (.dataEvent event :: (broadcastFlights mesh s env event).map (.sent none))
  | dropped (k dest env flight) (hk : s.traffic.inFlight[k]? = some flight) :
      Effect mesh s (.deliver k dest env) { s.traffic with inFlight := s.traffic.inFlight.eraseIdx k }
        [.delivered dest flight]
  | publish (k env flight publication) (hk : s.traffic.inFlight[k]? = some flight)
      (horigin : flight.origin ≠ mesh.root)
      (htopic : publication.topic = kartTopic (mesh.addr flight.origin)) :
      Effect mesh s (.deliver k mesh.root env)
        { s.traffic with inFlight := s.traffic.inFlight.eraseIdx k }
        [.delivered mesh.root flight, .published (some flight) publication]
  | reply (k dest env flight) (hk : s.traffic.inFlight[k]? = some flight) (hdest : dest ≠ mesh.root)
      (htrack : IsTrack flight) :
      Effect mesh s (.deliver k dest env)
        { s.traffic with
          inFlight := s.traffic.inFlight.eraseIdx k ++ [replyFlight s dest]
          nextId := s.traffic.nextId + 1 }
        [.delivered dest flight, .sent (some flight) (replyFlight s dest)]

def sentFlights (outputs : List (NetOutput ι)) : List (Flight ι) :=
  outputs.filterMap fun
    | .sent _ flight => some flight
    | _ => none

theorem sentFlights_append (past out : List (NetOutput ι)) :
    sentFlights (past ++ out) = sentFlights past ++ sentFlights out := List.filterMap_append

theorem sentFlights_map (cause : Option (Flight ι)) (flights : List (Flight ι)) :
    sentFlights (flights.map (.sent cause)) = flights := by
  rw [sentFlights, List.filterMap_map]
  exact List.filterMap_some

/-- Every node runs its receive loop, knows its own address, and takes no
broadcast address for the root's. -/
def NodesOk (mesh : Mesh ι) (nodes : ι → NodeState) : Prop :=
  ∀ n, (nodes n).mesh.isRunning = true ∧ (nodes n).mesh.meshCurrentAddr = mesh.addr n ∧
    (nodes n).mesh.meshRootAddr ≠ broadcastAddr

section Steps

variable {mesh : Mesh ι} {s : NetState ι} {n : ι} {input : NodeInput}

theorem netInit_nodesOk (mesh : Mesh ι) : NodesOk mesh (netInit mesh).nodes :=
  fun _ => ⟨rfl, rfl, (by decide : zeroAddr ≠ broadcastAddr)⟩

theorem root?_of_occurs {event : NodeEvent} (h : occurs event = true) :
    ∀ addr, event.root? = some addr → addr ≠ broadcastAddr := by
  intro addr hr
  cases event with
  | mesh event =>
      cases event with
      | rootAddress a =>
          cases hr
          exact of_decide_eq_true h
      | _ => cases hr
  | _ => cases hr

theorem accepted_arrival {dest : ι} {flight : Flight ι} {o : Received}
    (ho : arrival mesh s flight dest = some o) {topic : UInt32}
    (htopic : OnTopic (mesh.addr dest) topic o) :
    flight.origin ≠ dest ∧ topicOf flight.frame = some topic ∧ o.sender = mesh.addr flight.origin := by
  rw [arrival] at ho
  split at ho
  · cases ho
    rw [OnTopic, accepted] at htopic
    split at htopic
    · cases htopic
    · rename_i hnot
      refine ⟨?_, htopic, rfl⟩
      rintro rfl
      exact hnot (.inr (.inr rfl))
  · cases ho

theorem silent_of_area (calls : List Call) (h : ∀ c ∈ calls, c.area ≠ .traffic) :
    calls.flatMap sends = [] ∧ publications calls = [] := by
  constructor
  · rw [List.flatMap_eq_nil_iff]
    intro c hc
    have ha := h c hc
    cases c with
    | sendRoot dest data result => exact absurd rfl ha
    | broadcast data result => exact absurd rfl ha
    | _ => rfl
  · rw [publications, List.filterMap_eq_nil_iff]
    intro c hc
    have ha := h c hc
    cases c with
    | publish publication => exact absurd rfl ha
    | _ => rfl

def taken (s : NetState ι) (k : Nat) : NetState ι :=
  { s with traffic.inFlight := s.traffic.inFlight.eraseIdx k }

variable [DecidableEq ι]

theorem perform_nodesOk (h : NodesOk mesh s.nodes) (n : ι) (cause : Option (Flight ι)) (input : NodeInput)
    (hroot : ∀ addr, input.event.root? = some addr → addr ≠ broadcastAddr) :
    NodesOk mesh (perform mesh s n cause input).1.nodes := by
  intro m
  by_cases hm : m = n
  · subst hm
    obtain ⟨hrun, hself, haddr⟩ := h m
    obtain ⟨hrun', hself', haddr'⟩ := nodeStep_mesh (mesh.config m) input hrun
    simp only [perform, Function.update_self]
    refine ⟨hrun', hself'.trans hself, ?_⟩
    rw [haddr']
    cases hr : input.event.root? with
    | none => exact haddr
    | some addr => exact hroot addr hr
  · simp only [perform, Function.update_of_ne hm]
    exact h m

theorem netStep_nodesOk (h : NodesOk mesh s.nodes) (i : NetInput ι) :
    NodesOk mesh (netStep mesh s i).1.nodes := by
  cases i with
  | external events => exact h
  | lose k => exact h
  | data k env =>
      simp only [netStep]
      split
      · exact h
      · rename_i event _
        exact perform_nodesOk (s := { s with traffic.broker := s.traffic.broker.eraseIdx k }) h mesh.root none
          ⟨.mqtt (.data event), env⟩ (fun _ hr => by cases hr)
  | deliver k dest env =>
      simp only [netStep]
      split
      · exact h
      · rename_i flight _
        split
        · exact h
        · rename_i o _
          exact perform_nodesOk (s := { s with traffic.inFlight := s.traffic.inFlight.eraseIdx k }) h dest
            (some flight) ⟨.received o, env⟩ (fun _ hr => by cases hr)
  | node n input =>
      simp only [netStep]
      split
      · rename_i hocc
        exact perform_nodesOk h n none input (root?_of_occurs hocc)
      · exact h

theorem perform_calls (cause : Option (Flight ι)) {calls : List Call}
    (h : (nodeStep (mesh.config n) (s.nodes n) input).2 = calls) :
    (perform mesh s n cause input).1.traffic =
        { inFlight := s.traffic.inFlight ++ launch n s.traffic.nextId (calls.flatMap sends)
          nextId := s.traffic.nextId + (launch n s.traffic.nextId (calls.flatMap sends)).length
          broker := s.traffic.broker ++ (publications calls).flatMap subscribed } ∧
      (perform mesh s n cause input).2 =
        (launch n s.traffic.nextId (calls.flatMap sends)).map (.sent cause) ++
          (publications calls).map (.published cause) := by
  subst h
  exact ⟨rfl, rfl⟩

theorem perform_silent (cause : Option (Flight ι)) {calls : List Call}
    (h : (nodeStep (mesh.config n) (s.nodes n) input).2 = calls)
    (hsends : calls.flatMap sends = []) (hpubs : publications calls = []) :
    (perform mesh s n cause input).1.traffic = s.traffic ∧ (perform mesh s n cause input).2 = [] := by
  obtain ⟨ht, ho⟩ := perform_calls cause h
  rw [ht, ho, hsends, hpubs]
  simp [launch]

theorem data_effect (k : Nat) (env : Env) : Effect mesh s (.data k env)
    (netStep mesh s (.data k env)).1.traffic (netStep mesh s (.data k env)).2 := by
  cases hk : s.traffic.broker[k]? with
  | none =>
      simp only [netStep, hk]
      exact .idle _
  | some event =>
      have he : Effect mesh s _ _ _ := .data k env event hk
      simp only [netStep, hk]
      obtain ⟨ht, ho⟩ := perform_calls (n := mesh.root)
        (s := { s with traffic.broker := s.traffic.broker.eraseIdx k }) none
        (rfl : (nodeStep (mesh.config mesh.root) (s.nodes mesh.root) ⟨.mqtt (.data event), env⟩).2 = _)
      rw [ht, ho]
      simpa [publications, nodeStep, mqttEventProcess, sends, broadcastFlights, forwarded] using he

theorem netStep_deliver {k : Nat} {dest : ι} {flight : Flight ι} {o : Received} (env : Env)
    (hk : s.traffic.inFlight[k]? = some flight) (ho : arrival mesh s flight dest = some o) :
    netStep mesh s (.deliver k dest env) =
      ((perform mesh (taken s k) dest (some flight) ⟨.received o, env⟩).1,
        .delivered dest flight :: (perform mesh (taken s k) dest (some flight) ⟨.received o, env⟩).2) := by
  simp only [netStep, hk, ho, taken]

theorem deliver_silent {k : Nat} {dest : ι} {flight : Flight ι} {o : Received} {env : Env}
    (hk : s.traffic.inFlight[k]? = some flight) (ho : arrival mesh s flight dest = some o)
    (hcalls : (nodeStep (mesh.config dest) (s.nodes dest) ⟨.received o, env⟩).2 = []) :
    Effect mesh s (.deliver k dest env)
      (netStep mesh s (.deliver k dest env)).1.traffic (netStep mesh s (.deliver k dest env)).2 := by
  rw [netStep_deliver env hk ho]
  obtain ⟨ht, hout⟩ := perform_silent (s := taken s k) (some flight) hcalls rfl rfl
  rw [ht, hout]
  exact .dropped k dest env flight hk

theorem deliver_root_effect (h : NodesOk mesh s.nodes) {k : Nat} {flight : Flight ι} {o : Received}
    (env : Env) (hk : s.traffic.inFlight[k]? = some flight) (ho : arrival mesh s flight mesh.root = some o) :
    Effect mesh s (.deliver k mesh.root env)
      (netStep mesh s (.deliver k mesh.root env)).1.traffic
      (netStep mesh s (.deliver k mesh.root env)).2 := by
  obtain ⟨hrun, hself, -⟩ := h mesh.root
  have hconfig : mesh.config mesh.root = ⟨true, mesh.rxStack mesh.root⟩ := by simp [Mesh.config]
  have hcalls := root_received hrun (mesh.rxStack mesh.root) o env
  rw [← hconfig] at hcalls
  split at hcalls
  · rename_i hkart
    obtain ⟨-, htopic⟩ := hkart
    rw [hself] at htopic
    obtain ⟨horigin, -, hsender⟩ := accepted_arrival ho htopic
    rw [mqttAppPublish] at hcalls
    split at hcalls
    · rw [netStep_deliver env hk ho]
      obtain ⟨ht, hout⟩ := perform_calls (s := taken s k) (some flight) hcalls
      rw [ht, hout]
      have he : Effect mesh s _ _ _ := .publish k env flight
        (espMqttClientPublish env.client (kartTopic o.sender)
          (Memory.store (s.nodes mesh.root).mesh.rxBuf o.frame).cells 0 1 false) hk horigin
        (by rw [hsender]; rfl)
      have hroute : subscribed (espMqttClientPublish env.client (kartTopic o.sender)
          (Memory.store (s.nodes mesh.root).mesh.rxBuf o.frame).cells 0 1 false) = [] :=
        if_neg (kartTopic_ne_track o.sender)
      simpa [publications, sends, launch, taken, hroute] using he
    · exact deliver_silent hk ho hcalls
  · exact deliver_silent hk ho hcalls

theorem deliver_leaf_effect (h : NodesOk mesh s.nodes) {k : Nat} {dest : ι} {flight : Flight ι}
    {o : Received} (env : Env) (hdest : dest ≠ mesh.root) (hk : s.traffic.inFlight[k]? = some flight)
    (ho : arrival mesh s flight dest = some o) : Effect mesh s (.deliver k dest env)
      (netStep mesh s (.deliver k dest env)).1.traffic (netStep mesh s (.deliver k dest env)).2 := by
  obtain ⟨hrun, hself, hroot⟩ := h dest
  have hconfig : mesh.config dest = ⟨false, mesh.rxStack dest⟩ := by simp [Mesh.config, hdest]
  have hcalls := leaf_received hrun (mesh.rxStack dest) o env
  rw [← hconfig] at hcalls
  split at hcalls
  · rename_i htrack
    obtain ⟨-, htopic⟩ := htrack
    rw [hself] at htopic
    obtain ⟨-, hof, -⟩ := accepted_arrival ho htopic
    rw [netStep_deliver env hk ho]
    obtain ⟨ht, hout⟩ := perform_calls (s := taken s k) (some flight) hcalls
    rw [ht, hout]
    have he : Effect mesh s _ _ _ := .reply k dest env flight hk hdest
      hof
    simpa [publications, sends, launch, taken, meshSendRoot, meshSend_single _ hroot, replyFlight,
      replyData_frame] using he
  · exact deliver_silent hk ho hcalls

theorem deliver_effect (h : NodesOk mesh s.nodes) (k : Nat) (dest : ι) (env : Env) :
    Effect mesh s (.deliver k dest env)
      (netStep mesh s (.deliver k dest env)).1.traffic (netStep mesh s (.deliver k dest env)).2 := by
  cases hk : s.traffic.inFlight[k]? with
  | none =>
      simp only [netStep, hk]
      exact .idle _
  | some flight =>
      cases ho : arrival mesh s flight dest with
      | none =>
          simp only [netStep, hk, ho]
          exact .idle _
      | some o =>
          by_cases hdest : dest = mesh.root
          · subst hdest
            exact deliver_root_effect h env hk ho
          · exact deliver_leaf_effect h env hdest hk ho

theorem occurs_silent (h : NodesOk mesh s.nodes) (cause : Option (Flight ι)) {n : ι} {input : NodeInput}
    (hocc : occurs input.event = true) :
    (perform mesh s n cause input).1.traffic = s.traffic ∧ (perform mesh s n cause input).2 = [] := by
  obtain ⟨event, env⟩ := input
  have harea : event.area ≠ .traffic →
      (perform mesh s n cause ⟨event, env⟩).1.traffic = s.traffic ∧
        (perform mesh s n cause ⟨event, env⟩).2 = [] := by
    intro ha
    obtain ⟨hsends, hpubs⟩ := silent_of_area
      (nodeStep (mesh.config n) (s.nodes n) ⟨event, env⟩).2 (fun c hc => by rw [nodeStep_area _ _ c hc]; exact ha)
    exact perform_silent cause rfl hsends hpubs
  cases event with
  | received o =>
      have herr : o.err ≠ espOk := of_decide_eq_true hocc
      have hnone : accepted (s.nodes n).mesh.meshCurrentAddr o = none := if_pos (.inl herr)
      have hcalls : (nodeStep (mesh.config n) (s.nodes n) ⟨.received o, env⟩).2 = [] := by
        rw [nodeStep_received _ (h n).1, frameCalls, hnone]
        simp
      exact perform_silent cause hcalls rfl rfl
  | mqtt event =>
      cases event with
      | data event => cases hocc
      | _ => exact harea (by simp [NodeEvent.area])
  | _ => exact harea (by simp [NodeEvent.area])

/-- The network does nothing but what an effect describes. -/
theorem netStep_effect (h : NodesOk mesh s.nodes) (i : NetInput ι) :
    Effect mesh s i (netStep mesh s i).1.traffic (netStep mesh s i).2 := by
  cases i with
  | external events => exact .external events
  | lose k => exact .lose k
  | data k env => exact data_effect k env
  | deliver k dest env => exact deliver_effect h k dest env
  | node n input =>
      simp only [netStep]
      split
      · rename_i hocc
        obtain ⟨ht, hout⟩ := occurs_silent h none hocc
        rw [ht, hout]
        exact .idle _
      · exact .idle _

end Steps

end RaceControl.Network
