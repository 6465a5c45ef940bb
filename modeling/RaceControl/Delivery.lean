import RaceControl.Lifecycle
import RaceControl.Provenance

namespace RaceControl.Delivery

open Machine Memory History Esp MeshSend Globals Messages Topic MeshRx MeshEvents MqttApp Node Network Lifecycle

variable {ι : Type}

section Arrival

variable {mesh : Mesh ι} {s : NetState ι}

/-- Which delivered frames a node takes for messages on a topic. The empty frame
would read as a message on topic 0. -/
theorem arrival_topic {dest : ι} {flight : Flight ι} {o : Received} (ho : arrival mesh s flight dest = some o)
    {topic : UInt32} (hzero : topic ≠ 0) :
    OnTopic (mesh.addr dest) topic o ↔ flight.origin ≠ dest ∧ topicOf flight.frame = some topic := by
  constructor
  · intro htopic
    obtain ⟨horigin, htopic, -⟩ := accepted_arrival ho htopic
    exact ⟨horigin, htopic⟩
  · rintro ⟨horigin, htopic⟩
    rw [arrival] at ho
    split at ho
    · cases ho
      have hself : (mesh.addr flight.origin).1 ≠ (mesh.addr dest).1 := fun h =>
        horigin (mesh.distinct (Subtype.ext h))
      have hempty : flight.frame ≠ [] := by
        intro hnil
        have hread : topicOf [] = some 0 := by decide +kernel
        rw [hnil, hread] at htopic
        exact hzero (Option.some.inj htopic).symm
      rw [OnTopic, accepted, if_neg (by simp [hempty, hself])]
      exact htopic
    · cases ho

theorem arrival_frame {dest : ι} {flight : Flight ι} {o : Received} (ho : arrival mesh s flight dest = some o) :
    o.frame = flight.frame ∧ o.sender = mesh.addr flight.origin ∧ (s.nodes dest).rx.isSome = true ∧
      (mesh.addr dest).1 = flight.dest ∧ flight.frame.length ≤ rxSize := by
  rw [arrival] at ho
  split at ho
  · rename_i h
    cases ho
    exact ⟨rfl, rfl, h.2.1, h.1, h.2.2⟩
  · cases ho

variable [DecidableEq ι]

/-- What the root publishes for a frame, if it comes to that. -/
def publicationOf (mesh : Mesh ι) (s : NetState ι) (flight : Flight ι) : Publication :=
  ⟨kartTopic (mesh.addr flight.origin), scan 0 (store (s.nodes mesh.root).mesh.rxBuf flight.frame).cells, 1, false⟩

def Publishes (mesh : Mesh ι) (s : NetState ι) (flight : Flight ι) : Prop :=
  flight.origin ≠ mesh.root ∧ topicOf flight.frame = some topicKart ∧ (s.nodes mesh.root).mqtt.mqttHandle = true

instance (mesh : Mesh ι) (s : NetState ι) (flight : Flight ι) : Decidable (Publishes mesh s flight) :=
  inferInstanceAs (Decidable (_ ∧ _ ∧ _))

def Replies (flight : Flight ι) (dest : ι) : Prop := flight.origin ≠ dest ∧ IsTrack flight

instance (flight : Flight ι) (dest : ι) : Decidable (Replies flight dest) :=
  inferInstanceAs (Decidable (_ ∧ _))

theorem deliver_root (h : NodesOk mesh s.nodes) {k : Nat} {flight : Flight ι} {o : Received} (env : Env)
    (hk : s.traffic.inFlight[k]? = some flight) (ho : arrival mesh s flight mesh.root = some o) :
    (netStep mesh s (.deliver k mesh.root env)).1.traffic =
        { s.traffic with inFlight := s.traffic.inFlight.eraseIdx k } ∧
      (netStep mesh s (.deliver k mesh.root env)).2 = .delivered mesh.root flight ::
        if Publishes mesh s flight then [.published (some flight) (publicationOf mesh s flight)] else [] := by
  obtain ⟨hrun, hself, -⟩ := h mesh.root
  obtain ⟨hframe, hsender, hrx, -, -⟩ := arrival_frame ho
  have hconfig : mesh.config mesh.root = ⟨true, mesh.rxStack mesh.root⟩ := by simp [Mesh.config]
  have hcalls := root_received hrun (mesh.rxStack mesh.root) o env
  have htopic := arrival_topic ho (by decide : topicKart ≠ 0)
  rw [← hconfig, hself] at hcalls
  rw [netStep_deliver env hk ho]
  by_cases hp : Publishes mesh s flight
  · obtain ⟨horigin, hkart, hhandle⟩ := hp
    rw [if_pos ⟨hrx, htopic.mpr ⟨horigin, hkart⟩⟩, mqttAppPublish, if_pos hhandle, hframe, hsender] at hcalls
    have hpub : espMqttClientPublish env.client (kartTopic (mesh.addr flight.origin))
        (store (s.nodes mesh.root).mesh.rxBuf flight.frame).cells 0 1 false = publicationOf mesh s flight :=
      espMqttClientPublish_string _ _ _ _ _
    have hroute : subscribed (publicationOf mesh s flight) = [] := if_neg (kartTopic_ne_track _)
    rw [hpub] at hcalls
    obtain ⟨ht, hout⟩ := perform_calls (s := taken s k) (some flight) hcalls
    rw [ht, hout, if_pos ⟨horigin, hkart, hhandle⟩]
    simp [publications, sends, launch, taken, hroute]
  · have hsilent : (nodeStep (mesh.config mesh.root) (s.nodes mesh.root) ⟨.received o, env⟩).2 = [] := by
      rw [hcalls]
      split
      · rename_i hcond
        rw [mqttAppPublish, if_neg]
        obtain ⟨horigin, hkart⟩ := htopic.mp hcond.2
        exact fun hhandle => hp ⟨horigin, hkart, hhandle⟩
      · rfl
    obtain ⟨ht, hout⟩ := perform_silent (s := taken s k) (some flight) hsilent rfl rfl
    rw [ht, hout, if_neg hp]
    exact ⟨rfl, rfl⟩

theorem deliver_leaf (h : NodesOk mesh s.nodes) {k : Nat} {dest : ι} {flight : Flight ι} {o : Received}
    (env : Env) (hdest : dest ≠ mesh.root) (hk : s.traffic.inFlight[k]? = some flight)
    (ho : arrival mesh s flight dest = some o) :
    (netStep mesh s (.deliver k dest env)).1.traffic.inFlight =
        s.traffic.inFlight.eraseIdx k ++ (if Replies flight dest then [replyFlight s dest] else []) ∧
      (netStep mesh s (.deliver k dest env)).2 = .delivered dest flight ::
        if Replies flight dest then [.sent (some flight) (replyFlight s dest)] else [] := by
  obtain ⟨hrun, hself, hroot⟩ := h dest
  obtain ⟨-, -, hrx, -, -⟩ := arrival_frame ho
  have hconfig : mesh.config dest = ⟨false, mesh.rxStack dest⟩ := by simp [Mesh.config, hdest]
  have hcalls := leaf_received hrun (mesh.rxStack dest) o env
  have htopic := arrival_topic ho (by decide : topicTrack ≠ 0)
  rw [← hconfig, hself] at hcalls
  rw [netStep_deliver env hk ho]
  by_cases hr : Replies flight dest
  · rw [if_pos ⟨hrx, htopic.mpr hr⟩] at hcalls
    obtain ⟨ht, hout⟩ := perform_calls (s := taken s k) (some flight) hcalls
    rw [ht, hout, if_pos hr, if_pos hr]
    simp [publications, sends, launch, taken, meshSendRoot, meshSend_single _ hroot, replyFlight, replyData_frame]
  · rw [if_neg (fun hcond => hr (htopic.mp hcond.2))] at hcalls
    obtain ⟨ht, hout⟩ := perform_silent (s := taken s k) (some flight) hcalls rfl rfl
    rw [ht, hout, if_neg hr, if_neg hr]
    exact ⟨(List.append_nil _).symm, rfl⟩

end Arrival

section Nodes

variable [DecidableEq ι] {mesh : Mesh ι} {s : NetState ι}

theorem perform_node (mesh : Mesh ι) (s : NetState ι) (m : ι) (cause : Option (Flight ι)) (input : NodeInput) (n : ι) :
    (perform mesh s m cause input).1.nodes n =
      if n = m then (nodeStep (mesh.config n) (s.nodes n) input).1 else s.nodes n := by
  by_cases h : n = m
  · subst h
    simp [perform]
  · simp [perform, h]

/-- A step of the network is a step of at most one node, or of none. -/
def nodeInput (mesh : Mesh ι) (n : ι) (s : NetState ι) : NetInput ι → Option NodeInput
  | .data k env => if n = mesh.root then (s.traffic.broker[k]?).map fun event => ⟨.mqtt (.data event), env⟩ else none
  | .deliver k dest env =>
      if n = dest then
        ((s.traffic.inFlight[k]?).bind fun flight => arrival mesh s flight n).map fun o => ⟨.received o, env⟩
      else none
  | .node m input => if n = m ∧ occurs input.event = true then some input else none
  | .external _ | .lose _ => none

theorem netStep_node (mesh : Mesh ι) (s : NetState ι) (i : NetInput ι) (n : ι) :
    (netStep mesh s i).1.nodes n =
      match nodeInput mesh n s i with
      | none => s.nodes n
      | some input => (nodeStep (mesh.config n) (s.nodes n) input).1 := by
  cases i with
  | external events => rfl
  | lose k => rfl
  | data k env =>
      cases hk : s.traffic.broker[k]? with
      | none => simp [netStep, nodeInput, hk]
      | some event =>
          simp only [netStep, nodeInput, hk, perform_node, Option.map_some]
          split <;> rfl
  | deliver k dest env =>
      cases hk : s.traffic.inFlight[k]? with
      | none => simp [netStep, nodeInput, hk]
      | some flight =>
          by_cases hn : n = dest
          · subst hn
            cases ho : arrival mesh s flight n with
            | none => simp [netStep, nodeInput, hk, ho]
            | some o => simp [netStep, nodeInput, hk, ho, perform_node]
          · cases ho : arrival mesh s flight dest with
            | none => simp [netStep, nodeInput, hk, ho, hn]
            | some o => simp [netStep, nodeInput, hk, ho, hn, perform_node]
  | node m input =>
      by_cases hocc : occurs input.event = true
      · simp only [netStep, nodeInput, hocc, perform_node, if_true, and_true]
        split <;> rfl
      · simp [netStep, nodeInput, hocc]

/-- In a run of the network every node makes a run of its own. -/
theorem nodes_run (mesh : Mesh ι) (inputs : List (NetInput ι)) (n : ι) :
    ∃ run, (final (netStep mesh) (netInit mesh) inputs).nodes n =
      final (nodeStep (mesh.config n)) (nodeInit (mesh.addr n)) run := by
  refine final_invariant (netStep mesh)
    (P := fun s => ∃ run, s.nodes n = final (nodeStep (mesh.config n)) (nodeInit (mesh.addr n)) run) ?_ ⟨[], rfl⟩ inputs
  rintro s i ⟨run, hrun⟩
  rw [netStep_node]
  cases nodeInput mesh n s i with
  | none => exact ⟨run, hrun⟩
  | some input =>
      refine ⟨run ++ [input], ?_⟩
      rw [final_append, ← hrun]
      rfl

end Nodes

section Buffer

/-- What an input leaves in the receive buffer of a node. -/
def storedFrames (s : NodeState) (i : NodeInput) : List (List UInt8) :=
  match i.event with
  | .received o => if s.rx.isSome then [o.frame] else []
  | _ => []

theorem nodeStep_rxBuf (config : NodeConfig) {s : NodeState} (hrun : s.mesh.isRunning = true) (i : NodeInput) :
    (nodeStep config s i).1.mesh.rxBuf = (storedFrames s i).foldl store s.mesh.rxBuf := by
  obtain ⟨event, env⟩ := i
  cases event with
  | mesh event =>
      obtain ⟨running, hm, -⟩ := startRx_mesh config (meshEventHandler config.isRoot env s.mesh event).2
        { s with mesh := (meshEventHandler config.isRoot env s.mesh event).1 }
      have hbuf : (meshEventHandler config.isRoot env s.mesh event).1.rxBuf = s.mesh.rxBuf := by
        cases event with
        | parentConnected selfLayer bssid => simp only [meshEventHandler, espMeshCommStart_vars]
        | _ => rfl
      rw [nodeStep, hm]
      exact hbuf
  | gotIp => exact congrArg MeshVars.rxBuf (startMqtt_mesh _ _)
  | received o =>
      cases hrx : s.rx with
      | none => simp [nodeStep, storedFrames, hrx]
      | some loc =>
          obtain ⟨tx, hv⟩ := rxPass_vars config.isRoot pbEncoder (s := ⟨s.mesh, loc⟩) hrun o
          simp [nodeStep, storedFrames, hrx, hv]
  | mqtt event => rfl
  | mqttTask => rfl

variable [DecidableEq ι] (mesh : Mesh ι)

/-- The network, with the frames that each step leaves at one node as its outputs. -/
def recorder (n : ι) : Step (NetState ι) (NetInput ι) (List UInt8) := fun s i =>
  ((netStep mesh s i).1, (nodeInput mesh n s i).toList.flatMap (storedFrames (s.nodes n)))

def framesAt (n : ι) (inputs : List (NetInput ι)) : List (List UInt8) := trace (recorder mesh n) (netInit mesh) inputs

theorem final_recorder (n : ι) (s : NetState ι) (inputs : List (NetInput ι)) :
    final (recorder mesh n) s inputs = final (netStep mesh) s inputs := by
  rw [final_map (recorder mesh n) (netStep mesh) id (fun _ _ => rfl), List.map_id]

structure Recorded (n : ι) (frames : List (List UInt8)) (s : NetState ι) : Prop where
  nodes : NodesOk mesh s.nodes
  buffer : (s.nodes n).mesh.rxBuf = frames.foldl store (fill rxSize 0)
  fits : ∀ frame ∈ frames, frame.length ≤ rxSize

theorem storedFrames_fit (s : NodeState) (i : NodeInput) : ∀ frame ∈ storedFrames s i, frame.length ≤ rxSize := by
  obtain ⟨event, env⟩ := i
  cases event with
  | received o =>
      intro frame hf
      simp only [storedFrames] at hf
      split at hf
      · rw [List.mem_singleton.mp hf]
        exact o.fits
      · cases hf
  | _ => exact fun frame hf => absurd hf List.not_mem_nil

/-- At any time the receive buffer of a node holds the frames it received, one
written over the other. -/
theorem recorded_run (n : ι) (inputs : List (NetInput ι)) :
    Recorded mesh n (framesAt mesh n inputs) (final (netStep mesh) (netInit mesh) inputs) := by
  have h := history_invariant (recorder mesh n) (P := Recorded mesh n) ?_
    (⟨netInit_nodesOk mesh, rfl, nofun⟩ : Recorded mesh n [] (netInit mesh)) inputs
  · rw [final_recorder, List.nil_append] at h
    exact h
  · intro frames s i h
    refine ⟨netStep_nodesOk h.nodes i, ?_, ?_⟩
    · have hnode := netStep_node mesh s i n
      rw [recorder, hnode, List.foldl_append, ← h.buffer]
      cases nodeInput mesh n s i with
      | none => rfl
      | some input =>
          rw [nodeStep_rxBuf _ (h.nodes n).1]
          simp
    · intro frame hf
      rcases List.mem_append.mp hf with hf | hf
      · exact h.fits frame hf
      · obtain ⟨input, -, hstored⟩ := List.mem_flatMap.mp hf
        exact storedFrames_fit _ _ frame hstored

end Buffer

section Content

def statusFrame : List UInt8 := (pbEncoder kartStatusMsg).bytes

theorem statusFrame_fits : 0 ∉ statusFrame ∧ statusFrame.length < rxSize := by
  decide +kernel

def dataEvents (outputs : List (NetOutput ι)) : List DataEvent :=
  outputs.filterMap fun
    | .dataEvent event => some event
    | _ => none

def raised : NetInput ι → List DataEvent
  | .external events => events
  | _ => []

/-- The content of a sent frame: what a data event brought, or the status in
answer to a track message that was delivered to the sender. -/
def Sent (mesh : Mesh ι) (past : List (NetOutput ι)) : NetOutput ι → Prop
  | .sent none flight => flight.origin = mesh.root ∧
      ∃ event ∈ dataEvents past, flight.frame = (forwarded event).frame
  | .sent (some query) flight => flight.origin ≠ mesh.root ∧ flight.frame = statusFrame ∧
      IsTrack query ∧ .delivered flight.origin query ∈ past
  | _ => True

variable {mesh : Mesh ι} {s : NetState ι} {i : NetInput ι} {t : Traffic ι} {past out : List (NetOutput ι)}

theorem launch_frame (origin : ι) (id : Nat) (calls : List SendCall) :
    (launch origin id calls).map Flight.frame = calls.map fun call => call.data.frame := by
  induction calls generalizing id with
  | nil => rfl
  | cons call calls ih => exact congrArg (call.data.frame :: ·) (ih (id + 1))

theorem broadcastFlights_frame (mesh : Mesh ι) (s : NetState ι) (env : Env) (event : DataEvent) :
    ∀ flight ∈ broadcastFlights mesh s env event, flight.frame = (forwarded event).frame := by
  intro flight hf
  have hmem := List.mem_map_of_mem (f := Flight.frame) hf
  rw [broadcastFlights, launch_frame, meshSend_broadcast] at hmem
  obtain ⟨call, hcall, hframe⟩ := List.mem_map.mp hmem
  obtain ⟨_, _, _, rfl⟩ := mem_broadcastLoop.mp hcall
  exact hframe.symm

theorem broadcastFlights_origin (mesh : Mesh ι) (s : NetState ι) (env : Env) (event : DataEvent) :
    ∀ flight ∈ broadcastFlights mesh s env event, flight.origin = mesh.root :=
  Provenance.launch_origin mesh.root _ _

theorem dataEvents_append (past out : List (NetOutput ι)) :
    dataEvents (past ++ out) = dataEvents past ++ dataEvents out := List.filterMap_append

theorem dataEvents_flights (flights : List (Flight ι)) : dataEvents (flights.map (.sent none)) = [] := by
  rw [dataEvents, List.filterMap_map, List.filterMap_eq_nil_iff]
  exact fun _ _ => rfl

theorem dataEvents_event (event : DataEvent) (outputs : List (NetOutput ι)) :
    dataEvents (.dataEvent event :: outputs) = event :: dataEvents outputs := rfl

theorem follows_flights {flights : List (Flight ι)}
    (h : ∀ flight ∈ flights, flight.origin = mesh.root ∧
      ∃ event ∈ dataEvents past, flight.frame = (forwarded event).frame) :
    Follows (Sent mesh) past (flights.map (.sent none)) := by
  induction flights generalizing past with
  | nil => trivial
  | cons flight flights ih =>
      refine ⟨h flight (by simp), ih ?_⟩
      intro f hf
      obtain ⟨horigin, event, hevent, hframe⟩ := h f (by simp [hf])
      refine ⟨horigin, event, ?_, hframe⟩
      rw [dataEvents_append]
      exact List.mem_append_left _ hevent

theorem sent_step (he : Effect mesh s i t out) : Follows (Sent mesh) past out := by
  cases he with
  | data k env event hk =>
      refine ⟨trivial, follows_flights ?_⟩
      intro flight hf
      refine ⟨broadcastFlights_origin mesh s env event flight hf, event, ?_,
        broadcastFlights_frame mesh s env event flight hf⟩
      rw [dataEvents_append]
      exact List.mem_append_right _ (List.mem_singleton_self event)
  | reply k dest env flight hk hdest htrack =>
      exact ⟨trivial, ⟨hdest, rfl, htrack, List.mem_append_right _ (List.mem_singleton_self _)⟩, trivial⟩
  | publish => exact ⟨trivial, trivial, trivial⟩
  | dropped => exact ⟨trivial, trivial⟩
  | _ => trivial

theorem broker_step (he : Effect mesh s i t out) (hi : ∀ events, i ≠ .external events) :
    (dataEvents out ++ t.broker).Perm s.traffic.broker := by
  cases he with
  | external events => exact absurd rfl (hi events)
  | data k env event hk =>
      rw [dataEvents_event, dataEvents_flights]
      exact perm_cons_eraseIdx hk
  | _ => exact List.Perm.refl _

variable [DecidableEq ι]

/-- A data event is due until it is raised, and only others add to what is due. -/
theorem netStep_broker (h : NodesOk mesh s.nodes) (i : NetInput ι) :
    (dataEvents (netStep mesh s i).2 ++ (netStep mesh s i).1.traffic.broker).Perm
      (s.traffic.broker ++ raised i) := by
  cases i with
  | external events => exact List.Perm.refl _
  | _ => exact (broker_step (netStep_effect h _) (by simp)).trans (.of_eq (List.append_nil _).symm)

theorem broker_run (h : NodesOk mesh s.nodes) (inputs : List (NetInput ι)) :
    (dataEvents (trace (netStep mesh) s inputs) ++ (final (netStep mesh) s inputs).traffic.broker).Perm
      (s.traffic.broker ++ inputs.flatMap raised) := by
  induction inputs generalizing s with
  | nil => simp [dataEvents]
  | cons i inputs ih =>
      have hstep := netStep_broker h i
      have hrest := ih (netStep_nodesOk h i)
      rw [trace_cons, final_cons, dataEvents_append, List.append_assoc, List.flatMap_cons]
      refine (hrest.append_left _).trans ?_
      rw [← List.append_assoc, ← List.append_assoc]
      exact hstep.append_right _

theorem sent_run (mesh : Mesh ι) (inputs : List (NetInput ι)) :
    NodesOk mesh (final (netStep mesh) (netInit mesh) inputs).nodes ∧
      Explained (Sent mesh) (trace (netStep mesh) (netInit mesh) inputs) := by
  have h := history_invariant (netStep mesh) (P := fun past s => NodesOk mesh s.nodes ∧ Explained (Sent mesh) past) ?_
    ⟨netInit_nodesOk mesh, explained_nil⟩ inputs
  · simpa using h
  · rintro past s i ⟨hnodes, hpast⟩
    exact ⟨netStep_nodesOk hnodes i, explained_follows hpast (sent_step (netStep_effect hnodes i))⟩

/-- Whatever the interleaving, every message that others publish is raised at
the root at most once and none is made up, and every frame that a node ever
sends carries one of them, from the root, or the status, in answer to a track
message that reached its sender. -/
theorem traffic_accounted (mesh : Mesh ι) (inputs : List (NetInput ι)) :
    let history := trace (netStep mesh) (netInit mesh) inputs
    (dataEvents history ++ (final (netStep mesh) (netInit mesh) inputs).traffic.broker).Perm
        (inputs.flatMap raised) ∧
      Explained (Sent mesh) history :=
  ⟨broker_run (netInit_nodesOk mesh) inputs, (sent_run mesh inputs).2⟩

/-- Only a kart message that reaches the root is published. -/
theorem published_step (h : NodesOk mesh s.nodes) {cause : Option (Flight ι)} {publication : Publication}
    (hp : .published cause publication ∈ (netStep mesh s i).2) :
    ∃ k env flight, i = .deliver k mesh.root env ∧ s.traffic.inFlight[k]? = some flight ∧ cause = some flight ∧
      Publishes mesh s flight ∧ publication = publicationOf mesh s flight := by
  have he := netStep_effect h i
  generalize hout : (netStep mesh s i).2 = out at he hp
  generalize (netStep mesh s i).1.traffic = t at he
  cases he with
  | data k env event hk => simp at hp
  | publish k env flight p hk horigin htopic =>
      cases ho : arrival mesh s flight mesh.root with
      | none => simp [netStep, hk, ho] at hout
      | some o =>
          obtain ⟨-, hexact⟩ := deliver_root h env hk ho
          rw [hout] at hexact
          by_cases hpub : Publishes mesh s flight
          · rw [if_pos hpub] at hexact
            obtain ⟨-, rfl⟩ : cause = some flight ∧ publication = p := by simpa using hp
            have heq : publication = publicationOf mesh s flight := by simpa using hexact
            obtain ⟨hcause, -⟩ : cause = some flight ∧ publication = publication := by simpa using hp
            exact ⟨k, env, flight, rfl, hk, hcause, hpub, heq⟩
          · rw [if_neg hpub] at hexact
            simp at hexact
  | reply k dest env flight hk hdest htrack => simp at hp
  | dropped k dest env flight hk => simp at hp
  | _ => cases hp

theorem status_inFlight (mesh : Mesh ι) (inputs : List (NetInput ι)) :
    ∀ flight ∈ (final (netStep mesh) (netInit mesh) inputs).traffic.inFlight,
      flight.origin ≠ mesh.root → flight.frame = statusFrame := by
  have h := final_invariant (netStep mesh) (P := fun s => NodesOk mesh s.nodes ∧
    ∀ flight ∈ s.traffic.inFlight, flight.origin ≠ mesh.root → flight.frame = statusFrame) ?_
    ⟨netInit_nodesOk mesh, nofun⟩ inputs
  · exact h.2
  · rintro s i ⟨hnodes, hs⟩
    refine ⟨netStep_nodesOk hnodes i, ?_⟩
    have he := netStep_effect hnodes i
    generalize (netStep mesh s i).2 = out at he
    generalize (netStep mesh s i).1.traffic = t at he
    have herase : ∀ k, ∀ flight ∈ s.traffic.inFlight.eraseIdx k, flight.origin ≠ mesh.root →
        flight.frame = statusFrame := fun k flight hf => hs flight ((List.eraseIdx_sublist _ k).mem hf)
    cases he with
    | idle | external => exact hs
    | data k env event hk =>
        intro flight hf horigin
        rcases List.mem_append.mp hf with hf | hf
        · exact hs flight hf horigin
        · exact absurd (broadcastFlights_origin mesh s env event flight hf) horigin
    | reply k dest env query hk hdest htrack =>
        intro flight hf horigin
        rcases List.mem_append.mp hf with hf | hf
        · exact herase k flight hf horigin
        · rw [List.mem_singleton.mp hf]
          rfl
    | lose k | dropped k | publish k => exact herase k

/-- The bytes that frames received before left behind the status. -/
def stale (mesh : Mesh ι) (inputs : List (NetInput ι)) : List UInt8 :=
  ((framesAt mesh mesh.root inputs).foldl store (fill rxSize 0)).cells.drop statusFrame.length

theorem publicationOf_payload (mesh : Mesh ι) (inputs : List (NetInput ι)) {flight : Flight ι}
    (hframe : flight.frame = statusFrame) :
    (publicationOf mesh (final (netStep mesh) (netInit mesh) inputs) flight).payload =
      (scan 0 (stale mesh inputs)).map (statusFrame ++ ·) := by
  obtain ⟨-, hbuf, -⟩ := recorded_run mesh mesh.root inputs
  obtain ⟨hzero, hroom⟩ := statusFrame_fits
  rw [publicationOf, hbuf, hframe, cells_store _ _ (Nat.le_of_lt hroom), scan_append _ _ _ hzero]
  rfl

/-- The status is all that is published exactly when a zero follows it in the
receive buffer. -/
theorem stale_iff (mesh : Mesh ι) (inputs : List (NetInput ι)) :
    (scan 0 (stale mesh inputs)).map (statusFrame ++ ·) = some statusFrame ↔
      residue 0 (framesAt mesh mesh.root inputs) statusFrame.length = 0 := by
  obtain ⟨-, -, hfits⟩ := recorded_run mesh mesh.root inputs
  obtain ⟨hzero, hroom⟩ := statusFrame_fits
  have hscan := scan_store_iff 0 ((framesAt mesh mesh.root inputs).foldl store (fill rxSize 0)) statusFrame
    (Nat.le_of_lt hroom)
  rw [cells_store _ _ (Nat.le_of_lt hroom), scan_append _ _ _ hzero, getElem?_history 0 _ hfits hroom] at hscan
  rw [stale, hscan]
  simp [hzero]

theorem framesAt_grows (mesh : Mesh ι) (n : ι) (pre post : List (NetInput ι)) :
    ∀ frame ∈ framesAt mesh n pre, frame ∈ framesAt mesh n (pre ++ post) := by
  intro frame hf
  rw [framesAt, trace_append]
  exact List.mem_append_left _ hf

theorem published_content (mesh : Mesh ι) (pre : List (NetInput ι)) {i : NetInput ι} {cause : Option (Flight ι)}
    {publication : Publication}
    (hp : .published cause publication ∈ (netStep mesh (final (netStep mesh) (netInit mesh) pre) i).2) :
    ∃ reply, cause = some reply ∧ reply.origin ≠ mesh.root ∧ reply.frame = statusFrame ∧
      publication = ⟨kartTopic (mesh.addr reply.origin),
        (scan 0 (stale mesh pre)).map (statusFrame ++ ·), 1, false⟩ := by
  obtain ⟨k, env, reply, -, hk, hcause, hpub, rfl⟩ := published_step (sent_run mesh pre).1 hp
  have hframe := status_inFlight mesh pre reply (List.mem_of_getElem? hk) hpub.1
  refine ⟨reply, hcause, hpub.1, hframe, ?_⟩
  rw [← publicationOf_payload mesh pre hframe]
  rfl

/-- Every publication of a run is the status, on the topic of the node it is
from, with the bytes behind it that longer frames left up to the next zero.
There are none exactly when the last frame to reach beyond the status left a
zero there, and in particular as long as no frame the root received is longer. -/
theorem publications_carry_status (mesh : Mesh ι) (inputs : List (NetInput ι)) :
    (∀ pre i post, inputs = pre ++ i :: post → ∀ cause publication,
      .published cause publication ∈ (netStep mesh (final (netStep mesh) (netInit mesh) pre) i).2 →
        (∃ reply, cause = some reply ∧ reply.origin ≠ mesh.root ∧ reply.frame = statusFrame ∧
          publication = ⟨kartTopic (mesh.addr reply.origin),
            (scan 0 (stale mesh pre)).map (statusFrame ++ ·), 1, false⟩) ∧
        (publication.payload = some statusFrame ↔
          residue 0 (framesAt mesh mesh.root pre) statusFrame.length = 0)) ∧
      ((∀ frame ∈ framesAt mesh mesh.root inputs, frame.length ≤ statusFrame.length) →
        ∀ cause publication, .published cause publication ∈ trace (netStep mesh) (netInit mesh) inputs →
          publication.payload = some statusFrame) := by
  have hpayload : ∀ pre i cause publication,
      .published cause publication ∈ (netStep mesh (final (netStep mesh) (netInit mesh) pre) i).2 →
        (publication.payload = some statusFrame ↔
          residue 0 (framesAt mesh mesh.root pre) statusFrame.length = 0) := by
    intro pre i cause publication hp
    obtain ⟨reply, -, -, -, rfl⟩ := published_content mesh pre hp
    exact stale_iff mesh pre
  constructor
  · intro pre i post _ cause publication hp
    exact ⟨published_content mesh pre hp, hpayload pre i cause publication hp⟩
  · intro hshort cause publication hp
    obtain ⟨pre, i, post, rfl, hstep⟩ := mem_trace (netStep mesh) hp
    refine (hpayload pre i cause publication hstep).mpr (residue_unwritten 0 ?_)
    exact fun frame hf => hshort frame (framesAt_grows mesh mesh.root pre (i :: post) frame hf)

end Content

end RaceControl.Delivery
