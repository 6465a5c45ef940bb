import Mathlib.Algebra.BigOperators.Ring.List
import Mathlib.Algebra.Ring.Nat
import RaceControl.Library.History
import RaceControl.Network

namespace RaceControl.Storm

open Machine History Esp MeshSend Globals Messages Topic MeshRx Node Network

variable {ι : Type}

/-- What a frame in flight can still cause: a track message may be answered with
one more frame, which is no track message. -/
def weight (flight : Flight ι) : Nat := if IsTrack flight then 2 else 1

def measure (flights : List (Flight ι)) : Nat := (flights.map weight).sum

def trackCount (flights : List (Flight ι)) : Nat := flights.countP fun flight => decide (IsTrack flight)

def isSent : NetOutput ι → Bool
  | .sent _ _ => true
  | _ => false

def isPublished : NetOutput ι → Bool
  | .published _ _ => true
  | _ => false

def isDelivered : NetOutput ι → Bool
  | .delivered _ _ => true
  | _ => false

def isDataEvent : NetOutput ι → Bool
  | .dataEvent _ => true
  | _ => false

def routingTable (env : Env) : List MeshAddr := (env.stack.getRoutingTable (meshRouteTableMaxSize * 6)).2

def tableSize : NetInput ι → Nat
  | .data _ env => (routingTable env).length
  | _ => 0

theorem tableSize_deliver (k : Nat) (dest : ι) (env : Env) : tableSize (.deliver k dest env) = 0 := rfl

def newEvents : NetInput ι → Nat
  | .external events => events.length
  | _ => 0

section Effects

variable {mesh : Mesh ι} {s : NetState ι} {t : Traffic ι} {out : List (NetOutput ι)}

theorem weight_le_two (flight : Flight ι) : weight flight ≤ 2 := by
  rw [weight]
  split <;> omega

theorem weight_pos (flight : Flight ι) : 0 < weight flight := by
  rw [weight]
  split <;> omega

theorem measure_append (flights more : List (Flight ι)) :
    measure (flights ++ more) = measure flights + measure more := by
  rw [measure, List.map_append, List.sum_append, measure, measure]

theorem trackCount_append (flights more : List (Flight ι)) :
    trackCount (flights ++ more) = trackCount flights + trackCount more := List.countP_append

theorem trackCount_eraseIdx_le (flights : List (Flight ι)) (k : Nat) :
    trackCount (flights.eraseIdx k) ≤ trackCount flights :=
  (List.eraseIdx_sublist flights k).countP_le

theorem measure_take {flights : List (Flight ι)} {k : Nat} {flight : Flight ι}
    (hk : flights[k]? = some flight) : measure flights = weight flight + measure (flights.eraseIdx k) := by
  have h := ((perm_cons_eraseIdx hk).map weight).sum_eq
  rw [List.map_cons, List.sum_cons] at h
  exact h.symm

theorem trackCount_take {flights : List (Flight ι)} {k : Nat} {flight : Flight ι}
    (hk : flights[k]? = some flight) (ht : IsTrack flight) :
    trackCount flights = trackCount (flights.eraseIdx k) + 1 := by
  have h := (perm_cons_eraseIdx hk).countP_eq (fun f => decide (IsTrack f))
  rw [List.countP_cons, if_pos (decide_eq_true ht)] at h
  exact h.symm

theorem measure_eraseIdx_le (flights : List (Flight ι)) (k : Nat) :
    measure (flights.eraseIdx k) ≤ measure flights := by
  cases hk : flights[k]? with
  | none => simp [List.eraseIdx_of_length_le (List.getElem?_eq_none_iff.mp hk)]
  | some flight =>
      rw [measure_take hk]
      omega

theorem measure_le_length (flights : List (Flight ι)) : measure flights ≤ 2 * flights.length := by
  induction flights with
  | nil => exact Nat.le_refl _
  | cons flight flights ih =>
      have hw := weight_le_two flight
      simp only [measure, List.map_cons, List.sum_cons, List.length_cons] at ih ⊢
      omega

theorem replyFlight_topic (s : NetState ι) (n : ι) :
    topicOf (replyFlight s n).frame = some topicKart := by
  simp only [topicOf, replyFlight, readMessage_kartStatus, Option.map_some]
  rfl

theorem replyFlight_not_track (s : NetState ι) (n : ι) : ¬ IsTrack (replyFlight s n) := by
  rw [IsTrack, replyFlight_topic]
  decide

theorem launch_dest (origin : ι) (id : Nat) (calls : List SendCall) :
    (launch origin id calls).map Flight.dest = calls.map SendCall.dest := by
  induction calls generalizing id with
  | nil => rfl
  | cons call calls ih => exact congrArg (call.dest :: ·) (ih (id + 1))

theorem broadcastFlights_dest (mesh : Mesh ι) (s : NetState ι) (env : Env) (event : MqttApp.DataEvent) :
    (broadcastFlights mesh s env event).map Flight.dest = routingTable env := by
  have h := congrArg (List.map Prod.fst) (broadcastLoop_targets env.stack (forwarded event) 0 (routingTable env))
  rw [List.map_map, List.map_map] at h
  rw [broadcastFlights, launch_dest, meshSend_broadcast]
  exact h.trans (List.map_id _)

theorem broadcastFlights_length (mesh : Mesh ι) (s : NetState ι) (env : Env) (event : MqttApp.DataEvent) :
    (broadcastFlights mesh s env event).length = (routingTable env).length := by
  rw [← broadcastFlights_dest mesh s env event, List.length_map]

theorem isSent_flights (cause : Option (Flight ι)) (flights : List (Flight ι)) :
    (flights.map (NetOutput.sent cause)).countP isSent = flights.length := by
  rw [List.countP_eq_length.mpr, List.length_map]
  intro out ho
  obtain ⟨flight, _, rfl⟩ := List.mem_map.mp ho
  rfl

theorem countP_flights_zero {p : NetOutput ι → Bool} (hp : ∀ cause flight, p (.sent cause flight) = false)
    (cause : Option (Flight ι)) (flights : List (Flight ι)) :
    (flights.map (NetOutput.sent cause)).countP p = 0 := by
  rw [List.countP_eq_zero]
  intro out ho
  obtain ⟨flight, _, rfl⟩ := List.mem_map.mp ho
  simp [hp]

theorem dataEvents_broadcast (event : MqttApp.DataEvent) (flights : List (Flight ι)) :
    (NetOutput.dataEvent event :: flights.map (.sent none)).countP isDataEvent = 1 := by
  rw [List.countP_cons, countP_flights_zero (fun _ _ => rfl) none flights]
  rfl

/-- A frame is only sent for a track message that is no longer in flight, or for
a data event. -/
theorem sent_step {i : NetInput ι} (he : Effect mesh s i t out) :
    out.countP isSent + trackCount t.inFlight ≤
      trackCount s.traffic.inFlight + 2 * tableSize i * out.countP isDataEvent := by
  cases he with
  | idle | external events => simp
  | lose k => simpa [tableSize] using trackCount_eraseIdx_le s.traffic.inFlight k
  | data k env event hk =>
      have hsent := isSent_flights none (broadcastFlights mesh s env event)
      have htrack : trackCount (broadcastFlights mesh s env event) ≤
          (broadcastFlights mesh s env event).length := List.countP_le_length
      rw [broadcastFlights_length] at hsent htrack
      rw [dataEvents_broadcast, List.countP_cons, hsent, trackCount_append, tableSize]
      simp only [isSent, Bool.false_eq_true, if_false]
      omega
  | dropped k dest env flight hk =>
      simpa [isSent, tableSize] using trackCount_eraseIdx_le s.traffic.inFlight k
  | publish k env flight publication hk horigin htopic =>
      simpa [isSent, tableSize] using trackCount_eraseIdx_le s.traffic.inFlight k
  | reply k dest env flight hk hdest htrack =>
      have htake := trackCount_take hk htrack
      have hreply : trackCount [replyFlight s dest] = 0 := by
        simp [trackCount, replyFlight_not_track s dest]
      rw [trackCount_append, hreply, htake, tableSize_deliver]
      simp only [List.countP_cons, List.countP_nil, isSent, Bool.false_eq_true, if_false, if_true]
      omega

/-- Every delivery takes a frame out of flight that weighs more than what it
brings in. -/
theorem delivered_step {i : NetInput ι} (he : Effect mesh s i t out) :
    out.countP isDelivered + measure t.inFlight ≤
      measure s.traffic.inFlight + 2 * tableSize i * out.countP isDataEvent := by
  cases he with
  | idle | external events => simp
  | lose k => simpa [tableSize] using measure_eraseIdx_le s.traffic.inFlight k
  | data k env event hk =>
      have hzero : ((broadcastFlights mesh s env event).map (NetOutput.sent none)).countP isDelivered = 0 :=
        countP_flights_zero (fun _ _ => rfl) none _
      have hnew := measure_le_length (broadcastFlights mesh s env event)
      rw [broadcastFlights_length] at hnew
      rw [dataEvents_broadcast, List.countP_cons, hzero, measure_append, tableSize]
      simp only [isDelivered, Bool.false_eq_true, if_false]
      omega
  | dropped k dest env flight hk =>
      have hpos := weight_pos flight
      rw [measure_take hk, tableSize_deliver]
      simp only [List.countP_cons, List.countP_nil, isDelivered, if_true]
      omega
  | publish k env flight publication hk horigin htopic =>
      have hpos := weight_pos flight
      rw [measure_take hk, tableSize_deliver]
      simp only [List.countP_cons, List.countP_nil, isDelivered, Bool.false_eq_true, if_false, if_true]
      omega
  | reply k dest env flight hk hdest htrack =>
      have hflight : weight flight = 2 := if_pos htrack
      have hreply : measure [replyFlight s dest] = 1 := by
        simp [measure, weight, replyFlight_not_track s dest]
      rw [measure_append, hreply, measure_take hk, hflight, tableSize_deliver]
      simp only [List.countP_cons, List.countP_nil, isDelivered, Bool.false_eq_true, if_false, if_true]
      omega

theorem dataEvent_step {i : NetInput ι} (he : Effect mesh s i t out) :
    out.countP isDataEvent + t.broker.length ≤ s.traffic.broker.length + newEvents i := by
  cases he with
  | data k env event hk =>
      obtain ⟨hlt, -⟩ := List.getElem?_eq_some_iff.mp hk
      have hnone : newEvents (NetInput.data (ι := ι) k env) = 0 := rfl
      rw [dataEvents_broadcast, List.length_eraseIdx_of_lt hlt, hnone]
      omega
  | _ => simp [isDataEvent, newEvents]

theorem delivery_decreases {i : NetInput ι} (he : Effect mesh s i t out) {dest : ι} {flight : Flight ι}
    (hd : .delivered dest flight ∈ out) : measure t.inFlight < measure s.traffic.inFlight := by
  have hstep := delivered_step he
  have hpos : 0 < out.countP isDelivered := List.countP_pos_iff.mpr ⟨_, hd, rfl⟩
  have hzero : tableSize i = 0 := by
    cases he with
    | idle | external | lose => cases hd
    | data k env event hk => simp at hd
    | _ => rfl
  rw [hzero] at hstep
  omega

theorem data_sends {k : Nat} {env : Env} (he : Effect mesh s (.data k env) t out) :
    ((sentFlights out).map Flight.dest).Sublist (routingTable env) := by
  cases he with
  | idle => exact List.nil_sublist _
  | data _ _ event hk =>
      have hsent : sentFlights (.dataEvent event :: (broadcastFlights mesh s env event).map (.sent none)) =
          broadcastFlights mesh s env event := sentFlights_map none _
      rw [hsent, broadcastFlights_dest]

theorem leaf_sends {k : Nat} {dest : ι} {env : Env} (he : Effect mesh s (.deliver k dest env) t out)
    (hdest : dest ≠ mesh.root) : (sentFlights out).length ≤ 1 ∧ ∀ flight ∈ sentFlights out,
      flight.dest = (s.nodes dest).mesh.meshRootAddr ∧ topicOf flight.frame = some topicKart := by
  cases he with
  | idle | dropped => simp [sentFlights]
  | publish => exact absurd rfl hdest
  | reply _ _ _ flight hk _ htrack =>
      have hsent : sentFlights [.delivered dest flight, .sent (some flight) (replyFlight s dest)] =
          [replyFlight s dest] := rfl
      rw [hsent]
      refine ⟨Nat.le_refl _, ?_⟩
      intro f hf
      rw [List.mem_singleton.mp hf]
      exact ⟨rfl, replyFlight_topic s dest⟩

theorem root_sends {k : Nat} {env : Env} (he : Effect mesh s (.deliver k mesh.root env) t out) :
    sentFlights out = [] ∧ out.countP isPublished ≤ 1 := by
  cases he with
  | idle | dropped => exact ⟨rfl, by simp [isPublished]⟩
  | publish _ _ flight publication hk horigin htopic => exact ⟨rfl, by simp [isPublished]⟩
  | reply _ _ _ flight hk hdest htrack => exact absurd rfl hdest

theorem published_elsewhere {i : NetInput ι} (he : Effect mesh s i t out) {cause : Option (Flight ι)}
    {publication : Publication} (hp : .published cause publication ∈ out) :
    publication.topic ≠ mqttTrackTopic := by
  cases he with
  | idle | external | lose => cases hp
  | data k env event hk => simp at hp
  | publish k env flight p hk horigin htopic =>
      obtain ⟨-, rfl⟩ : cause = some flight ∧ publication = p := by simpa using hp
      rw [htopic]
      exact kartTopic_ne_track _
  | _ => simp at hp

theorem broker_shrinks {i : NetInput ι} (he : Effect mesh s i t out)
    (hi : ∀ events, i ≠ .external events) : t.broker.Sublist s.traffic.broker := by
  cases he with
  | external events => exact absurd rfl (hi events)
  | data k env event hk => exact List.eraseIdx_sublist _ k
  | _ => exact List.Sublist.refl _

end Effects

variable [DecidableEq ι]

structure StepBounds (mesh : Mesh ι) (s : NetState ι) : Prop where
  data : ∀ k env, ((sentFlights (netStep mesh s (.data k env)).2).map Flight.dest).Sublist (routingTable env)
  leaf : ∀ k dest env, dest ≠ mesh.root →
    (sentFlights (netStep mesh s (.deliver k dest env)).2).length ≤ 1 ∧
      ∀ flight ∈ sentFlights (netStep mesh s (.deliver k dest env)).2,
        flight.dest = (s.nodes dest).mesh.meshRootAddr ∧ topicOf flight.frame = some topicKart
  root : ∀ k env, sentFlights (netStep mesh s (.deliver k mesh.root env)).2 = [] ∧
    (netStep mesh s (.deliver k mesh.root env)).2.countP isPublished ≤ 1
  elsewhere : ∀ i cause publication, .published cause publication ∈ (netStep mesh s i).2 →
    publication.topic ≠ mqttTrackTopic
  noReturn : ∀ i, (∀ events, i ≠ .external events) →
    (netStep mesh s i).1.traffic.broker.Sublist s.traffic.broker
  decrease : ∀ i dest flight, .delivered dest flight ∈ (netStep mesh s i).2 →
    measure (netStep mesh s i).1.traffic.inFlight < measure s.traffic.inFlight

/-- What a run can cause, when no routing table has more than n entries. The
traffic it starts with, the data events that are due and those that others raise
pay for everything, whatever the order of the steps. -/
structure RunBounds (mesh : Mesh ι) (s : NetState ι) (n : Nat) (later : List (NetInput ι)) : Prop where
  sent : (trace (netStep mesh) s later).countP isSent ≤ trackCount s.traffic.inFlight +
    2 * n * (s.traffic.broker.length + (later.map newEvents).sum)
  delivered : (trace (netStep mesh) s later).countP isDelivered ≤ measure s.traffic.inFlight +
    2 * n * (s.traffic.broker.length + (later.map newEvents).sum)
  dataEvents : (trace (netStep mesh) s later).countP isDataEvent ≤
    s.traffic.broker.length + (later.map newEvents).sum

theorem stepBounds {mesh : Mesh ι} {s : NetState ι} (h : NodesOk mesh s.nodes) : StepBounds mesh s where
  data k env := data_sends (netStep_effect h (.data k env))
  leaf k dest env hdest := leaf_sends (netStep_effect h (.deliver k dest env)) hdest
  root k env := root_sends (netStep_effect h (.deliver k mesh.root env))
  elsewhere i _ _ hp := published_elsewhere (netStep_effect h i) hp
  noReturn i hi := broker_shrinks (netStep_effect h i) hi
  decrease i _ _ hd := delivery_decreases (netStep_effect h i) hd

/-- A data event is worth n entries of a routing table, each with a frame that
may be answered by one more. -/
theorem event_pays {paid left start entries n events due due' raised : Nat} (hn : entries ≤ n)
    (hpaid : paid + left ≤ start + 2 * entries * events) (hevents : events + due' ≤ due + raised) :
    paid + (left + 2 * n * due') ≤ start + 2 * n * due + 2 * n * raised := by
  have hentries : 2 * entries * events ≤ 2 * n * events :=
    Nat.mul_le_mul_right _ (Nat.mul_le_mul_left 2 hn)
  have hdue : 2 * n * (events + due') ≤ 2 * n * (due + raised) := Nat.mul_le_mul_left _ hevents
  rw [Nat.mul_add, Nat.mul_add] at hdue
  omega

theorem outputs_bounded {mesh : Mesh ι} {s : NetState ι} (h : NodesOk mesh s.nodes) {n : Nat}
    {later : List (NetInput ι)} (hn : ∀ i ∈ later, tableSize i ≤ n) (p : NetOutput ι → Bool)
    (potential : List (Flight ι) → Nat)
    (hstep : ∀ s i t out, Effect mesh s i t out → out.countP p + potential t.inFlight ≤
      potential s.traffic.inFlight + 2 * tableSize i * out.countP isDataEvent) :
    (trace (netStep mesh) s later).countP p ≤ potential s.traffic.inFlight +
      2 * n * (s.traffic.broker.length + (later.map newEvents).sum) := by
  have hrun := countP_le_potential (netStep mesh) (P := fun s => NodesOk mesh s.nodes) p
    (fun s => potential s.traffic.inFlight + 2 * n * s.traffic.broker.length)
    (fun i => 2 * n * newEvents i) later ?_ h
  · rw [List.sum_map_mul_left] at hrun
    rw [Nat.mul_add]
    omega
  · intro s i hi hs
    have he := netStep_effect hs i
    exact ⟨netStep_nodesOk hs i, event_pays (hn i hi) (hstep s i _ _ he) (dataEvent_step he)⟩

theorem runBounds {mesh : Mesh ι} {s : NetState ι} (h : NodesOk mesh s.nodes) {n : Nat}
    {later : List (NetInput ι)} (hn : ∀ i ∈ later, tableSize i ≤ n) : RunBounds mesh s n later where
  sent := outputs_bounded h hn isSent trackCount (fun _ _ _ _ he => sent_step he)
  delivered := outputs_bounded h hn isDelivered measure (fun _ _ _ _ he => delivered_step he)
  dataEvents := by
    have hrun := countP_le_potential (netStep mesh) (P := fun s => NodesOk mesh s.nodes) isDataEvent
      (fun s => s.traffic.broker.length) newEvents later
      (fun s i _ hs => ⟨netStep_nodesOk hs i, dataEvent_step (netStep_effect hs i)⟩) h
    omega

theorem nodesOk_run (mesh : Mesh ι) (inputs : List (NetInput ι)) :
    NodesOk mesh (final (netStep mesh) (netInit mesh) inputs).nodes :=
  final_invariant (netStep mesh) (P := fun s => NodesOk mesh s.nodes)
    (fun _ i hs => netStep_nodesOk hs i) (netInit_nodesOk mesh) inputs

/-- From every reachable state the traffic dies out. As long as no data event is
raised, a run sends at most one frame for each track message in flight. -/
theorem no_message_storm (mesh : Mesh ι) (inputs : List (NetInput ι)) :
    let s := final (netStep mesh) (netInit mesh) inputs
    StepBounds mesh s ∧
      (∀ n later, (∀ i ∈ later, tableSize i ≤ n) → RunBounds mesh s n later) ∧
      ∀ later, (∀ i ∈ later, ∀ k env, i ≠ .data k env) →
        (trace (netStep mesh) s later).countP isSent ≤ trackCount s.traffic.inFlight ∧
        (trace (netStep mesh) s later).countP isDelivered ≤ measure s.traffic.inFlight := by
  intro s
  have h : NodesOk mesh s.nodes := nodesOk_run mesh inputs
  refine ⟨stepBounds h, fun n later hn => runBounds h hn, ?_⟩
  intro later hquiet
  have hzero : ∀ i ∈ later, tableSize i ≤ 0 := by
    intro i hi
    cases i with
    | data k env => exact absurd rfl (hquiet _ hi k env)
    | _ => exact Nat.le_refl 0
  obtain ⟨hsent, hdelivered, -⟩ := runBounds h hzero
  simp only [Nat.mul_zero, Nat.zero_mul, Nat.add_zero] at hsent hdelivered
  exact ⟨hsent, hdelivered⟩

end RaceControl.Storm
