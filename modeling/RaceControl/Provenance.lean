import RaceControl.Library.History
import RaceControl.Network

namespace RaceControl.Provenance

open Machine History Esp Globals Topic Network

variable {ι : Type}

def publishedFlights (outputs : List (NetOutput ι)) : List (Flight ι) :=
  outputs.filterMap fun
    | .published cause _ => cause
    | _ => none

def ids (flights : List (Flight ι)) : List Nat := flights.map Flight.id

/-- The frame is its origin's reply to a track message that was delivered before. -/
def IsReply (past : List (NetOutput ι)) (flight : Flight ι) : Prop :=
  ∃ query, IsTrack query ∧
    [NetOutput.delivered flight.origin query, .sent (some query) flight].Sublist past

/-- What a publication rests on: a reply of the node whose topic it is on,
delivered to the root. Frames that answer nothing are the root's. -/
def Caused (mesh : Mesh ι) (past : List (NetOutput ι)) : NetOutput ι → Prop
  | .published cause publication => ∃ reply query, cause = some reply ∧ reply.origin ≠ mesh.root ∧
      publication.topic = kartTopic (mesh.addr reply.origin) ∧ IsTrack query ∧
      [NetOutput.delivered reply.origin query, .sent (some query) reply,
        .delivered mesh.root reply].Sublist past
  | .sent none flight => flight.origin = mesh.root
  | _ => True

/-- Numbers tell frames apart, and no frame that was published is still in flight. -/
structure Numbered (past : List (NetOutput ι)) (t : Traffic ι) : Prop where
  flying : (ids t.inFlight).Nodup
  sentOnce : (ids (sentFlights past)).Nodup
  publishedOnce : (ids (publishedFlights past)).Nodup
  landed : ∀ id ∈ ids (publishedFlights past), id ∉ ids t.inFlight
  flyingUsed : ∀ id ∈ ids t.inFlight, id < t.nextId
  sentUsed : ∀ id ∈ ids (sentFlights past), id < t.nextId
  publishedUsed : ∀ id ∈ ids (publishedFlights past), id < t.nextId

structure Explaining (mesh : Mesh ι) (past : List (NetOutput ι)) (t : Traffic ι) : Prop where
  explained : Explained (Caused mesh) past
  replies : ∀ flight ∈ t.inFlight, flight.origin ≠ mesh.root → IsReply past flight

theorem IsReply.append {past : List (NetOutput ι)} {flight : Flight ι} (h : IsReply past flight)
    (outputs : List (NetOutput ι)) : IsReply (past ++ outputs) flight := by
  obtain ⟨query, htrack, hs⟩ := h
  exact ⟨query, htrack, hs.trans (List.sublist_append_left past outputs)⟩

theorem launch_ids (origin : ι) (id : Nat) (calls : List MeshSend.SendCall) :
    ids (launch origin id calls) = List.range' id (launch origin id calls).length := by
  induction calls generalizing id with
  | nil => rfl
  | cons call calls ih =>
      simp only [launch, ids, List.map_cons, List.length_cons, List.range'_succ]
      exact congrArg (id :: ·) (ih (id + 1))

theorem launch_origin (origin : ι) (id : Nat) (calls : List MeshSend.SendCall) :
    ∀ flight ∈ launch origin id calls, flight.origin = origin := by
  induction calls generalizing id with
  | nil => simp [launch]
  | cons call calls ih =>
      intro flight hf
      rcases List.mem_cons.mp hf with rfl | hf
      · rfl
      · exact ih (id + 1) flight hf

variable {mesh : Mesh ι} {s : NetState ι} {i : NetInput ι} {t : Traffic ι} {past out : List (NetOutput ι)}

theorem explaining_step (h : Explaining mesh past s.traffic) (he : Effect mesh s i t out) :
    Explaining mesh (past ++ out) t := by
  have hkeep : ∀ k, ∀ flight ∈ s.traffic.inFlight.eraseIdx k, flight.origin ≠ mesh.root →
      IsReply (past ++ out) flight := fun k flight hf horigin =>
    (h.replies flight ((List.eraseIdx_sublist _ k).mem hf) horigin).append out
  cases he with
  | idle | external events => exact ⟨by simpa using h.explained, by simpa using h.replies⟩
  | lose k => exact ⟨by simpa using h.explained, hkeep k⟩
  | data k env event hk =>
      have hroot : ∀ flight ∈ broadcastFlights mesh s env event, flight.origin = mesh.root :=
        launch_origin mesh.root _ _
      refine ⟨explained_append h.explained ?_, ?_⟩
      · intro x hx pre
        rcases List.mem_cons.mp hx with rfl | hx
        · trivial
        · obtain ⟨flight, hf, rfl⟩ := List.mem_map.mp hx
          exact hroot flight hf
      · intro flight hf horigin
        rcases List.mem_append.mp hf with hf | hf
        · exact (h.replies flight hf horigin).append _
        · exact absurd (hroot flight hf) horigin
  | dropped k dest env flight hk =>
      refine ⟨explained_append h.explained ?_, hkeep k⟩
      intro x hx pre
      rw [List.mem_singleton.mp hx]
      trivial
  | publish k env flight publication hk horigin htopic =>
      refine ⟨?_, hkeep k⟩
      obtain ⟨query, htrack, hs⟩ := h.replies flight (List.mem_of_getElem? hk) horigin
      have hpast : Explained (Caused mesh) (past ++ [.delivered mesh.root flight]) :=
        (explained_concat _ _).mpr ⟨h.explained, trivial⟩
      have hcaused : Caused mesh (past ++ [.delivered mesh.root flight])
          (.published (some flight) publication) :=
        ⟨flight, query, rfl, horigin, htopic, htrack, hs.append (List.Sublist.refl _)⟩
      simpa using (explained_concat _ _).mpr ⟨hpast, hcaused⟩
  | reply k dest env flight hk hdest htrack =>
      refine ⟨explained_append h.explained ?_, ?_⟩
      · intro x hx pre
        rcases List.mem_cons.mp hx with rfl | hx
        · trivial
        · rw [List.mem_singleton.mp hx]
          trivial
      · intro f hf horigin
        rcases List.mem_append.mp hf with hf | hf
        · exact hkeep k f hf horigin
        · rw [List.mem_singleton.mp hf]
          exact ⟨flight, htrack, List.sublist_append_right past _⟩

theorem publishedFlights_append (past out : List (NetOutput ι)) :
    publishedFlights (past ++ out) = publishedFlights past ++ publishedFlights out := List.filterMap_append

theorem publishedFlights_map (cause : Option (Flight ι)) (flights : List (Flight ι)) :
    publishedFlights (flights.map (.sent cause)) = [] := by
  rw [publishedFlights, List.filterMap_map, List.filterMap_eq_nil_iff]
  exact fun _ _ => rfl

theorem Numbered.erase (h : Numbered past t) (k : Nat) :
    Numbered past { t with inFlight := t.inFlight.eraseIdx k } := by
  have hs : (ids (t.inFlight.eraseIdx k)).Sublist (ids t.inFlight) :=
    (List.eraseIdx_sublist _ k).map Flight.id
  refine ⟨h.flying.sublist hs, h.sentOnce, h.publishedOnce, ?_, ?_, h.sentUsed, h.publishedUsed⟩
  · intro id hp hf
    exact h.landed id hp (hs.mem hf)
  · intro id hf
    exact h.flyingUsed id (hs.mem hf)

theorem Numbered.launch {more : Traffic ι} (h : Numbered past t) (flights : List (Flight ι))
    (hids : ids flights = List.range' t.nextId flights.length)
    (hfly : more.inFlight = t.inFlight ++ flights) (hnext : more.nextId = t.nextId + flights.length)
    (hsent : sentFlights out = flights) (hpub : publishedFlights out = []) :
    Numbered (past ++ out) more := by
  have hnew : ∀ id ∈ ids flights, t.nextId ≤ id ∧ id < t.nextId + flights.length := by
    intro id hmem
    rw [hids, List.mem_range'_1] at hmem
    exact hmem
  have hnodup : (ids flights).Nodup := by
    rw [hids]
    exact List.nodup_range'
  have hflying : ids more.inFlight = ids t.inFlight ++ ids flights := by
    rw [hfly, ids, List.map_append]
    rfl
  have hsentIds : ids (sentFlights (past ++ out)) = ids (sentFlights past) ++ ids flights := by
    rw [sentFlights_append, hsent, ids, List.map_append]
    rfl
  have hpubIds : publishedFlights (past ++ out) = publishedFlights past := by
    rw [publishedFlights_append, hpub, List.append_nil]
  constructor
  · rw [hflying]
    refine List.nodup_append.mpr ⟨h.flying, hnodup, ?_⟩
    rintro id hf _ hn rfl
    exact absurd (h.flyingUsed id hf) (by have := hnew id hn; omega)
  · rw [hsentIds]
    refine List.nodup_append.mpr ⟨h.sentOnce, hnodup, ?_⟩
    rintro id hf _ hn rfl
    exact absurd (h.sentUsed id hf) (by have := hnew id hn; omega)
  · rw [hpubIds]
    exact h.publishedOnce
  · rw [hpubIds, hflying]
    intro id hp hf
    rcases List.mem_append.mp hf with hf | hn
    · exact h.landed id hp hf
    · exact absurd (h.publishedUsed id hp) (by have := hnew id hn; omega)
  · rw [hflying, hnext]
    intro id hf
    rcases List.mem_append.mp hf with hf | hn
    · exact Nat.lt_of_lt_of_le (h.flyingUsed id hf) (Nat.le_add_right _ _)
    · exact (hnew id hn).2
  · rw [hsentIds, hnext]
    intro id hf
    rcases List.mem_append.mp hf with hf | hn
    · exact Nat.lt_of_lt_of_le (h.sentUsed id hf) (Nat.le_add_right _ _)
    · exact (hnew id hn).2
  · rw [hpubIds, hnext]
    intro id hp
    exact Nat.lt_of_lt_of_le (h.publishedUsed id hp) (Nat.le_add_right _ _)

theorem Numbered.publish (h : Numbered past t) {k : Nat} {flight : Flight ι}
    (hk : t.inFlight[k]? = some flight) (hsent : sentFlights out = [])
    (hpub : publishedFlights out = [flight]) :
    Numbered (past ++ out) { t with inFlight := t.inFlight.eraseIdx k } := by
  have hflight : flight.id ∈ ids t.inFlight := List.mem_map_of_mem (List.mem_of_getElem? hk)
  have hgone : flight.id ∉ ids (t.inFlight.eraseIdx k) := key_not_mem_eraseIdx h.flying hk
  have hsentIds : sentFlights (past ++ out) = sentFlights past := by
    rw [sentFlights_append, hsent, List.append_nil]
  have hpubIds : ids (publishedFlights (past ++ out)) = ids (publishedFlights past) ++ [flight.id] := by
    rw [publishedFlights_append, hpub, ids, List.map_append]
    rfl
  have he := h.erase k
  refine ⟨he.flying, by rw [hsentIds]; exact h.sentOnce, ?_, ?_, he.flyingUsed,
    by rw [hsentIds]; exact h.sentUsed, ?_⟩
  · rw [hpubIds]
    refine List.nodup_append.mpr ⟨h.publishedOnce, by simp, ?_⟩
    rintro id hp _ hf rfl
    rw [List.mem_singleton.mp hf] at hp
    exact h.landed _ hp hflight
  · rw [hpubIds]
    intro id hp hf
    rcases List.mem_append.mp hp with hp | hp
    · exact he.landed id hp hf
    · exact hgone (List.mem_singleton.mp hp ▸ hf)
  · rw [hpubIds]
    intro id hp
    rcases List.mem_append.mp hp with hp | hp
    · exact h.publishedUsed id hp
    · rw [List.mem_singleton.mp hp]
      exact h.flyingUsed _ hflight

theorem numbered_step (h : Numbered past s.traffic) (he : Effect mesh s i t out) :
    Numbered (past ++ out) t := by
  cases he with
  | idle => simpa using h
  | external events => exact h.launch [] rfl (by simp) rfl rfl rfl
  | lose k => exact (h.erase k).launch [] rfl (by simp) rfl rfl rfl
  | data k env event hk =>
      exact h.launch _ (launch_ids _ _ _) rfl rfl (sentFlights_map none _) (publishedFlights_map none _)
  | dropped k dest env flight hk => exact (h.erase k).launch [] rfl (by simp) rfl rfl rfl
  | publish k env flight publication hk horigin htopic => exact h.publish hk rfl rfl
  | reply k dest env flight hk hdest htrack => exact (h.erase k).launch [replyFlight s dest] rfl rfl rfl rfl rfl

structure Accounted (mesh : Mesh ι) (past : List (NetOutput ι)) (s : NetState ι) : Prop where
  nodes : NodesOk mesh s.nodes
  numbered : Numbered past s.traffic
  explaining : Explaining mesh past s.traffic

theorem accounted_init (mesh : Mesh ι) : Accounted mesh [] (netInit mesh) where
  nodes := netInit_nodesOk mesh
  numbered := ⟨List.nodup_nil, List.nodup_nil, List.nodup_nil, nofun, nofun, nofun, nofun⟩
  explaining := ⟨explained_nil, nofun⟩

variable [DecidableEq ι]

theorem accounted_step (h : Accounted mesh past s) (i : NetInput ι) :
    Accounted mesh (past ++ (netStep mesh s i).2) (netStep mesh s i).1 := by
  have he := netStep_effect h.nodes i
  exact ⟨netStep_nodesOk h.nodes i, numbered_step h.numbered he, explaining_step h.explaining he⟩

theorem accounted_run (mesh : Mesh ι) (inputs : List (NetInput ι)) :
    Accounted mesh (trace (netStep mesh) (netInit mesh) inputs)
      (final (netStep mesh) (netInit mesh) inputs) := by
  have h := history_invariant (netStep mesh) (P := Accounted mesh) (fun _ _ i hs => accounted_step hs i)
    (accounted_init mesh) inputs
  simpa using h

/-- Whatever the interleaving, a publication on the topic of a node answers a
reply of that very node, a reply is published at most once, and nothing that came
from the broker goes back to it. -/
theorem publish_provenance (mesh : Mesh ι) (inputs : List (NetInput ι)) :
    let history := trace (netStep mesh) (netInit mesh) inputs
    (∀ pre cause publication post, history = pre ++ .published cause publication :: post →
      ∀ n, publication.topic = kartTopic (mesh.addr n) → n ≠ mesh.root ∧
        ∃ reply query, cause = some reply ∧ reply.origin = n ∧ IsTrack query ∧
          [NetOutput.delivered n query, .sent (some query) reply, .delivered mesh.root reply].Sublist pre) ∧
      (∀ cause publication, .published cause publication ∈ history →
        ∃ n, publication.topic = kartTopic (mesh.addr n)) ∧
      (ids (publishedFlights history)).Nodup ∧ (ids (sentFlights history)).Nodup ∧
      (∀ flight publication, .sent none flight ∈ history →
        .published (some flight) publication ∉ history) := by
  intro history
  obtain ⟨-, hnum, hexp⟩ := accounted_run mesh inputs
  have hcaused : ∀ out ∈ history, ∃ pre, Caused mesh pre out := by
    intro out ho
    obtain ⟨pre, post, he⟩ := List.append_of_mem ho
    exact ⟨pre, hexp.explained pre out post he⟩
  refine ⟨?_, ?_, hnum.publishedOnce, hnum.sentOnce, ?_⟩
  · intro pre cause publication post he n htopic
    obtain ⟨reply, query, hc, horigin, ht, htrack, hs⟩ := hexp.explained pre _ post he
    have hn : reply.origin = n :=
      mesh.distinct (Subtype.ext (kartTopic_injective (ht.symm.trans htopic)))
    subst hn
    exact ⟨horigin, reply, query, hc, rfl, htrack, hs⟩
  · intro cause publication ho
    obtain ⟨pre, reply, query, -, -, ht, -⟩ := hcaused _ ho
    exact ⟨reply.origin, ht⟩
  · intro flight publication hsent hpub
    obtain ⟨_, hroot⟩ := hcaused _ hsent
    obtain ⟨_, reply, query, hc, horigin, -⟩ := hcaused _ hpub
    cases hc
    exact horigin hroot

def pair : Mesh Bool where
  addr n := if n then ⟨⟨1, 2, 3, 4, 5, 6⟩, by decide⟩ else ⟨⟨1, 2, 3, 4, 5, 7⟩, by decide⟩
  distinct := by
    intro a b h
    revert h
    cases a <;> cases b <;> simp
  root := true
  rxStack _ := MeshRx.RxLocals.initZero

/-- A track message reaches both nodes, and the leaf's reply the root. -/
def pairRun : List (NetInput Bool) :=
  let table : List MeshAddr := [pair.addr true, pair.addr false]
  [.node true ⟨.mesh (.parentConnected 1 (pair.addr true)), .allOk⟩,
   .node false ⟨.mesh (.parentConnected 2 (pair.addr true)), .allOk⟩,
   .node false ⟨.mesh (.rootAddress (pair.addr true)), .allOk⟩,
   .node true ⟨.gotIp, .allOk⟩,
   .node true ⟨.mqttTask, .allOk⟩,
   .external [⟨[8, 1], 2, 0, 2⟩],
   .data 0 { Env.allOk with stack.getRoutingTable := fun _ => (espOk, table) },
   .deliver 0 true .allOk,
   .deliver 0 false .allOk,
   .deliver 0 true .allOk]

example : ids (sentFlights (trace (netStep pair) (netInit pair) pairRun)) = [0, 1, 2] := by
  decide +kernel

example : ids (publishedFlights (trace (netStep pair) (netInit pair) pairRun)) = [2] := by
  decide +kernel

end RaceControl.Provenance
