import RaceControl.Delivery
import RaceControl.Storm

namespace RaceControl.Conservation

open Machine History Esp Globals Messages Topic MeshRx MeshEvents MqttApp Node Network Lifecycle Storm Delivery

variable {ι : Type} {mesh : Mesh ι} {leaf : ι} {s : NetState ι}

/-- A track message that will be answered once it gets to the leaf. -/
def IsQuery (mesh : Mesh ι) (leaf : ι) (flight : Flight ι) : Prop :=
  flight.dest = mesh.addr leaf ∧ flight.origin ≠ leaf ∧ flight.frame.length ≤ rxSize ∧ IsTrack flight

instance [DecidableEq ι] (mesh : Mesh ι) (leaf : ι) (flight : Flight ι) : Decidable (IsQuery mesh leaf flight) :=
  inferInstanceAs (Decidable (_ ∧ _ ∧ _ ∧ _))

/-- A kart message of the leaf that will be published once it gets to the root. -/
def IsStatus (mesh : Mesh ι) (leaf : ι) (flight : Flight ι) : Prop :=
  flight.dest = mesh.addr mesh.root ∧ flight.origin = leaf ∧ flight.frame.length ≤ rxSize ∧
    topicOf flight.frame = some topicKart

instance [DecidableEq ι] (mesh : Mesh ι) (leaf : ι) (flight : Flight ι) : Decidable (IsStatus mesh leaf flight) :=
  inferInstanceAs (Decidable (_ ∧ _ ∧ _ ∧ _))

section Frames

theorem addr_eq_iff (mesh : Mesh ι) (m n : ι) : (mesh.addr m).1 = (mesh.addr n).1 ↔ m = n := by
  constructor
  · exact fun h => mesh.distinct (Subtype.ext h)
  · exact fun h => by rw [h]

theorem awaited_root (hleaf : leaf ≠ mesh.root) {flight : Flight ι} {o : Received}
    (ho : arrival mesh s flight mesh.root = some o) :
    IsQuery mesh leaf flight ∨ IsStatus mesh leaf flight ↔
      flight.origin = leaf ∧ topicOf flight.frame = some topicKart := by
  obtain ⟨-, -, -, hdest, hfits⟩ := arrival_frame ho
  constructor
  · rintro (⟨haddr, -⟩ | ⟨-, horigin, -, hkart⟩)
    · exact absurd ((addr_eq_iff mesh _ _).mp (hdest.trans haddr)).symm hleaf
    · exact ⟨horigin, hkart⟩
  · rintro ⟨horigin, hkart⟩
    exact .inr ⟨hdest.symm, horigin, hfits, hkart⟩

theorem awaited_leaf {dest : ι} (hdest : dest ≠ mesh.root) {flight : Flight ι} {o : Received}
    (ho : arrival mesh s flight dest = some o) :
    IsQuery mesh leaf flight ∨ IsStatus mesh leaf flight ↔ dest = leaf ∧ Replies flight dest := by
  obtain ⟨-, -, -, haddr, hfits⟩ := arrival_frame ho
  constructor
  · rintro (⟨hq, horigin, -, htrack⟩ | ⟨hs, -⟩)
    · have heq : dest = leaf := (addr_eq_iff mesh _ _).mp (haddr.trans hq)
      exact ⟨heq, heq ▸ horigin, htrack⟩
    · exact absurd ((addr_eq_iff mesh _ _).mp (haddr.trans hs)) hdest
  · rintro ⟨rfl, horigin, htrack⟩
    exact .inl ⟨haddr.symm, horigin, hfits, htrack⟩

theorem awaited_reply (hroot : (s.nodes leaf).mesh.meshRootAddr = mesh.addr mesh.root) (dest : ι) :
    IsQuery mesh leaf (replyFlight s dest) ∨ IsStatus mesh leaf (replyFlight s dest) ↔ dest = leaf := by
  constructor
  · rintro (⟨-, -, -, htrack⟩ | ⟨-, horigin, -⟩)
    · exact absurd htrack (replyFlight_not_track s dest)
    · exact horigin
  · rintro rfl
    exact .inr ⟨hroot, rfl, Nat.le_of_lt statusFrame_fits.2, replyFlight_topic s dest⟩

end Frames

variable [DecidableEq ι]

def isPending (mesh : Mesh ι) (leaf : ι) (flight : Flight ι) : Bool :=
  decide (IsQuery mesh leaf flight ∨ IsStatus mesh leaf flight)

/-- The publications on the leaf's topic that the frames in flight still stand for. -/
def pending (mesh : Mesh ι) (leaf : ι) (flights : List (Flight ι)) : Nat := flights.countP (isPending mesh leaf)

def asks (mesh : Mesh ι) (leaf : ι) : NetOutput ι → Bool
  | .sent _ flight => decide (IsQuery mesh leaf flight)
  | _ => false

def publishes (mesh : Mesh ι) (leaf : ι) : NetOutput ι → Bool
  | .published _ publication => decide (publication.topic = kartTopic (mesh.addr leaf))
  | _ => false

/-- What a loss takes away for good. -/
def lost (mesh : Mesh ι) (leaf : ι) (s : NetState ι) : NetInput ι → Nat
  | .lose k => pending mesh leaf (s.traffic.inFlight[k]?).toList
  | _ => 0

/-- The root has its client, and the leaf knows the root. -/
structure Operational (mesh : Mesh ι) (leaf : ι) (s : NetState ι) : Prop where
  nodes : NodesOk mesh s.nodes
  client : ClientUp (s.nodes mesh.root)
  rootKnown : (s.nodes leaf).mesh.meshRootAddr = mesh.addr mesh.root

/-- The mesh announces no other root to the leaf. -/
def FixedRoot (mesh : Mesh ι) (leaf : ι) (i : NetInput ι) : Prop :=
  ∀ addr env, i = .node leaf ⟨.mesh (.rootAddress addr), env⟩ → addr = mesh.addr mesh.root

section Counts

theorem pending_append (flights more : List (Flight ι)) :
    pending mesh leaf (flights ++ more) = pending mesh leaf flights + pending mesh leaf more := List.countP_append

theorem pending_take {flights : List (Flight ι)} {k : Nat} {flight : Flight ι} (hk : flights[k]? = some flight) :
    pending mesh leaf flights = pending mesh leaf (flights.eraseIdx k) + pending mesh leaf [flight] := by
  have h := (perm_cons_eraseIdx hk).countP_eq (isPending mesh leaf)
  rw [← List.singleton_append, List.countP_append] at h
  rw [pending, pending, pending, ← h, Nat.add_comm]

theorem pending_one (flight : Flight ι) {p : Prop} [Decidable p]
    (h : IsQuery mesh leaf flight ∨ IsStatus mesh leaf flight ↔ p) :
    pending mesh leaf [flight] = if p then 1 else 0 := by
  simp only [pending, List.countP_singleton, isPending, decide_eq_true_eq, h]

/-- From the root only track messages are waited for. -/
theorem pending_broadcast (hleaf : leaf ≠ mesh.root) {flights : List (Flight ι)}
    (horigin : ∀ flight ∈ flights, flight.origin = mesh.root) (cause : Option (Flight ι)) :
    (flights.map (NetOutput.sent cause)).countP (asks mesh leaf) = pending mesh leaf flights := by
  rw [List.countP_map, pending]
  refine List.countP_congr ?_
  intro flight hf
  have hstatus : ¬ IsStatus mesh leaf flight := fun h => hleaf (h.2.1.symm.trans (horigin flight hf))
  simp [asks, isPending, hstatus]

end Counts

section Steps

/-- Frames come in by a track message that is sent, and go by a publication or
by a loss. -/
def Balanced (mesh : Mesh ι) (leaf : ι) (s : NetState ι) (i : NetInput ι) : Prop :=
  pending mesh leaf (netStep mesh s i).1.traffic.inFlight + (netStep mesh s i).2.countP (publishes mesh leaf) +
      lost mesh leaf s i =
    pending mesh leaf s.traffic.inFlight + (netStep mesh s i).2.countP (asks mesh leaf)

theorem balanced_idle {i : NetInput ι}
    (ht : (netStep mesh s i).1.traffic.inFlight = s.traffic.inFlight) (hout : (netStep mesh s i).2 = [])
    (hlost : lost mesh leaf s i = 0) : Balanced mesh leaf s i := by
  rw [Balanced, ht, hout, hlost]
  rfl

theorem lose_balanced (k : Nat) : Balanced mesh leaf s (.lose k) := by
  have hlost : lost mesh leaf s (.lose k) = pending mesh leaf (s.traffic.inFlight[k]?).toList := rfl
  have hstep : netStep mesh s (.lose k) =
      ({ s with traffic.inFlight := s.traffic.inFlight.eraseIdx k }, []) := rfl
  rw [Balanced, hlost, hstep]
  cases hk : s.traffic.inFlight[k]? with
  | none =>
      rw [List.eraseIdx_of_length_le (List.getElem?_eq_none_iff.mp hk)]
      rfl
  | some flight =>
      rw [pending_take hk]
      rfl

theorem data_balanced (hleaf : leaf ≠ mesh.root) (k : Nat) (env : Env) : Balanced mesh leaf s (.data k env) := by
  have he : Effect mesh s (.data k env) _ _ := data_effect k env
  rw [Balanced]
  generalize (netStep mesh s (.data k env)).2 = out at he
  generalize (netStep mesh s (.data k env)).1.traffic = t at he
  cases he with
  | idle => rfl
  | data _ _ event hk =>
      have hasks := pending_broadcast hleaf (broadcastFlights_origin mesh s env event) none
      have hpublishes := countP_flights_zero (p := publishes mesh leaf) (fun _ _ => rfl) none
        (broadcastFlights mesh s env event)
      simp only [List.countP_cons, hasks, hpublishes, pending_append, asks, publishes, lost]
      simp

theorem deliver_root_balanced (h : Operational mesh leaf s) (hleaf : leaf ≠ mesh.root) {k : Nat} {flight : Flight ι}
    {o : Received} (env : Env) (hk : s.traffic.inFlight[k]? = some flight)
    (ho : arrival mesh s flight mesh.root = some o) : Balanced mesh leaf s (.deliver k mesh.root env) := by
  obtain ⟨ht, hout⟩ := deliver_root h.nodes env hk ho
  have hawaited : IsQuery mesh leaf flight ∨ IsStatus mesh leaf flight ↔
      flight.origin = leaf ∧ topicOf flight.frame = some topicKart := awaited_root hleaf ho
  have hpending := pending_one flight hawaited
  rw [Balanced, ht, hout, pending_take hk, hpending]
  by_cases hp : Publishes mesh s flight
  · have hiff : kartTopic (mesh.addr flight.origin) = kartTopic (mesh.addr leaf) ↔ flight.origin = leaf := by
      rw [kartTopic_injective.eq_iff, addr_eq_iff]
    by_cases horigin : flight.origin = leaf
    · simp [hp, horigin, hp.2.1, publishes, asks, lost, publicationOf]
    · simp [hp, horigin, publishes, asks, lost, publicationOf, hiff]
  · have hnot : ¬ (flight.origin = leaf ∧ topicOf flight.frame = some topicKart) := fun hq =>
      hp ⟨fun hroot => hleaf (hq.1.symm.trans hroot), hq.2, h.client.1⟩
    simp [hp, hnot, publishes, asks, lost]

theorem deliver_leaf_balanced (h : Operational mesh leaf s) {k : Nat} {dest : ι} (hdest : dest ≠ mesh.root)
    {flight : Flight ι} {o : Received} (env : Env) (hk : s.traffic.inFlight[k]? = some flight)
    (ho : arrival mesh s flight dest = some o) : Balanced mesh leaf s (.deliver k dest env) := by
  obtain ⟨ht, hout⟩ := deliver_leaf h.nodes env hdest hk ho
  have hawaited : IsQuery mesh leaf flight ∨ IsStatus mesh leaf flight ↔ dest = leaf ∧ Replies flight dest :=
    awaited_leaf hdest ho
  have hpending := pending_one flight hawaited
  have hreply := pending_one (replyFlight s dest) (awaited_reply h.rootKnown dest)
  have hasks : ¬ IsQuery mesh leaf (replyFlight s dest) := fun hq => replyFlight_not_track s dest hq.2.2.2
  rw [Balanced, ht, hout, pending_append, pending_take hk, hpending]
  by_cases hr : Replies flight dest
  · simp [hr, hreply, hasks, publishes, asks, lost]
  · simp [hr, publishes, asks, lost, pending]

theorem netStep_balanced (h : Operational mesh leaf s) (hleaf : leaf ≠ mesh.root) (i : NetInput ι) :
    Balanced mesh leaf s i := by
  cases i with
  | external events => exact balanced_idle rfl rfl rfl
  | data k env => exact data_balanced hleaf k env
  | lose k => exact lose_balanced k
  | deliver k dest env =>
      cases hk : s.traffic.inFlight[k]? with
      | none => exact balanced_idle (by simp [netStep, hk]) (by simp [netStep, hk]) rfl
      | some flight =>
          cases ho : arrival mesh s flight dest with
          | none => exact balanced_idle (by simp [netStep, hk, ho]) (by simp [netStep, hk, ho]) rfl
          | some o =>
              by_cases hdest : dest = mesh.root
              · subst hdest
                exact deliver_root_balanced h hleaf env hk ho
              · exact deliver_leaf_balanced h hdest env hk ho
  | node n input =>
      by_cases hocc : occurs input.event = true
      · obtain ⟨ht, hout⟩ := occurs_silent h.nodes none hocc
        have hstep : netStep mesh s (.node n input) = perform mesh s n none input := if_pos hocc
        exact balanced_idle (by rw [hstep, ht]) (hstep ▸ hout) rfl
      · have hstep : netStep mesh s (.node n input) = (s, []) := if_neg hocc
        exact balanced_idle (by rw [hstep]) (by rw [hstep]) rfl

theorem announced_root {i : NetInput ι} (hi : FixedRoot mesh leaf i) {input : NodeInput}
    (hin : nodeInput mesh leaf s i = some input) {addr : MeshAddr} (hr : input.event.root? = some addr) :
    addr = mesh.addr mesh.root := by
  cases i with
  | external | lose => cases hin
  | data k env =>
      simp only [nodeInput] at hin
      split at hin
      · obtain ⟨event, -, rfl⟩ := Option.map_eq_some_iff.mp hin
        cases hr
      · cases hin
  | deliver k dest env =>
      simp only [nodeInput] at hin
      split at hin
      · obtain ⟨o, -, rfl⟩ := Option.map_eq_some_iff.mp hin
        cases hr
      · cases hin
  | node m other =>
      simp only [nodeInput] at hin
      split at hin
      · rename_i h
        cases hin
        obtain ⟨event, env⟩ := input
        cases event with
        | mesh event =>
            cases event with
            | rootAddress a =>
                cases hr
                exact hi addr env (by rw [h.1])
            | _ => cases hr
        | _ => cases hr
      · cases hin

theorem operational_step (h : Operational mesh leaf s) {i : NetInput ι} (hi : FixedRoot mesh leaf i) :
    Operational mesh leaf (netStep mesh s i).1 := by
  refine ⟨netStep_nodesOk h.nodes i, ?_, ?_⟩
  · rw [netStep_node]
    cases nodeInput mesh mesh.root s i with
    | none => exact h.client
    | some input => exact nodeStep_clientUp h.client input
  · rw [netStep_node]
    cases hin : nodeInput mesh leaf s i with
    | none => exact h.rootKnown
    | some input =>
        obtain ⟨-, -, hroot⟩ := nodeStep_mesh (mesh.config leaf) input (h.nodes leaf).1
        refine hroot.trans ?_
        cases hr : input.event.root? with
        | none => exact h.rootKnown
        | some addr => exact announced_root hi hin hr

end Steps

theorem pending_conserved (h : Operational mesh leaf s) (hleaf : leaf ≠ mesh.root) {later : List (NetInput ι)}
    (hfixed : ∀ i ∈ later, FixedRoot mesh leaf i) :
    pending mesh leaf (final (netStep mesh) s later).traffic.inFlight +
        (trace (netStep mesh) s later).countP (publishes mesh leaf) +
        total (netStep mesh) (lost mesh leaf) s later =
      pending mesh leaf s.traffic.inFlight + (trace (netStep mesh) s later).countP (asks mesh leaf) := by
  refine balance (netStep mesh) (P := Operational mesh leaf) (publishes mesh leaf) (asks mesh leaf)
    (fun s => pending mesh leaf s.traffic.inFlight) (lost mesh leaf) later ?_ h
  intro s i hi hs
  exact ⟨operational_step hs (hfixed i hi), netStep_balanced hs hleaf i⟩

/-- Once the root has its client and a leaf knows the root, no track message
sent to the leaf goes unanswered and no answer is given twice, whatever the order
of the steps: each is still under way, as itself or as the leaf's status, was
published on the leaf's topic, or was lost on the mesh. -/
theorem answers_conserved (mesh : Mesh ι) (inputs later : List (NetInput ι)) {leaf : ι} (hleaf : leaf ≠ mesh.root)
    (hclient : ((final (netStep mesh) (netInit mesh) inputs).nodes mesh.root).mqtt.mqttHandle = true)
    (hroot : ((final (netStep mesh) (netInit mesh) inputs).nodes leaf).mesh.meshRootAddr = mesh.addr mesh.root)
    (hfixed : ∀ i ∈ later, FixedRoot mesh leaf i) :
    let s := final (netStep mesh) (netInit mesh) inputs
    pending mesh leaf (final (netStep mesh) s later).traffic.inFlight +
        (trace (netStep mesh) s later).countP (publishes mesh leaf) +
        total (netStep mesh) (lost mesh leaf) s later =
      pending mesh leaf s.traffic.inFlight + (trace (netStep mesh) s later).countP (asks mesh leaf) := by
  have hup : ClientUp ((final (netStep mesh) (netInit mesh) inputs).nodes mesh.root) := by
    obtain ⟨run, hrun⟩ := nodes_run mesh inputs mesh.root
    rw [hrun] at hclient ⊢
    exact clientUp_of_handle _ _ run hclient
  exact pending_conserved ⟨nodesOk_run mesh inputs, hup, hroot⟩ hleaf hfixed

/-- The root's client is started, and the leaf has learnt the root's address. -/
theorem answers_conserved_example :
    let s := final (netStep Provenance.pair) (netInit Provenance.pair) (Provenance.pairRun.take 5)
    let later := Provenance.pairRun.drop 5
    pending Provenance.pair false (final (netStep Provenance.pair) s later).traffic.inFlight +
        (trace (netStep Provenance.pair) s later).countP (publishes Provenance.pair false) +
        total (netStep Provenance.pair) (lost Provenance.pair false) s later =
      pending Provenance.pair false s.traffic.inFlight +
        (trace (netStep Provenance.pair) s later).countP (asks Provenance.pair false) ∧
    (trace (netStep Provenance.pair) s later).countP (asks Provenance.pair false) = 1 := by
  refine ⟨answers_conserved Provenance.pair (Provenance.pairRun.take 5) (Provenance.pairRun.drop 5) (by decide)
    (by decide +kernel) (by decide +kernel) ?_, by decide +kernel⟩
  intro i hi addr env he
  subst he
  simp [Provenance.pairRun] at hi

end RaceControl.Conservation
