import RaceControl.Library.Machine
import RaceControl.Library.History
import RaceControl.Node

namespace RaceControl.RootReply

open Machine History Esp Globals Messages MeshRx MeshEvents Node

def lastRoot (run : List NodeInput) : Option MeshAddr := (run.filterMap (·.event.root?)).getLast?

def leafAfter (rxStack : RxLocals) (mac : MeshAddr) (run : List NodeInput) : NodeState :=
  final (nodeStep ⟨false, rxStack⟩) (nodeInit mac) run

def RepliesKnown (rxStack : RxLocals) (mac : MeshAddr) (run : List NodeInput) : Prop :=
  ∀ pre i post, run = pre ++ i :: post → ∀ dest data result,
    .sendRoot dest data result ∈ (nodeStep ⟨false, rxStack⟩ (leafAfter rxStack mac pre) i).2 →
      lastRoot pre = some dest

/-- The receive task exists and gets a track message it accepts. -/
def Answered (mac : MeshAddr) (s : NodeState) (i : NodeInput) : Prop :=
  s.rx.isSome ∧ ∃ o, i.event = .received o ∧ OnTopic mac topicTrack o

theorem lastRoot_concat (run : List NodeInput) (i : NodeInput) :
    lastRoot (run ++ [i]) = i.event.root?.or (lastRoot run) := by
  have hlast : ([i].filterMap (·.event.root?)).getLast? = i.event.root? := by
    cases h : i.event.root? <;> simp [h]
  rw [lastRoot, List.filterMap_append, List.getLast?_append, hlast]
  rfl

theorem leafAfter_mesh (rxStack : RxLocals) (mac : MeshAddr) (run : List NodeInput) :
    (leafAfter rxStack mac run).mesh.isRunning = true ∧
      (leafAfter rxStack mac run).mesh.meshCurrentAddr = mac ∧
      (leafAfter rxStack mac run).mesh.meshRootAddr = (lastRoot run).getD zeroAddr := by
  induction run using List.reverseRecOn with
  | nil => exact ⟨rfl, rfl, rfl⟩
  | append_singleton run i ih =>
      obtain ⟨hrun, hself, hroot⟩ := ih
      obtain ⟨hrun', hself', hroot'⟩ := nodeStep_mesh ⟨false, rxStack⟩ i hrun
      have hstep : leafAfter rxStack mac (run ++ [i]) =
          (nodeStep ⟨false, rxStack⟩ (leafAfter rxStack mac run) i).1 := final_append _ _ _ _
      rw [hstep]
      refine ⟨hrun', hself'.trans hself, ?_⟩
      rw [hroot', hroot, lastRoot_concat]
      cases i.event.root? <;> rfl

theorem sendRoot_iff (rxStack : RxLocals) {s : NodeState} {i : NodeInput} (hrun : s.mesh.isRunning = true)
    (dest : MeshAddr) :
    (∃ data result, .sendRoot dest data result ∈ (nodeStep ⟨false, rxStack⟩ s i).2) ↔
      Answered s.mesh.meshCurrentAddr s i ∧ dest = s.mesh.meshRootAddr := by
  obtain ⟨event, env⟩ := i
  have hother : event.area ≠ .traffic → ∀ data result,
      .sendRoot dest data result ∉ (nodeStep ⟨false, rxStack⟩ s ⟨event, env⟩).2 := by
    intro h data result hc
    exact h (nodeStep_area _ _ _ hc).symm
  cases event with
  | received o =>
      rw [leaf_received hrun]
      by_cases ha : s.rx.isSome ∧ OnTopic s.mesh.meshCurrentAddr topicTrack o
      · simp [Answered, ha.1, ha.2]
      · rw [if_neg ha]
        constructor
        · rintro ⟨_, _, hc⟩
          cases hc
        · rintro ⟨⟨hrx, o', he, ht⟩, -⟩
          cases he
          exact absurd ⟨hrx, ht⟩ ha
  | mqtt event =>
      cases event with
      | data event => simp [nodeStep, MqttApp.mqttEventProcess, Answered]
      | _ => simpa [Answered] using hother (by simp [NodeEvent.area])
  | _ => simpa [Answered] using hother (by simp [NodeEvent.area])

/-- Every reply of a run goes to a known root exactly when no track message is
answered before the first root address event. -/
theorem replies_known_iff (rxStack : RxLocals) (mac : MeshAddr) (run : List NodeInput) :
    RepliesKnown rxStack mac run ↔
      ∀ pre i post, run = pre ++ i :: post → Answered mac (leafAfter rxStack mac pre) i →
        (lastRoot pre).isSome = true := by
  refine explained_congr (fun pre i => ?_) run
  obtain ⟨hrun, hself, hroot⟩ := leafAfter_mesh rxStack mac pre
  constructor
  · intro h ha
    have hat : Answered (leafAfter rxStack mac pre).mesh.meshCurrentAddr (leafAfter rxStack mac pre) i := by
      rw [hself]
      exact ha
    obtain ⟨data, result, hc⟩ := (sendRoot_iff rxStack hrun _).mpr ⟨hat, rfl⟩
    rw [h _ _ _ hc]
    rfl
  · intro h dest data result hc
    obtain ⟨ha, hd⟩ := (sendRoot_iff rxStack hrun dest).mp ⟨data, result, hc⟩
    rw [hself] at ha
    obtain ⟨addr, hl⟩ := Option.isSome_iff_exists.mp (h ha)
    rw [hd, hroot, hl]
    rfl

/-- The parent comes up, and a track message arrives before any root address. -/
theorem reply_before_root_known :
    ¬ RepliesKnown RxLocals.initZero ⟨1, 2, 3, 4, 5, 6⟩
      [⟨.mesh (.parentConnected 2 ⟨1, 2, 3, 4, 5, 7⟩), .allOk⟩,
       ⟨.received ⟨espOk, ⟨1, 2, 3, 4, 5, 7⟩, [8, 1], by decide⟩, .allOk⟩] := by
  intro h
  have hanswered : Answered ⟨1, 2, 3, 4, 5, 6⟩
      (leafAfter RxLocals.initZero ⟨1, 2, 3, 4, 5, 6⟩
        [⟨.mesh (.parentConnected 2 ⟨1, 2, 3, 4, 5, 7⟩), .allOk⟩])
      ⟨.received ⟨espOk, ⟨1, 2, 3, 4, 5, 7⟩, [8, 1], by decide⟩, .allOk⟩ :=
    ⟨by decide +kernel, _, rfl, by decide +kernel⟩
  obtain ⟨data, result, hc⟩ := (sendRoot_iff _ rfl zeroAddr).mpr ⟨hanswered, rfl⟩
  exact absurd (h _ _ [] rfl _ _ _ hc) (by decide)

end RaceControl.RootReply
