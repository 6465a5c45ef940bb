import RaceControl.MeshRx

namespace RaceControl.FrameRule

open Machine Esp Globals Messages Topic MeshRx

inductive Action
  | publish (topic : String)
  | encode (msg : MQTTMessage) (status : Bool)
  | sendRoot
  deriving DecidableEq

def action : RxCall → Action
  | .appPublish topic _ => .publish topic
  | .encode msg status => .encode msg status
  | .sendRoot _ => .sendRoot

def rootRule (sender : MeshAddr) (msg : MQTTMessage) : List Action :=
  if msg.topic = topicKart then [.publish (kartTopic sender)] else []

def replyRule (out : EncodeOutcome) : List Action :=
  .encode kartStatusMsg out.status :: if out.bytes = [] then [] else [.sendRoot]

def leafRule (enc : Encoder) (msg : MQTTMessage) : List Action :=
  if msg.topic = topicTrack then replyRule (enc kartStatusMsg) else []

/-- The rule for one frame. It reads the outcome of one receive, and nothing else. -/
def frameRule (isRoot : Bool) (enc : Encoder) (self : MeshAddr) (o : Received) : List Action :=
  match accepted self o with
  | none => []
  | some msg => if isRoot then rootRule o.sender msg else leafRule enc msg

theorem frameCalls_actions (isRoot : Bool) (enc : Encoder) (vars : MeshVars) (o : Received) :
    (frameCalls isRoot enc vars o).map action = frameRule isRoot enc vars.meshCurrentAddr o := by
  rw [frameCalls, frameRule]
  cases accepted vars.meshCurrentAddr o with
  | none => rfl
  | some msg =>
      cases isRoot with
      | true =>
          simp only [if_true, rootRule]
          split <;> rfl
      | false =>
          simp only [Bool.false_eq_true, if_false, leafRule]
          split
          · simp only [replyCalls, replyRule, List.map_cons, action]
            split <;> rfl
          · rfl

theorem rxPass_actions (isRoot : Bool) (enc : Encoder) {s : RxState} (hrun : s.vars.isRunning = true)
    (o : Received) :
    (rxPass isRoot enc s o).2.map action = frameRule isRoot enc s.vars.meshCurrentAddr o := by
  rw [rxPass_calls isRoot enc hrun, frameCalls_actions]

def Listening (self : MeshAddr) (s : RxState) : Prop :=
  s.vars.isRunning = true ∧ s.vars.meshCurrentAddr = self

theorem rxPass_listening {isRoot : Bool} {enc : Encoder} {self : MeshAddr} {s : RxState} {o : Received}
    (h : Listening self s) : Listening self (rxPass isRoot enc s o).1 := by
  obtain ⟨tx, hv⟩ := rxPass_vars isRoot enc h.1 o
  rw [Listening, hv]
  exact h

theorem rxLoop_actions {isRoot : Bool} {enc : Encoder} {self : MeshAddr} {s : RxState}
    (h : Listening self s) (run : List Received) :
    (trace (rxPass isRoot enc) s run).map action = run.flatMap (frameRule isRoot enc self) := by
  apply trace_refines _ action (frameRule isRoot enc self) ?_ h
  intro s o hs
  refine ⟨rxPass_listening hs, ?_⟩
  rw [rxPass_actions isRoot enc hs.1, hs.2]

theorem replyRule_sends (out : EncodeOutcome) :
    (replyRule out).count (.encode kartStatusMsg out.status) = 1 ∧
      (replyRule out).count .sendRoot ≤ 1 ∧
      (out.status = true → out.bytes ≠ [] → .sendRoot ∈ replyRule out) := by
  by_cases h : out.bytes = []
  · simp [replyRule, h]
  · simp [replyRule, h]

/-- The receive loop refines the rule, from any state it can be in while it
runs. Topics tell senders apart, and the answer to a track message is one
encoding with at most one send, made whenever the encoding yields a byte. -/
theorem rxLoop_refines_frameRule (isRoot : Bool) (enc : Encoder) (s : RxState)
    (hrun : s.vars.isRunning = true) :
    (∀ run, (trace (rxPass isRoot enc) s run).map action =
        run.flatMap (frameRule isRoot enc s.vars.meshCurrentAddr)) ∧
      (∀ a b, kartTopic a = kartTopic b → a = b) ∧
      (∀ o, OnTopic s.vars.meshCurrentAddr topicTrack o →
        let out := enc kartStatusMsg
        let actions := frameRule false enc s.vars.meshCurrentAddr o
        actions.count (.encode kartStatusMsg out.status) = 1 ∧ actions.count .sendRoot ≤ 1 ∧
          (out.status = true → out.bytes ≠ [] → .sendRoot ∈ actions)) := by
  refine ⟨fun run => rxLoop_actions ⟨hrun, rfl⟩ run, ?_, ?_⟩
  · intro a b h
    exact kartTopic_injective h
  · intro o htrack
    obtain ⟨msg, hread, ht⟩ := Option.map_eq_some_iff.mp htrack
    have hrule : frameRule false enc s.vars.meshCurrentAddr o = replyRule (enc kartStatusMsg) := by
      simp only [frameRule, hread, leafRule, if_pos ht, Bool.false_eq_true, if_false]
    rw [hrule]
    exact replyRule_sends (enc kartStatusMsg)

theorem rxLoop_refines_frameRule_leaf :
    (trace (rxPass false pbEncoder)
        (rxMainEntry (meshVarsInit zeroAddr) { RxLocals.initZero with recvCount := 7 })
        [⟨espOk, ⟨1, 2, 3, 4, 5, 6⟩, [8, 1], by decide⟩, ⟨-1, zeroAddr, [], by decide⟩,
         ⟨espOk, ⟨1, 2, 3, 4, 5, 6⟩, [8, 2], by decide⟩]).map action =
      [.encode kartStatusMsg true, .sendRoot] := by
  rw [(rxLoop_refines_frameRule false pbEncoder _ rfl).1]
  decide +kernel

end RaceControl.FrameRule
