import RaceControl.FrameRule

namespace RaceControl.Dispatch

open Machine Esp Globals Messages Topic MeshRx FrameRule

/-- The calls publish, and answer, only where they may. -/
structure Dispatched (o : Received) (mayPublish mayAnswer : Prop) (calls : List RxCall) : Prop where
  publishes : ∀ topic data, .appPublish topic data ∈ calls → mayPublish ∧ topic = kartTopic o.sender
  encodes : ∀ kartMsg status, .encode kartMsg status ∈ calls → mayAnswer
  answers : ∀ data, .sendRoot data ∈ calls → mayAnswer

/-- A frame is acted on only when its payload is the one its topic announces. -/
def PayloadAgrees (o : Received) (msg : MQTTMessage) (calls : List RxCall) : Prop :=
  Dispatched o (msg.topic = topicKart ∧ msg.payload.whichPayload = kartStatusTag)
    (msg.topic = topicTrack ∧ msg.payload.whichPayload = trackStatusTag) calls

def ByTopic (isRoot : Bool) (o : Received) (msg : MQTTMessage) (calls : List RxCall) : Prop :=
  Dispatched o (isRoot = true ∧ msg.topic = topicKart) (isRoot = false ∧ msg.topic = topicTrack) calls

/-- What a message leads to, by its topic. -/
def topicRule (isRoot : Bool) (enc : Encoder) (sender : MeshAddr) (topic : UInt32) : List Action :=
  if isRoot then if topic = topicKart then [.publish (kartTopic sender)] else []
  else if topic = topicTrack then replyRule (enc kartStatusMsg) else []

variable {isRoot : Bool} {enc : Encoder} {s : RxState} {o : Received} {msg : MQTTMessage}

theorem readMessage_nil : readMessage [] = some MQTTMessage.initDefault := by
  decide +kernel

theorem topicRule_undefined (isRoot : Bool) (enc : Encoder) (sender : MeshAddr) :
    topicRule isRoot enc sender topicUndefined = [] := by
  cases isRoot <;> rfl

/-- The payload does not enter the rule. An empty frame reads as the default
message, whose topic leads to nothing either. -/
theorem frameRule_read (isRoot : Bool) (enc : Encoder) (self : MeshAddr)
    (hread : readMessage o.frame = some msg) :
    frameRule isRoot enc self o =
      if o.err ≠ espOk ∨ o.sender = self then [] else topicRule isRoot enc o.sender msg.topic := by
  rw [frameRule, accepted, hread]
  by_cases hskip : o.err ≠ espOk ∨ o.sender = self
  · rw [if_pos hskip, if_pos (by tauto)]
  · rw [if_neg hskip]
    by_cases hempty : o.frame = []
    · have hmsg : msg = MQTTMessage.initDefault := by
        rw [hempty, readMessage_nil] at hread
        exact (Option.some.inj hread).symm
      rw [if_pos (by tauto), hmsg]
      exact (topicRule_undefined isRoot enc o.sender).symm
    · rw [if_neg (by tauto)]
      rfl

theorem topicRule_cases {sender : MeshAddr} {topic : UInt32} {a : Action}
    (h : a ∈ topicRule isRoot enc sender topic) :
    ((isRoot = true ∧ topic = topicKart) ∧ a = .publish (kartTopic sender)) ∨
      ((isRoot = false ∧ topic = topicTrack) ∧ a ∈ replyRule (enc kartStatusMsg)) := by
  rw [topicRule] at h
  cases isRoot with
  | true =>
      by_cases hk : topic = topicKart
      · rw [if_pos rfl, if_pos hk] at h
        exact .inl ⟨⟨rfl, hk⟩, List.mem_singleton.mp h⟩
      · simp [hk] at h
  | false =>
      by_cases ht : topic = topicTrack
      · rw [if_neg Bool.false_ne_true, if_pos ht] at h
        exact .inr ⟨⟨rfl, ht⟩, h⟩
      · simp [ht] at h

theorem publish_not_mem_replyRule (out : EncodeOutcome) (name : String) : .publish name ∉ replyRule out := by
  rw [replyRule]
  split <;> simp

theorem rxPass_call_cases (hrun : s.vars.isRunning = true) (hread : readMessage o.frame = some msg)
    {call : RxCall} (h : call ∈ (rxPass isRoot enc s o).2) :
    ((isRoot = true ∧ msg.topic = topicKart) ∧ action call = .publish (kartTopic o.sender)) ∨
      ((isRoot = false ∧ msg.topic = topicTrack) ∧ action call ∈ replyRule (enc kartStatusMsg)) := by
  have hmem := List.mem_map_of_mem (f := action) h
  rw [rxPass_actions isRoot enc hrun, frameRule_read isRoot enc _ hread] at hmem
  split at hmem
  · cases hmem
  · exact topicRule_cases hmem

theorem rxPass_byTopic (hrun : s.vars.isRunning = true) (hread : readMessage o.frame = some msg) :
    ByTopic isRoot o msg (rxPass isRoot enc s o).2 := by
  refine ⟨?_, ?_, ?_⟩
  · intro topic data hmem
    rcases rxPass_call_cases hrun hread hmem with ⟨hmay, ha⟩ | ⟨-, ha⟩
    · exact ⟨hmay, Action.publish.inj ha⟩
    · exact absurd ha (publish_not_mem_replyRule _ _)
  · intro kartMsg status hmem
    rcases rxPass_call_cases hrun hread hmem with ⟨-, ha⟩ | ⟨hmay, -⟩
    · cases ha
    · exact hmay
  · intro data hmem
    rcases rxPass_call_cases hrun hread hmem with ⟨-, ha⟩ | ⟨hmay, -⟩
    · cases ha
    · exact hmay

/-- A frame is dispatched by its topic: any other frame of the sender with the
same topic, whatever payload it carries, leads to the same actions. -/
theorem topic_decides (isRoot : Bool) (enc : Encoder) (s : RxState) (hrun : s.vars.isRunning = true)
    (o : Received) (msg : MQTTMessage) (hread : readMessage o.frame = some msg) :
    ByTopic isRoot o msg (rxPass isRoot enc s o).2 ∧
      ∀ o' msg', readMessage o'.frame = some msg' → o'.err = o.err → o'.sender = o.sender →
        msg'.topic = msg.topic →
        (rxPass isRoot enc s o').2.map action = (rxPass isRoot enc s o).2.map action := by
  refine ⟨rxPass_byTopic hrun hread, ?_⟩
  intro o' msg' hread' herr hsender htopic
  rw [rxPass_actions isRoot enc hrun, rxPass_actions isRoot enc hrun,
    frameRule_read isRoot enc _ hread, frameRule_read isRoot enc _ hread', herr, hsender, htopic]

def entry : RxState := rxMainEntry (meshVarsInit zeroAddr) RxLocals.initZero

def kartWithTrack : Received := ⟨espOk, ⟨1, 2, 3, 4, 5, 6⟩, [8, 2, 34, 0], by decide⟩

def kartWithKart : Received := ⟨espOk, ⟨1, 2, 3, 4, 5, 6⟩, [8, 2, 26, 0], by decide⟩

def bareTrack : Received := ⟨espOk, ⟨1, 2, 3, 4, 5, 6⟩, [8, 1], by decide⟩

def kartWithTrackMsg : MQTTMessage := ⟨topicKart, false, Timestamp.initZero, .trackStatus Track.initZero⟩

def kartWithKartMsg : MQTTMessage := ⟨topicKart, false, Timestamp.initZero, .kartStatus Kart.initZero⟩

def bareTrackMsg : MQTTMessage := ⟨topicTrack, false, Timestamp.initZero, .none⟩

theorem topic_decides_kart :
    ByTopic true kartWithTrack kartWithTrackMsg (rxPass true pbEncoder entry kartWithTrack).2 ∧
      (rxPass true pbEncoder entry kartWithKart).2.map action =
        (rxPass true pbEncoder entry kartWithTrack).2.map action := by
  have h := topic_decides true pbEncoder entry rfl kartWithTrack kartWithTrackMsg (by decide +kernel)
  exact ⟨h.1, h.2 kartWithKart kartWithKartMsg (by decide +kernel) rfl rfl rfl⟩

/-- The root publishes a kart message that carries a track status, and a leaf
answers a track message that carries nothing. -/
theorem mismatch_is_acted_on :
    (readMessage kartWithTrack.frame = some kartWithTrackMsg ∧
        ¬ PayloadAgrees kartWithTrack kartWithTrackMsg (rxPass true pbEncoder entry kartWithTrack).2) ∧
      (readMessage bareTrack.frame = some bareTrackMsg ∧
        ¬ PayloadAgrees bareTrack bareTrackMsg (rxPass false pbEncoder entry bareTrack).2) := by
  refine ⟨⟨by decide +kernel, ?_⟩, ⟨by decide +kernel, ?_⟩⟩
  · intro h
    have hk : OnTopic zeroAddr topicKart kartWithTrack := by decide +kernel
    have hmem := (mem_rxPass_publish pbEncoder (s := entry) rfl kartWithTrack _ _).mpr ⟨hk, rfl, rfl⟩
    have htag := (h.publishes _ _ hmem).1.2
    exact absurd htag (by decide)
  · intro h
    have ht : OnTopic zeroAddr topicTrack bareTrack := by decide +kernel
    rw [rxPass_reply pbEncoder rfl ht] at h
    have htag := (h.encodes _ _ List.mem_cons_self).2
    exact absurd htag (by decide)

end RaceControl.Dispatch
