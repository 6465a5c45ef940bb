import RaceControl.MeshRx

namespace RaceControl.ReplyEncoding

open Memory Esp Globals Messages MeshRx

/-- The messages handed to mesh_send_root. -/
def rootSends (calls : List RxCall) : List MeshData :=
  calls.filterMap fun
    | .sendRoot data => some data
    | _ => none

/-- A message is sent exactly when its encoding succeeded with at least one byte,
and what is sent, once, is the whole encoding. -/
structure Complete (out : EncodeOutcome) (sent : List MeshData) : Prop where
  sends_iff : sent ≠ [] ↔ out.status = true ∧ out.bytes ≠ []
  whole : ∀ data ∈ sent, data.frame = out.bytes ∧ data.size.toNat = out.bytes.length
  once : sent.length ≤ 1

/-- The message sent for an encoding looks at the number of its bytes alone. -/
structure Counted (out : EncodeOutcome) (sent : List MeshData) : Prop where
  sends_iff : sent ≠ [] ↔ out.bytes ≠ []
  whole : ∀ data ∈ sent, data.frame = out.bytes ∧ data.size.toNat = out.bytes.length
  once : sent.length ≤ 1

variable {enc : Encoder} {s : RxState}

theorem counted_empty {out : EncodeOutcome} (h : out.bytes = []) : Counted out [] :=
  ⟨by simp [h], nofun, Nat.zero_le 1⟩

theorem counted_singleton {out : EncodeOutcome} (h : out.bytes ≠ []) (tx : Block UInt8 txSize) :
    Counted out [⟨(store tx out.bytes).cells, UInt16.ofNat out.bytes.length, .mqtt, .p2p⟩] := by
  refine ⟨by simp [h], ?_, Nat.le_refl 1⟩
  intro data hd
  rw [List.mem_singleton.mp hd]
  exact ⟨encoded_frame out tx, encoded_size out⟩

theorem replyStatus_counted (enc : Encoder) (kartMsg : MQTTMessage) (s : RxState) :
    Counted (enc kartMsg) (rootSends (replyStatus enc kartMsg s).2) := by
  by_cases h : (enc kartMsg).bytes = []
  · have hsent : rootSends (replyStatus enc kartMsg s).2 = [] := by simp [replyStatus, rootSends, h]
    rw [hsent]
    exact counted_empty h
  · have hsent : rootSends (replyStatus enc kartMsg s).2 =
        [⟨(store s.vars.txBuf (enc kartMsg).bytes).cells, UInt16.ofNat (enc kartMsg).bytes.length,
          .mqtt, .p2p⟩] := by
      simp [replyStatus, rootSends, h]
    rw [hsent]
    exact counted_singleton h s.vars.txBuf

/-- In the loop, the reply to a track message is the one of replyStatus. -/
theorem rxPass_counted (hrun : s.vars.isRunning = true) {o : Received}
    (htrack : OnTopic s.vars.meshCurrentAddr topicTrack o) :
    Counted (enc kartStatusMsg) (rootSends (rxPass false enc s o).2) := by
  rw [rxPass_reply enc hrun htrack, ← replyStatus_calls]
  exact replyStatus_counted enc kartStatusMsg s

theorem complete_iff {out : EncodeOutcome} {sent : List MeshData} (h : Counted out sent) :
    Complete out sent ↔ out.status = true ∨ out.bytes = [] := by
  constructor
  · intro hc
    by_cases hempty : out.bytes = []
    · exact .inr hempty
    · exact .inl (hc.sends_iff.mp (h.sends_iff.mpr hempty)).1
  · intro hok
    refine ⟨?_, h.whole, h.once⟩
    rw [h.sends_iff]
    constructor
    · intro hne
      exact ⟨hok.resolve_right hne, hne⟩
    · exact And.right

/-- Whatever the encoder reports, the reply path sends complete encodings only
exactly when the encoding succeeded or did not write a byte. -/
theorem reply_complete_iff (enc : Encoder) (kartMsg : MQTTMessage) (s : RxState) :
    Complete (enc kartMsg) (rootSends (replyStatus enc kartMsg s).2) ↔
      (enc kartMsg).status = true ∨ (enc kartMsg).bytes = [] :=
  complete_iff (replyStatus_counted enc kartMsg s)

/-- An encoder that fails once the topic is written. -/
def failsAfterTopic : Encoder := fun _ => ⟨false, [8, 2], by decide⟩

theorem partial_reply_is_sent :
    ¬ Complete (failsAfterTopic kartStatusMsg)
      (rootSends (replyStatus failsAfterTopic kartStatusMsg
        (rxMainEntry (meshVarsInit zeroAddr) RxLocals.initZero)).2) := by
  intro h
  have hok := (complete_iff (replyStatus_counted failsAfterTopic kartStatusMsg _)).mp h
  exact absurd hok (by decide)

/-- The encoder of the repository has room for every message of the schema. -/
theorem pbEncoder_reply_complete (kartMsg : MQTTMessage) (s : RxState) :
    Complete (pbEncoder kartMsg) (rootSends (replyStatus pbEncoder kartMsg s).2) :=
  (complete_iff (replyStatus_counted pbEncoder kartMsg s)).mpr (.inl (pbEncoder_status kartMsg))

end RaceControl.ReplyEncoding
