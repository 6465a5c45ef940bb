import RaceControl.Library.History
import RaceControl.MeshRx
import RaceControl.MqttApp

namespace RaceControl.Uplink

open Machine Memory History Esp Globals Messages Topic MeshRx MqttApp

structure Reception where
  outcome : Received
  mqtt : MqttVars
  client : MqttClient

def publishCall (client : MqttClient) (mqtt : MqttVars) : RxCall → List Call
  | .appPublish topic data => mqttAppPublish client mqtt topic data
  | .encode _ _ => []
  | .sendRoot _ => []

def uplinkPass (enc : Encoder) (s : RxState) (i : Reception) : RxState × List Call :=
  let (s, calls) := rxPass true enc s i.outcome
  (s, calls.flatMap (publishCall i.client i.mqtt))

/-- The receive task at its start, with the receive buffer as it was linked. -/
def uplinkEntry (vars : MeshVars) (loc : RxLocals) : RxState :=
  rxMainEntry { vars with rxBuf := fill rxSize 0 } loc

/-- Whatever the pass publishes is the frame it received. -/
def Faithful (enc : Encoder) (s : RxState) (i : Reception) : Prop :=
  ∀ p, .publish p ∈ (uplinkPass enc s i).2 → p.payload = some i.outcome.frame

def RunFaithful (enc : Encoder) (vars : MeshVars) (loc : RxLocals) (run : List Reception) : Prop :=
  ∀ pre i post, run = pre ++ i :: post → Faithful enc (final (uplinkPass enc) (uplinkEntry vars loc) pre) i

def Published (self : MeshAddr) (i : Reception) : Prop :=
  i.mqtt.mqttHandle = true ∧ OnTopic self topicKart i.outcome

/-- A frame that the string scan passes on whole, given the frames received
before it: the next cell of the buffer still holds its first zero, or a zero of
the last frame that reached it. -/
def Clean (earlier : List (List UInt8)) (frame : List UInt8) : Prop :=
  0 ∉ frame ∧ frame.length < rxSize ∧ residue 0 earlier frame.length = 0

instance (earlier : List (List UInt8)) (frame : List UInt8) : Decidable (Clean earlier frame) :=
  inferInstanceAs (Decidable (_ ∧ _ ∧ _))

variable {enc : Encoder} {s : RxState} {i : Reception}

theorem uplinkPass_publish (hrun : s.vars.isRunning = true) (p : Publication) :
    .publish p ∈ (uplinkPass enc s i).2 ↔
      Published s.vars.meshCurrentAddr i ∧
        p = ⟨kartTopic i.outcome.sender, scan 0 (store s.vars.rxBuf i.outcome.frame).cells, 1, false⟩ := by
  simp only [uplinkPass, rxPass_calls true enc hrun, frameCalls_root, Published]
  by_cases hk : OnTopic s.vars.meshCurrentAddr topicKart i.outcome
  · by_cases hh : i.mqtt.mqttHandle = true
    · simp [hk, hh, publishCall, mqttAppPublish, espMqttClientPublish_string]
    · simp [hk, hh, publishCall, mqttAppPublish]
  · simp [hk]

theorem faithful_iff (hrun : s.vars.isRunning = true) :
    Faithful enc s i ↔ (Published s.vars.meshCurrentAddr i →
      scan 0 (store s.vars.rxBuf i.outcome.frame).cells = some i.outcome.frame) := by
  constructor
  · intro h hp
    exact h _ ((uplinkPass_publish hrun _).mpr ⟨hp, rfl⟩)
  · intro h p hp
    obtain ⟨hpub, rfl⟩ := (uplinkPass_publish hrun p).mp hp
    exact h hpub

theorem uplink_history (enc : Encoder) (hrun : s.vars.isRunning = true) (run : List Reception) :
    (final (uplinkPass enc) s run).vars.isRunning = true ∧
      (final (uplinkPass enc) s run).vars.meshCurrentAddr = s.vars.meshCurrentAddr ∧
      (final (uplinkPass enc) s run).vars.rxBuf =
        (run.map (·.outcome.frame)).foldl store s.vars.rxBuf := by
  have h := rx_history true enc hrun (run.map Reception.outcome)
  rw [List.map_map] at h
  rw [final_map (uplinkPass enc) (rxPass true enc) Reception.outcome (fun _ _ => rfl)]
  exact h

theorem scan_received_iff (earlier : List (List UInt8)) (hfits : ∀ xs ∈ earlier, xs.length ≤ rxSize)
    (o : Received) :
    scan 0 (store (earlier.foldl store (fill rxSize (0 : UInt8))) o.frame).cells = some o.frame ↔
      Clean earlier o.frame := by
  rw [scan_store_iff 0 _ _ o.fits, Clean]
  by_cases hroom : o.frame.length < rxSize
  · rw [getElem?_history 0 earlier hfits hroom]
    simp [hroom]
  · have hend : (earlier.foldl store (fill rxSize (0 : UInt8))).cells[o.frame.length]? = none := by
      rw [List.getElem?_eq_none]
      rw [Block.size]
      omega
    simp [hroom, hend]

/-- Every payload of a run is its frame exactly when every published frame is
clean at the time it arrives. -/
theorem uplink_faithful_iff_clean (enc : Encoder) (vars : MeshVars) (loc : RxLocals) (run : List Reception) :
    RunFaithful enc vars loc run ↔
      ∀ pre i post, run = pre ++ i :: post → Published vars.meshCurrentAddr i →
        Clean (pre.map (·.outcome.frame)) i.outcome.frame := by
  refine explained_congr (fun pre i => ?_) run
  obtain ⟨hrun, hself, hbuf⟩ := uplink_history enc (s := uplinkEntry vars loc) rfl pre
  have hfits := frames_fit (pre.map Reception.outcome)
  rw [List.map_map] at hfits
  rw [faithful_iff hrun, hself, hbuf]
  exact imp_congr_right fun _ => scan_received_iff _ hfits i.outcome

/-- A kart message that states the speed 2.0 is published up to the first zero
byte of the float. -/
theorem uplink_cuts_speed :
    ¬ RunFaithful pbEncoder (meshVarsInit zeroAddr) RxLocals.initZero
      [⟨⟨espOk, ⟨1, 2, 3, 4, 5, 6⟩, [8, 2, 26, 5, 37, 0, 0, 0, 64], by decide⟩, ⟨true, true, true, true⟩, .strlen⟩] := by
  intro h
  have hcut := (faithful_iff rfl).mp (h [] _ [] rfl) ⟨rfl, by decide +kernel⟩
  exact absurd hcut (by decide +kernel)

end RaceControl.Uplink
