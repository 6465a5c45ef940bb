import RaceControl.Globals
import RaceControl.Library.Machine

namespace RaceControl.MeshRx

open Machine Memory Esp Globals Nanopb Messages Topic

/-- What one esp_mesh_recv reports. A frame is never longer than the receive buffer. -/
structure Received where
  err : EspErr
  sender : MeshAddr
  frame : List UInt8
  fits : frame.length ≤ rxSize

/-- The outcome of pb_encode: its result and the bytes it wrote before returning. -/
structure EncodeOutcome where
  status : Bool
  bytes : List UInt8
  fits : bytes.length ≤ txSize

abbrev Encoder := MQTTMessage → EncodeOutcome

def pbEncoder : Encoder := fun msg =>
  ⟨(encodeMessage txSize msg).error.isNone, (encodeMessage txSize msg).stream.buf, by
    obtain ⟨⟨_, ⟨bytes, hb, hl⟩, hf⟩, hm⟩ := encodeMessage_stored txSize msg
    rw [hb, List.nil_append, hl]
    exact le_of_le_of_eq hf hm⟩

structure RxLocals where
  recvMsg : MQTTMessage
  sender : MeshAddr
  err : EspErr
  recvCount : Int32
  size : UInt16

def RxLocals.initZero : RxLocals := ⟨MQTTMessage.initZero, zeroAddr, espOk, 0, 0⟩

structure RxState where
  vars : MeshVars
  loc : RxLocals

/-- The calls of the receive loop. A publish is handed the memory that starts at
the receive buffer. -/
inductive RxCall
  | appPublish (topic : String) (data : List UInt8)
  | encode (msg : MQTTMessage) (status : Bool)
  | sendRoot (data : MeshData)
  deriving DecidableEq

/-- At most the offered size is stored, and the size is replaced by what was stored. -/
def espMeshRecv (s : RxState) (o : Received) : RxState :=
  let stored := o.frame.take s.loc.size.toNat
  { s with
    vars.rxBuf := store s.vars.rxBuf stored
    loc.err := o.err
    loc.sender := o.sender
    loc.size := UInt16.ofNat stored.length }

def kartStatusMsg : MQTTMessage :=
  { MQTTMessage.initZero with
    topic := topicKart
    payload := .kartStatus
      { isKartConnected := true
        kartId := 12
        control := controlAuto
        speed := 0x404CCCCD
        steeringAngle := 0x3E6FEC57
        hasPosition := true
        position := ⟨0x40491E22A64E99FD, 0x40373BB3DC3AFEDA⟩ } }

/-- The answer to a track message. A failed encoding is only logged. -/
def replyStatus (enc : Encoder) (kartMsg : MQTTMessage) (s : RxState) : RxState × List RxCall :=
  let out := enc kartMsg
  let s := { s with vars.txBuf := store s.vars.txBuf out.bytes }
  let bytesWritten := out.bytes.length
  if bytesWritten ≠ 0 then
    let data : MeshData := ⟨s.vars.txBuf.cells, UInt16.ofNat bytesWritten, .mqtt, .p2p⟩
    (s, [.encode kartMsg out.status, .sendRoot data])
  else (s, [.encode kartMsg out.status])

def handleMessage (isRoot : Bool) (enc : Encoder) (s : RxState) : RxState × List RxCall :=
  if isRoot then
    if s.loc.recvMsg.topic = topicKart then
      (s, [.appPublish (kartTopic s.loc.sender) s.vars.rxBuf.cells])
    else (s, [])
  else
    if s.loc.recvMsg.topic = topicKart then (s, [])
    else if s.loc.recvMsg.topic = topicTrack then replyStatus enc kartStatusMsg s
    else (s, [])

def rxPass (isRoot : Bool) (enc : Encoder) (s : RxState) (o : Received) : RxState × List RxCall :=
  if s.vars.isRunning then
    let s := { s with
      loc.size := UInt16.ofNat rxSize
      loc.recvMsg := MQTTMessage.initDefault }
    let s := espMeshRecv s o
    if s.loc.err ≠ espOk ∨ s.loc.size = 0 then (s, [])
    else if s.loc.sender = s.vars.meshCurrentAddr then (s, [])
    else
      let s := { s with loc.recvCount := s.loc.recvCount + 1 }
      if s.loc.recvCount % (1 : Int32) = 0 then
        match decodeMessage s.loc.recvMsg (s.vars.rxBuf.cells.take s.loc.size.toNat) with
        | .fail _ dest => ({ s with loc.recvMsg := dest }, [])
        | .ok dest _ => handleMessage isRoot enc { s with loc.recvMsg := dest }
      else (s, [])
  else (s, [])

/-- The task sets is_running and offers the whole receive buffer before its loop. -/
def rxMainEntry (vars : MeshVars) (loc : RxLocals) : RxState :=
  ⟨{ vars with isRunning := true }, { loc with recvCount := 0, size := UInt16.ofNat rxSize }⟩

def accepted (self : MeshAddr) (o : Received) : Option MQTTMessage :=
  if o.err ≠ espOk ∨ o.frame = [] ∨ o.sender = self then none else readMessage o.frame

def OnTopic (self : MeshAddr) (topic : UInt32) (o : Received) : Prop :=
  (accepted self o).map MQTTMessage.topic = some topic

instance (self : MeshAddr) (topic : UInt32) (o : Received) : Decidable (OnTopic self topic o) :=
  inferInstanceAs (Decidable (_ = _))

section Spec

variable {s : RxState}

theorem espMeshRecv_offered (s : RxState) (o : Received) (msg : MQTTMessage) :
    espMeshRecv { s with loc.size := UInt16.ofNat rxSize, loc.recvMsg := msg } o =
      { s with
        vars.rxBuf := store s.vars.rxBuf o.frame
        loc.recvMsg := msg
        loc.err := o.err
        loc.sender := o.sender
        loc.size := UInt16.ofNat o.frame.length } := by
  have hcap : (UInt16.ofNat rxSize).toNat = rxSize := by decide
  simp only [espMeshRecv, hcap, List.take_of_length_le o.fits]

theorem frames_fit (run : List Received) : ∀ xs ∈ run.map Received.frame, xs.length ≤ rxSize := by
  intro xs hx
  obtain ⟨o, _, rfl⟩ := List.mem_map.mp hx
  exact o.fits

theorem frame_size (o : Received) : (UInt16.ofNat o.frame.length).toNat = o.frame.length := by
  have h := o.fits
  rw [rxSize] at h
  exact UInt16.toNat_ofNat_of_lt' (by rw [UInt16.size]; omega)

theorem size_eq_zero (o : Received) : UInt16.ofNat o.frame.length = 0 ↔ o.frame = [] := by
  rw [← UInt16.toNat_inj, frame_size]
  simp

theorem recvCount_mod_one (n : Int32) : n % (1 : Int32) = 0 := by
  apply Int32.toInt_inj.mp
  simp

/-- What a pass of a running loop comes to: the frame is stored, and the message
read from it, if any, is handled. -/
theorem rxPass_cases (isRoot : Bool) (enc : Encoder) (hrun : s.vars.isRunning = true) (o : Received) :
    ∃ s1 : RxState, s1.vars = { s.vars with rxBuf := store s.vars.rxBuf o.frame } ∧
      s1.loc.sender = o.sender ∧
      ((accepted s.vars.meshCurrentAddr o = none ∧ rxPass isRoot enc s o = (s1, [])) ∨
        (∃ msg, accepted s.vars.meshCurrentAddr o = some msg ∧ s1.loc.recvMsg = msg ∧
          rxPass isRoot enc s o = handleMessage isRoot enc s1)) := by
  simp only [rxPass, hrun, if_true, espMeshRecv_offered, size_eq_zero]
  by_cases hempty : o.err ≠ espOk ∨ o.frame = []
  · refine ⟨_, ?_, ?_, .inl ⟨?_, if_pos hempty⟩⟩
    · rfl
    · rfl
    · rw [accepted, if_pos (by tauto)]
  · rw [if_neg hempty]
    by_cases hself : o.sender = s.vars.meshCurrentAddr
    · refine ⟨_, ?_, ?_, .inl ⟨?_, if_pos hself⟩⟩
      · rfl
      · rfl
      · rw [accepted, if_pos (by tauto)]
    · have hread : accepted s.vars.meshCurrentAddr o = readMessage o.frame := by
        rw [accepted, if_neg (by tauto)]
      rw [if_neg hself, if_pos (recvCount_mod_one _), frame_size, take_store _ _ o.fits, hread, readMessage]
      cases decodeMessage MQTTMessage.initDefault o.frame with
      | ok msg rest => exact ⟨_, rfl, rfl, .inr ⟨msg, rfl, rfl, rfl⟩⟩
      | fail error msg => exact ⟨_, rfl, rfl, .inl ⟨rfl, rfl⟩⟩

theorem handleMessage_vars (isRoot : Bool) (enc : Encoder) (s : RxState) :
    ∃ tx, (handleMessage isRoot enc s).1 = { s with vars.txBuf := tx } := by
  have hreply : ∃ tx, (replyStatus enc kartStatusMsg s).1 = { s with vars.txBuf := tx } := by
    refine ⟨store s.vars.txBuf (enc kartStatusMsg).bytes, ?_⟩
    simp only [replyStatus]
    split <;> rfl
  simp only [handleMessage]
  split
  · split <;> exact ⟨s.vars.txBuf, rfl⟩
  · split
    · exact ⟨s.vars.txBuf, rfl⟩
    · split
      · exact hreply
      · exact ⟨s.vars.txBuf, rfl⟩

/-- A pass stores the frame and may reuse the send buffer. Nothing else of what
the tasks share is written. -/
theorem rxPass_vars (isRoot : Bool) (enc : Encoder) (hrun : s.vars.isRunning = true) (o : Received) :
    ∃ tx, (rxPass isRoot enc s o).1.vars =
      { s.vars with rxBuf := store s.vars.rxBuf o.frame, txBuf := tx } := by
  obtain ⟨s1, hvars, -, ⟨-, h⟩ | ⟨msg, -, -, h⟩⟩ := rxPass_cases isRoot enc hrun o
  · refine ⟨s.vars.txBuf, ?_⟩
    rw [h, hvars]
  · obtain ⟨tx, ht⟩ := handleMessage_vars isRoot enc s1
    refine ⟨tx, ?_⟩
    rw [h, ht, hvars]

/-- After a run the buffer holds the frames written one over the other. -/
theorem rx_history (isRoot : Bool) (enc : Encoder) (hrun : s.vars.isRunning = true) (run : List Received) :
    (final (rxPass isRoot enc) s run).vars.isRunning = true ∧
      (final (rxPass isRoot enc) s run).vars.meshCurrentAddr = s.vars.meshCurrentAddr ∧
      (final (rxPass isRoot enc) s run).vars.rxBuf = (run.map Received.frame).foldl store s.vars.rxBuf := by
  induction run generalizing s with
  | nil => exact ⟨hrun, rfl, rfl⟩
  | cons o run ih =>
      obtain ⟨tx, hv⟩ := rxPass_vars isRoot enc hrun o
      have h := ih (s := (rxPass isRoot enc s o).1) (by rw [hv]; exact hrun)
      rw [hv] at h
      exact h

def replyData (enc : Encoder) (vars : MeshVars) : MeshData :=
  ⟨(store vars.txBuf (enc kartStatusMsg).bytes).cells, UInt16.ofNat (enc kartStatusMsg).bytes.length,
    .mqtt, .p2p⟩

def replyCalls (enc : Encoder) (vars : MeshVars) : List RxCall :=
  .encode kartStatusMsg (enc kartStatusMsg).status ::
    if (enc kartStatusMsg).bytes = [] then [] else [.sendRoot (replyData enc vars)]

/-- The calls one frame leads to. What is shared between the tasks only enters
their payload. -/
def frameCalls (isRoot : Bool) (enc : Encoder) (vars : MeshVars) (o : Received) : List RxCall :=
  match accepted vars.meshCurrentAddr o with
  | none => []
  | some msg =>
      if isRoot then
        if msg.topic = topicKart then
          [.appPublish (kartTopic o.sender) (store vars.rxBuf o.frame).cells]
        else []
      else if msg.topic = topicTrack then replyCalls enc vars
      else []

theorem frameCalls_root (enc : Encoder) (vars : MeshVars) (o : Received) :
    frameCalls true enc vars o = if OnTopic vars.meshCurrentAddr topicKart o then
      [.appPublish (kartTopic o.sender) (store vars.rxBuf o.frame).cells] else [] := by
  cases h : accepted vars.meshCurrentAddr o <;> simp [frameCalls, OnTopic, h]

theorem frameCalls_leaf (enc : Encoder) (vars : MeshVars) (o : Received) :
    frameCalls false enc vars o =
      if OnTopic vars.meshCurrentAddr topicTrack o then replyCalls enc vars else [] := by
  cases h : accepted vars.meshCurrentAddr o <;> simp [frameCalls, OnTopic, h]

theorem replyStatus_calls (enc : Encoder) (s : RxState) :
    (replyStatus enc kartStatusMsg s).2 = replyCalls enc s.vars := by
  by_cases h : (enc kartStatusMsg).bytes = []
  · simp [replyStatus, replyCalls, h]
  · simp [replyStatus, replyCalls, replyData, h]

theorem topicTrack_ne_topicKart : topicTrack ≠ topicKart := by
  decide

theorem rxPass_calls (isRoot : Bool) (enc : Encoder) (hrun : s.vars.isRunning = true) (o : Received) :
    (rxPass isRoot enc s o).2 = frameCalls isRoot enc s.vars o := by
  obtain ⟨s1, hvars, hsender, ⟨hread, h⟩ | ⟨msg, hread, hmsg, h⟩⟩ :=
    rxPass_cases isRoot enc hrun o
  · rw [h, frameCalls, hread]
  · rw [h, frameCalls, hread]
    cases isRoot with
    | true =>
        simp only [handleMessage, hmsg, hsender, hvars, if_true]
        split <;> rfl
    | false =>
        simp only [handleMessage, hmsg, Bool.false_eq_true, if_false]
        by_cases ht : msg.topic = topicTrack
        · have hk : msg.topic ≠ topicKart := ht ▸ topicTrack_ne_topicKart
          rw [if_neg hk, if_pos ht, replyStatus_calls, if_pos ht, replyCalls, replyData, hvars, replyCalls,
            replyData]
        · rw [if_neg ht, if_neg ht]
          split <;> rfl

theorem mem_rxPass_publish (enc : Encoder) (hrun : s.vars.isRunning = true) (o : Received)
    (topic : String) (data : List UInt8) :
    .appPublish topic data ∈ (rxPass true enc s o).2 ↔
      OnTopic s.vars.meshCurrentAddr topicKart o ∧ topic = kartTopic o.sender ∧
        data = (store s.vars.rxBuf o.frame).cells := by
  rw [rxPass_calls true enc hrun, frameCalls_root]
  by_cases hk : OnTopic s.vars.meshCurrentAddr topicKart o
  · simp [hk]
  · simp [hk]

theorem rxPass_reply (enc : Encoder) (hrun : s.vars.isRunning = true) {o : Received}
    (htrack : OnTopic s.vars.meshCurrentAddr topicTrack o) :
    (rxPass false enc s o).2 = replyCalls enc s.vars := by
  rw [rxPass_calls false enc hrun, frameCalls_leaf, if_pos htrack]

theorem encoded_size (out : EncodeOutcome) : (UInt16.ofNat out.bytes.length).toNat = out.bytes.length := by
  have h := out.fits
  rw [txSize] at h
  exact UInt16.toNat_ofNat_of_lt' (by rw [UInt16.size]; omega)

/-- What is sent from the send buffer is what was encoded into it. -/
theorem encoded_frame (out : EncodeOutcome) (tx : Block UInt8 txSize) :
    MeshData.frame ⟨(store tx out.bytes).cells, UInt16.ofNat out.bytes.length, .mqtt, .p2p⟩ = out.bytes := by
  simp only [MeshData.frame, encoded_size]
  exact take_store _ _ out.fits

theorem replyData_frame (enc : Encoder) (vars : MeshVars) :
    (replyData enc vars).frame = (enc kartStatusMsg).bytes :=
  encoded_frame (enc kartStatusMsg) vars.txBuf

end Spec

theorem readMessage_kartStatus : readMessage (pbEncoder kartStatusMsg).bytes = some kartStatusMsg := by
  decide +kernel

theorem pbEncoder_status (msg : MQTTMessage) : (pbEncoder msg).status = true := by
  have h := encodeMessage_succeeds (by decide : 320 ≤ txSize) msg
  rw [pbEncoder]
  exact Option.isNone_iff_eq_none.mpr h

theorem kartStatus_bytes : (pbEncoder kartStatusMsg).bytes ≠ [] := by
  decide +kernel

end RaceControl.MeshRx
