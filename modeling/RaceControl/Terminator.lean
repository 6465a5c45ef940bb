import RaceControl.Uplink

namespace RaceControl.Terminator

open Machine Memory History Esp Globals Messages Topic MeshRx Uplink

/-- The length scan of a publish finds a zero byte in the receive buffer, and so
ends there. -/
structure ScanInside (data : List UInt8) : Prop where
  terminator : ∃ i < rxSize, data[i]? = some 0
  ends : (scan 0 data).isSome = true

def PassInside (enc : Encoder) (s : RxState) (o : Received) : Prop :=
  ∀ topic data, .appPublish topic data ∈ (rxPass true enc s o).2 → ScanInside data

def RunInside (enc : Encoder) (vars : MeshVars) (loc : RxLocals) (run : List Received) : Prop :=
  ∀ pre o post, run = pre ++ o :: post →
    PassInside enc (final (rxPass true enc) (uplinkEntry vars loc) pre) o

/-- A frame that comes with a terminator, given the frames received before it: a
zero byte of its own, or a cell behind its end that no earlier frame reached or
where the last one that did left a zero. -/
def HasTerminator (earlier : List (List UInt8)) (frame : List UInt8) : Prop :=
  0 ∈ frame ∨ ∃ i, frame.length ≤ i ∧ i < rxSize ∧ residue 0 earlier i = 0

theorem scanInside_iff {data : List UInt8} (hsize : data.length = rxSize) : ScanInside data ↔ 0 ∈ data := by
  constructor
  · intro h
    obtain ⟨i, _, hi⟩ := h.terminator
    exact List.mem_of_getElem? hi
  · intro h
    obtain ⟨i, hi⟩ := List.mem_iff_getElem?.mp h
    obtain ⟨hlt, -⟩ := List.getElem?_eq_some_iff.mp hi
    refine ⟨⟨i, hsize ▸ hlt, hi⟩, ?_⟩
    rw [Option.isSome_iff_ne_none]
    intro hnone
    exact (scan_eq_none 0 data).mp hnone h

theorem received_inside_iff (earlier : List Received) (o : Received) :
    ScanInside (store ((earlier.map Received.frame).foldl store (fill rxSize (0 : UInt8))) o.frame).cells ↔
      HasTerminator (earlier.map Received.frame) o.frame := by
  rw [scanInside_iff (Block.size _), mem_store_history 0 _ (frames_fit earlier) o.frame o.fits, HasTerminator]

theorem pass_inside_iff (enc : Encoder) (vars : MeshVars) (loc : RxLocals) (pre : List Received) (o : Received) :
    PassInside enc (final (rxPass true enc) (uplinkEntry vars loc) pre) o ↔
      (OnTopic vars.meshCurrentAddr topicKart o → HasTerminator (pre.map Received.frame) o.frame) := by
  obtain ⟨hrun, hself, hbuf⟩ := rx_history true enc (s := uplinkEntry vars loc) rfl pre
  have hinside := received_inside_iff pre o
  constructor
  · intro h hk
    have hmem := (mem_rxPass_publish enc hrun o _ _).mpr ⟨by rw [hself]; exact hk, rfl, rfl⟩
    have hscan := h _ _ hmem
    rw [hbuf] at hscan
    exact hinside.mp hscan
  · intro h topic data hmem
    obtain ⟨hk, -, rfl⟩ := (mem_rxPass_publish enc hrun o topic data).mp hmem
    rw [hself] at hk
    rw [hbuf]
    exact hinside.mpr (h hk)

/-- In a run of the receive task every publish scan stays inside the buffer
exactly when every kart message comes with a terminator. -/
theorem publish_inside_iff (enc : Encoder) (vars : MeshVars) (loc : RxLocals) (run : List Received) :
    RunInside enc vars loc run ↔
      ∀ pre o post, run = pre ++ o :: post → OnTopic vars.meshCurrentAddr topicKart o →
        HasTerminator (pre.map Received.frame) o.frame :=
  explained_congr (pass_inside_iff enc vars loc) run

/-- An unknown field fills the message up to the size of the buffer. -/
def fullFrame : List UInt8 := [8, 2, 42, 0xD7, 0x0B] ++ List.replicate 1495 1

def fullReception : Received := ⟨espOk, ⟨1, 2, 3, 4, 5, 6⟩, fullFrame, by decide +kernel⟩

theorem full_frame_runs_out : ¬ RunInside pbEncoder (meshVarsInit zeroAddr) RxLocals.initZero [fullReception] := by
  intro h
  have hk : OnTopic zeroAddr topicKart fullReception := by decide +kernel
  have hterminator := (pass_inside_iff pbEncoder (meshVarsInit zeroAddr) RxLocals.initZero [] fullReception).mp
    (h [] fullReception [] rfl) hk
  rcases hterminator with hzero | ⟨i, hle, hlt, -⟩
  · have hnone : (0 : UInt8) ∉ fullFrame := by decide +kernel
    exact hnone hzero
  · have hfull : fullReception.frame.length = rxSize := by decide +kernel
    omega

/-- As long as no frame fills the buffer, its last cell is a terminator. -/
theorem short_frames_inside (enc : Encoder) (vars : MeshVars) (loc : RxLocals) {run : List Received}
    (h : ∀ o ∈ run, o.frame.length < rxSize) : RunInside enc vars loc run := by
  intro pre o post he
  have hshort : o.frame.length < rxSize := h o (by simp [he])
  have hlast : residue 0 (pre.map Received.frame) (rxSize - 1) = 0 := by
    apply residue_unwritten
    intro xs hx
    obtain ⟨p, hp, rfl⟩ := List.mem_map.mp hx
    have hlt : p.frame.length < rxSize := h p (by simp [he, hp])
    omega
  exact (pass_inside_iff enc vars loc pre o).mpr
    fun _ => .inr ⟨rxSize - 1, by omega, by decide, hlast⟩

end RaceControl.Terminator
