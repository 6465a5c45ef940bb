import RaceControl.Library.Machine
import RaceControl.MqttApp

namespace RaceControl.Downlink

open Machine Esp MeshSend Globals MqttApp

def mqttStep (vars : MqttVars) (i : MqttEvent × Env) : MqttVars × List Call :=
  mqttEventProcess i.2 vars i.1

/-- The events by which the client delivers a message in chunks, each with its
length, its offset and the length of the whole. -/
def deliver (total : Nat) : Nat → List (List UInt8 × Env) → List (MqttEvent × Env)
  | _, [] => []
  | offset, (chunk, env) :: rest =>
      (.data ⟨chunk, chunk.length, offset, total⟩, env) :: deliver total (offset + chunk.length) rest

def message (chunks : List (List UInt8 × Env)) : List UInt8 := (chunks.map Prod.fst).flatten

def delivery (chunks : List (List UInt8 × Env)) : List (MqttEvent × Env) :=
  deliver (message chunks).length 0 chunks

def broadcasts (calls : List Call) : List MeshData :=
  calls.filterMap fun
    | .broadcast data _ => some data
    | _ => none

/-- What is broadcast is the message, once, and always when a frame can hold it. -/
structure Forwarded (mps : Nat) (message : List UInt8) (sent : List MeshData) : Prop where
  exact : ∀ data ∈ sent, data.frame = message ∧ data.size.toNat = message.length
  once : sent.length ≤ 1
  fits : message ≠ [] → message.length ≤ mps → sent.length = 1

def chunkData (chunk : List UInt8) : MeshData := ⟨chunk, UInt16.ofInt chunk.length, .mqtt, .p2p⟩

theorem chunkData_size (chunk : List UInt8) : (chunkData chunk).size.toNat = chunk.length % 2 ^ 16 := by
  have h : ((chunk.length : Int) % 2 ^ 16).toNat = chunk.length % 2 ^ 16 := by omega
  rw [chunkData, UInt16.ofInt, h, UInt16.toNat_ofNat', Nat.mod_mod]

theorem broadcasts_deliver (vars : MqttVars) (total offset : Nat) (chunks : List (List UInt8 × Env)) :
    broadcasts (trace mqttStep vars (deliver total offset chunks)) =
      chunks.map (fun c => chunkData c.1) := by
  induction chunks generalizing offset with
  | nil => rfl
  | cons c chunks ih =>
      have h := ih (offset + c.1.length)
      simp only [broadcasts] at h
      simp only [deliver, trace_cons, mqttStep, mqttEventProcess, broadcasts, List.filterMap_append,
        List.map_cons]
      exact congrArg (chunkData c.1 :: ·) h

theorem not_forwarded_of_chunks (mps : Nat) (vars : MqttVars) (first second : List UInt8 × Env)
    (rest : List (List UInt8 × Env)) :
    ¬ Forwarded mps (message (first :: second :: rest))
      (broadcasts (trace mqttStep vars (delivery (first :: second :: rest)))) := by
  intro h
  have hone := h.once
  rw [delivery, broadcasts_deliver] at hone
  simp at hone

/-- Whatever the client's chunks are, the message is forwarded exactly when it
came in one event and its length fits the size field. -/
theorem downlink_forwarded_iff (mps : Nat) (vars : MqttVars) (first : List UInt8 × Env)
    (rest : List (List UInt8 × Env)) :
    Forwarded mps (message (first :: rest))
        (broadcasts (trace mqttStep vars (delivery (first :: rest)))) ↔
      rest = [] ∧ first.1.length < 2 ^ 16 := by
  cases rest with
  | cons second rest => simp [not_forwarded_of_chunks]
  | nil =>
      have hm : message [first] = first.1 := by simp [message]
      rw [delivery, broadcasts_deliver, hm, List.map_cons, List.map_nil]
      constructor
      · intro h
        have hsize := (h.exact _ (List.mem_singleton_self _)).2
        rw [chunkData_size] at hsize
        exact ⟨rfl, by omega⟩
      · rintro ⟨-, hlt⟩
        have hsize : (chunkData first.1).size.toNat = first.1.length := by
          rw [chunkData_size]
          omega
        refine ⟨?_, by simp, by simp⟩
        intro data hd
        rw [List.mem_singleton.mp hd, MeshData.frame, hsize]
        exact ⟨List.take_length, rfl⟩

/-- A message of 1025 bytes, which a receive buffer of 1024 bytes splits in two. -/
theorem downlink_splits_message :
    ¬ Forwarded 1472 (message [(List.replicate 1024 0xFF, .allOk), ([1], .allOk)])
      (broadcasts (trace mqttStep ⟨true, true, true, true⟩
        (delivery [(List.replicate 1024 0xFF, .allOk), ([1], .allOk)]))) :=
  not_forwarded_of_chunks 1472 _ _ _ _

end RaceControl.Downlink
