import RaceControl.Esp

namespace RaceControl.MeshSend

open Esp

/-- The ESP-MESH calls made while one message is sent. The routing table call
is given the size of its buffer in bytes. The sends of one message are numbered. -/
structure MeshStack where
  getRoutingTable : Nat → EspErr × List MeshAddr
  send : Nat → MeshAddr → MeshData → EspErr

structure SendCall where
  dest : MeshAddr
  data : MeshData
  err : EspErr
  deriving DecidableEq

structure SendResult where
  ret : EspErr
  lookup : Option EspErr
  calls : List SendCall
  deriving DecidableEq

/-- The loop over the routing table. The error of a send is only logged. -/
def broadcastLoop (stack : MeshStack) (data : MeshData) : Nat → List MeshAddr → List SendCall
  | _, [] => []
  | i, dest :: table => ⟨dest, data, stack.send i dest data⟩ :: broadcastLoop stack data (i + 1) table

def meshSend (stack : MeshStack) (dest : MeshAddr) (data : MeshData) : SendResult :=
  if dest = broadcastAddr then
    let (err, routeTable) := stack.getRoutingTable (meshRouteTableMaxSize * 6)
    ⟨espOk, some err, broadcastLoop stack data 0 routeTable⟩
  else
    let err := stack.send 0 dest data
    if err ≠ espOk then
      ⟨err, none, [⟨dest, data, err⟩]⟩
    else
      ⟨espOk, none, [⟨dest, data, err⟩]⟩

def meshSendRoot (stack : MeshStack) (meshRootAddr : MeshAddr) (data : MeshData) : SendResult :=
  meshSend stack meshRootAddr data

def meshBroadcast (stack : MeshStack) (data : MeshData) : SendResult :=
  meshSend stack broadcastAddr data

theorem broadcastLoop_targets (stack : MeshStack) (data : MeshData) (i : Nat) (table : List MeshAddr) :
    (broadcastLoop stack data i table).map (fun c => (c.dest, c.data)) = table.map (·, data) := by
  induction table generalizing i with
  | nil => rfl
  | cons dest table ih => simp [broadcastLoop, ih]

theorem mem_broadcastLoop {stack : MeshStack} {data : MeshData} {i : Nat} {table : List MeshAddr}
    {c : SendCall} : c ∈ broadcastLoop stack data i table ↔
      ∃ j dest, table[j]? = some dest ∧ c = ⟨dest, data, stack.send (i + j) dest data⟩ := by
  induction table generalizing i with
  | nil => simp [broadcastLoop]
  | cons dest table ih =>
      rw [broadcastLoop, List.mem_cons, ih]
      constructor
      · rintro (rfl | ⟨j, a, ha, rfl⟩)
        · exact ⟨0, dest, rfl, rfl⟩
        · exact ⟨j + 1, a, ha, by rw [Nat.add_assoc, Nat.add_comm 1 j]⟩
      · rintro ⟨j, a, ha, rfl⟩
        cases j with
        | zero =>
            have he : dest = a := by simpa using ha
            exact .inl (by rw [he, Nat.add_zero])
        | succ j => exact .inr ⟨j, a, ha, by rw [Nat.add_assoc, Nat.add_comm 1 j]⟩

theorem meshSend_broadcast (stack : MeshStack) (data : MeshData) :
    meshBroadcast stack data =
      ⟨espOk, some (stack.getRoutingTable (meshRouteTableMaxSize * 6)).1,
        broadcastLoop stack data 0 (stack.getRoutingTable (meshRouteTableMaxSize * 6)).2⟩ := by
  simp [meshBroadcast, meshSend]

theorem meshSend_single (stack : MeshStack) {dest : MeshAddr} (h : dest ≠ broadcastAddr)
    (data : MeshData) : meshSend stack dest data =
      ⟨stack.send 0 dest data, none, [⟨dest, data, stack.send 0 dest data⟩]⟩ := by
  by_cases he : stack.send 0 dest data = espOk
  · simp [meshSend, h, he]
  · simp [meshSend, h, he]

end RaceControl.MeshSend
