import Mathlib.Algebra.GroupWithZero.Nat
import RaceControl.MeshSend

namespace RaceControl.Broadcast

open Esp MeshSend

/-- The routing table call writes the first entries of the table, as many as the
buffer has room for. -/
def Serves (stack : MeshStack) (table : List MeshAddr) : Prop :=
  ∀ len, (stack.getRoutingTable len).2 = table.take (len / 6)

def Covers (table : List MeshAddr) (data : MeshData) (r : SendResult) : Prop :=
  (r.calls.map fun c => (c.dest, c.data)).Perm (table.map fun dest => (dest, data))

/-- The number of nodes in a tree of maxLayer layers with maxConnections children a node. -/
def topologyCapacity : Nat := ((List.range maxLayer).map (maxConnections ^ ·)).sum

def servingStack (table : List MeshAddr) (send : Nat → MeshAddr → MeshData → EspErr) : MeshStack where
  getRoutingTable len := (espOk, table.take (len / 6))
  send := send

theorem servingStack_serves (table : List MeshAddr) (send : Nat → MeshAddr → MeshData → EspErr) :
    Serves (servingStack table send) table := fun _ => rfl

theorem meshBroadcast_targets (stack : MeshStack) (data : MeshData) :
    (meshBroadcast stack data).calls.map (fun c => (c.dest, c.data)) =
      (stack.getRoutingTable (meshRouteTableMaxSize * 6)).2.map (fun dest => (dest, data)) := by
  rw [meshSend_broadcast]
  exact broadcastLoop_targets stack data 0 _

theorem meshBroadcast_targets_served {stack : MeshStack} {table : List MeshAddr} (h : Serves stack table)
    (data : MeshData) : (meshBroadcast stack data).calls.map (fun c => (c.dest, c.data)) =
      (table.take meshRouteTableMaxSize).map (fun dest => (dest, data)) := by
  rw [meshBroadcast_targets, h, Nat.mul_div_cancel _ (by decide)]

theorem not_covers_of_length {stack : MeshStack} {table : List MeshAddr} (h : Serves stack table)
    (hlen : meshRouteTableMaxSize < table.length) (data : MeshData) :
    ¬ Covers table data (meshBroadcast stack data) := by
  intro hc
  rw [Covers, meshBroadcast_targets_served h] at hc
  have hl := hc.length_eq
  simp only [List.length_map, List.length_take] at hl
  omega

/-- A broadcast reaches the whole table exactly when the table fits the buffer,
whatever the single sends return. -/
theorem meshBroadcast_covers_iff (stack : MeshStack) (table : List MeshAddr) (h : Serves stack table)
    (data : MeshData) :
    Covers table data (meshBroadcast stack data) ↔ table.length ≤ meshRouteTableMaxSize := by
  constructor
  · intro hc
    by_contra hlen
    exact not_covers_of_length h (by omega) data hc
  · intro hlen
    rw [Covers, meshBroadcast_targets_served h, List.take_of_length_le hlen]

def refusing (dest : MeshAddr) : Nat → MeshAddr → MeshData → EspErr :=
  fun _ a _ => if a = dest then -1 else espOk

theorem meshBroadcast_covers_two :
    Covers [⟨1, 2, 3, 4, 5, 6⟩, ⟨1, 2, 3, 4, 5, 7⟩] ⟨[8, 1], 2, .mqtt, .p2p⟩
      (meshBroadcast (servingStack [⟨1, 2, 3, 4, 5, 6⟩, ⟨1, 2, 3, 4, 5, 7⟩] (refusing ⟨1, 2, 3, 4, 5, 6⟩))
        ⟨[8, 1], 2, .mqtt, .p2p⟩) :=
  (meshBroadcast_covers_iff _ _ (servingStack_serves _ _) _).mpr (by decide)

def fiftyOne : List MeshAddr := (List.range 51).map fun n => ⟨1, 2, 3, 4, 5, UInt8.ofNat n⟩

theorem meshBroadcast_misses_a_node :
    fiftyOne.Nodup ∧ fiftyOne.length ≤ topologyCapacity ∧
      Serves (servingStack fiftyOne fun _ _ _ => espOk) fiftyOne ∧
      ¬ Covers fiftyOne ⟨[8, 1], 2, .mqtt, .p2p⟩
        (meshBroadcast (servingStack fiftyOne fun _ _ _ => espOk) ⟨[8, 1], 2, .mqtt, .p2p⟩) :=
  ⟨by decide +kernel, by decide, servingStack_serves _ _,
    not_covers_of_length (servingStack_serves _ _) (by decide) _⟩

section Report

def Obtained (r : SendResult) : Prop := ∀ e, r.lookup = some e → e = espOk

def AllSent (r : SendResult) : Prop := ∀ c ∈ r.calls, c.err = espOk

structure Reported (r : SendResult) : Prop where
  ok_iff : r.ret = espOk ↔ Obtained r ∧ AllSent r
  error : r.ret ≠ espOk → r.lookup = some r.ret ∨ ∃ c ∈ r.calls, c.err = r.ret

/-- The stack returns the routing table and takes the data for each of its entries. -/
def TakesAll (stack : MeshStack) (data : MeshData) : Prop :=
  (stack.getRoutingTable (meshRouteTableMaxSize * 6)).1 = espOk ∧
    ∀ i dest, (stack.getRoutingTable (meshRouteTableMaxSize * 6)).2[i]? = some dest →
      stack.send i dest data = espOk

theorem meshBroadcast_allOk_iff (stack : MeshStack) (data : MeshData) :
    Obtained (meshBroadcast stack data) ∧ AllSent (meshBroadcast stack data) ↔ TakesAll stack data := by
  rw [meshSend_broadcast, Obtained, AllSent, TakesAll]
  refine and_congr ?_ ?_
  · simp
  · constructor
    · intro h i dest hd
      have hc := h ⟨dest, data, stack.send (0 + i) dest data⟩ (mem_broadcastLoop.mpr ⟨i, dest, hd, rfl⟩)
      rwa [Nat.zero_add] at hc
    · intro h c hc
      obtain ⟨i, dest, hd, rfl⟩ := mem_broadcastLoop.mp hc
      rw [Nat.zero_add]
      exact h i dest hd

theorem meshBroadcast_reported_iff (stack : MeshStack) (data : MeshData) :
    Reported (meshBroadcast stack data) ↔ TakesAll stack data := by
  have hret : (meshBroadcast stack data).ret = espOk := by rw [meshSend_broadcast]
  rw [← meshBroadcast_allOk_iff]
  constructor
  · intro h
    exact h.ok_iff.mp hret
  · intro h
    exact ⟨⟨fun _ => h, fun _ => hret⟩, fun hne => absurd hret hne⟩

theorem meshSend_single_reported (stack : MeshStack) {dest : MeshAddr} (h : dest ≠ broadcastAddr)
    (data : MeshData) : Reported (meshSend stack dest data) := by
  rw [meshSend_single stack h]
  constructor
  · simp [Obtained, AllSent]
  · intro _
    exact .inr ⟨_, List.mem_singleton_self _, rfl⟩

theorem meshSend_reported_iff (stack : MeshStack) (dest : MeshAddr) (data : MeshData) :
    Reported (meshSend stack dest data) ↔ dest ≠ broadcastAddr ∨ TakesAll stack data := by
  by_cases h : dest = broadcastAddr
  · subst h
    have hb := meshBroadcast_reported_iff stack data
    rw [meshBroadcast] at hb
    simp [hb]
  · simp [h, meshSend_single_reported stack h data]

/-- The result of a send says what became of it, on every path, exactly when the
destination is a single node or nothing fails. -/
theorem sends_reported_iff (stack : MeshStack) (data : MeshData) :
    (∀ dest, Reported (meshSend stack dest data) ↔ dest ≠ broadcastAddr ∨ TakesAll stack data) ∧
      (Reported (meshBroadcast stack data) ↔ TakesAll stack data) ∧
      (∀ meshRootAddr, Reported (meshSendRoot stack meshRootAddr data) ↔
        meshRootAddr ≠ broadcastAddr ∨ TakesAll stack data) :=
  ⟨fun dest => meshSend_reported_iff stack dest data, meshBroadcast_reported_iff stack data,
    fun meshRootAddr => meshSend_reported_iff stack meshRootAddr data⟩

theorem meshBroadcast_hides_error :
    ¬ Reported (meshBroadcast (servingStack [⟨1, 2, 3, 4, 5, 6⟩] fun _ _ _ => -1) ⟨[8, 1], 2, .mqtt, .p2p⟩) := by
  intro h
  have hsent := (h.ok_iff.mp rfl).2 ⟨⟨1, 2, 3, 4, 5, 6⟩, ⟨[8, 1], 2, .mqtt, .p2p⟩, -1⟩ (by decide)
  exact absurd hsent (by decide)

end Report

end RaceControl.Broadcast
