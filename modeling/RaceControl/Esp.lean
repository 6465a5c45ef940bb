import RaceControl.Library.Memory

namespace RaceControl.Esp

open Memory

abbrev EspErr := Int

def espOk : EspErr := 0

structure MeshAddr where
  b0 : UInt8
  b1 : UInt8
  b2 : UInt8
  b3 : UInt8
  b4 : UInt8
  b5 : UInt8
  deriving DecidableEq, Repr

def MeshAddr.bytes (a : MeshAddr) : List UInt8 := [a.b0, a.b1, a.b2, a.b3, a.b4, a.b5]

theorem MeshAddr.bytes_injective : Function.Injective MeshAddr.bytes := by
  intro a b h
  cases a
  cases b
  simpa [MeshAddr.bytes] using h

def zeroAddr : MeshAddr := ⟨0, 0, 0, 0, 0, 0⟩

def broadcastAddr : MeshAddr := ⟨0xFF, 0xFF, 0xFF, 0xFF, 0xFF, 0xFF⟩

/-- The address of a single node, as ESP-MESH reports it in its events. -/
abbrev NodeAddr := { a : MeshAddr // a ≠ broadcastAddr }

inductive MeshProto
  | bin | http | json | mqtt
  deriving DecidableEq, Repr

inductive MeshTos
  | p2p | e2e | deflt
  deriving DecidableEq, Repr

/-- The memory readable at the data pointer, and how much of it is the message.
The size field has sixteen bits. -/
structure MeshData where
  data : List UInt8
  size : UInt16
  proto : MeshProto
  tos : MeshTos
  deriving DecidableEq

def MeshData.frame (d : MeshData) : List UInt8 := d.data.take d.size.toNat

def rxSize : Nat := 1500

def txSize : Nat := 1460

def meshRouteTableMaxSize : Nat := 50

def maxConnections : Nat := 4

def maxLayer : Nat := 8

end RaceControl.Esp
