import Mathlib.Data.List.Basic
import RaceControl.Esp

namespace RaceControl.Topic

open Esp

def mqttTrackTopic : String := "/track"

/-- The format {:x} of one byte: lower case, without leading zeros. -/
def hex (b : UInt8) : List Char := Nat.toDigits 16 b.toNat

def kartTopic (a : MeshAddr) : String :=
  String.ofList ("/kart/".toList ++ hex a.b0 ++ ':' :: hex a.b1 ++ ':' :: hex a.b2 ++
    ':' :: hex a.b3 ++ ':' :: hex a.b4 ++ ':' :: hex a.b5)

def hexDigit (c : Char) : Nat := if c.isDigit then c.toNat - '0'.toNat else c.toNat - 'a'.toNat + 10

def hexValue (cs : List Char) : Nat := cs.foldl (fun n c => 16 * n + hexDigit c) 0

theorem hexValue_digits : ∀ n < 256, hexValue (Nat.toDigits 16 n) = n := by decide +kernel

theorem colon_not_mem_digits : ∀ n < 256, ':' ∉ Nat.toDigits 16 n := by decide +kernel

theorem hex_injective : Function.Injective hex := by
  intro a b h
  apply UInt8.toNat_inj.mp
  rw [← hexValue_digits a.toNat a.toNat_lt, ← hexValue_digits b.toNat b.toNat_lt]
  exact congrArg hexValue h

theorem colon_not_mem_hex (b : UInt8) : ':' ∉ hex b := by
  have h := colon_not_mem_digits b.toNat b.toNat_lt
  rwa [hex]

theorem kartTopic_toList (a : MeshAddr) :
    (kartTopic a).toList = "/kart/".toList ++ [':'].intercalate (a.bytes.map hex) := by
  refine String.toList_ofList.trans ?_
  simp only [MeshAddr.bytes, List.map_cons, List.map_nil, List.intercalate_cons_cons,
    List.intercalate_singleton, List.append_assoc, List.cons_append, List.nil_append]

/-- No group contains the separator, so splitting a topic at the colons gives
back its groups even though they are not padded. -/
theorem splitOn_kartTopic (a : MeshAddr) :
    ((kartTopic a).toList.drop 6).splitOn ':' = a.bytes.map hex := by
  have hdrop : (kartTopic a).toList.drop 6 = [':'].intercalate (a.bytes.map hex) := by
    rw [kartTopic_toList]
    exact List.drop_left' (by decide)
  rw [hdrop]
  apply List.splitOn_intercalate
  · intro group hg
    obtain ⟨b, _, rfl⟩ := List.mem_map.mp hg
    exact colon_not_mem_hex b
  · simp [MeshAddr.bytes]

theorem kartTopic_injective : Function.Injective kartTopic := by
  intro a b h
  have hs : a.bytes.map hex = b.bytes.map hex := by
    rw [← splitOn_kartTopic, ← splitOn_kartTopic, h]
  exact MeshAddr.bytes_injective (List.map_injective_iff.mpr hex_injective hs)

/-- Kart topics and the track topic already differ in their second character. -/
theorem kartTopic_ne_track (a : MeshAddr) : kartTopic a ≠ mqttTrackTopic := by
  intro h
  have hk : (kartTopic a).toList[1]? = some 'k' := by
    rw [kartTopic_toList, List.getElem?_append_left (by decide)]
    decide
  rw [h] at hk
  exact absurd hk (by decide)

example : kartTopic ⟨0x24, 0x6F, 0x28, 0x00, 0x0A, 0xFF⟩ = "/kart/24:6f:28:0:a:ff" := by decide

end RaceControl.Topic
