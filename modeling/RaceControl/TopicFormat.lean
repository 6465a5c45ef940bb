import RaceControl.Topic

namespace RaceControl.TopicFormat

open Esp Topic

/-- A hexadecimal digit, one # of the documented format. -/
def readDigit (c : Char) : Option Nat :=
  if '0' ≤ c ∧ c ≤ '9' then some (c.toNat - '0'.toNat)
  else if 'a' ≤ c ∧ c ≤ 'f' then some (c.toNat - 'a'.toNat + 10)
  else if 'A' ≤ c ∧ c ≤ 'F' then some (c.toNat - 'A'.toNat + 10)
  else none

def readGroup : List Char → Option UInt8
  | [high, low] =>
      match readDigit high, readDigit low with
      | some h, some l => some (UInt8.ofNat (16 * h + l))
      | _, _ => none
  | _ => none

def readAddr : List UInt8 → Option MeshAddr
  | [b0, b1, b2, b3, b4, b5] => some ⟨b0, b1, b2, b3, b4, b5⟩
  | _ => none

/-- The reader of the documented format /kart/##:##:##:##:##:##. -/
def readKartTopic (topic : String) : Option MeshAddr :=
  if "/kart/".toList <+: topic.toList then
    (((topic.toList.drop 6).splitOn ':').mapM readGroup).bind readAddr
  else none

/-- The format %02x of one byte, as MACSTR uses it. -/
def hexPadded (b : UInt8) : List Char := if b < 16 then '0' :: hex b else hex b

def macStr (a : MeshAddr) : List Char := [':'].intercalate (a.bytes.map hexPadded)

/-- The topic a consumer forms from an address as the logs print it. -/
def macTopic (a : MeshAddr) : String := String.ofList ("/kart/".toList ++ macStr a)

/-- The topic is in the documented format, it reads back as the address, and it
is the topic a consumer expects. -/
structure Documented (a : MeshAddr) (topic : String) : Prop where
  reads : readKartTopic topic = some a
  expected : topic = macTopic a

theorem byte_cases {P : UInt8 → Prop} (h : ∀ n < 256, P (UInt8.ofNat n)) (b : UInt8) : P b := by
  have hb := h b.toNat b.toNat_lt
  rwa [UInt8.ofNat_toNat] at hb

theorem readGroup_hex (b : UInt8) : readGroup (hex b) = some b ↔ 16 ≤ b :=
  byte_cases (P := fun b => readGroup (hex b) = some b ↔ 16 ≤ b) (by decide +kernel) b

theorem readGroup_padded (b : UInt8) : readGroup (hexPadded b) = some b :=
  byte_cases (P := fun b => readGroup (hexPadded b) = some b) (by decide +kernel) b

theorem colon_not_mem_padded (b : UInt8) : ':' ∉ hexPadded b := by
  rw [hexPadded]
  split
  · simp [colon_not_mem_hex b]
  · exact colon_not_mem_hex b

theorem hexPadded_eq_hex {b : UInt8} (h : 16 ≤ b) : hexPadded b = hex b := by
  rw [hexPadded, if_neg (UInt8.not_lt.mpr h)]

theorem readAddr_eq_some (bytes : List UInt8) (a : MeshAddr) : readAddr bytes = some a ↔ bytes = a.bytes := by
  constructor
  · intro h
    unfold readAddr at h
    split at h
    · cases h
      rfl
    · cases h
  · rintro rfl
    rfl

/-- Groups are read one by one, and all of them have to be read back. -/
theorem mapM_groups (render : UInt8 → List Char) (bytes : List UInt8) :
    (bytes.map render).mapM readGroup = some bytes ↔ ∀ b ∈ bytes, readGroup (render b) = some b := by
  induction bytes with
  | nil => simp
  | cons b bytes ih =>
      rw [List.map_cons, List.mapM_cons, List.forall_mem_cons, ← ih]
      cases readGroup (render b) with
      | none => simp
      | some c => cases (bytes.map render).mapM readGroup <;> simp

/-- A topic made of groups without a colon is read from its groups. -/
theorem readKartTopic_groups {topic : String} {render : UInt8 → List Char} (a : MeshAddr)
    (htopic : topic.toList = "/kart/".toList ++ [':'].intercalate (a.bytes.map render))
    (hcolon : ∀ b, ':' ∉ render b) :
    readKartTopic topic = some a ↔ ∀ b ∈ a.bytes, readGroup (render b) = some b := by
  have hdrop : topic.toList.drop 6 = [':'].intercalate (a.bytes.map render) := by
    rw [htopic]
    exact List.drop_left' (by decide)
  have hsplit : (topic.toList.drop 6).splitOn ':' = a.bytes.map render := by
    rw [hdrop]
    apply List.splitOn_intercalate
    · intro group hg
      obtain ⟨b, _, rfl⟩ := List.mem_map.mp hg
      exact hcolon b
    · simp [MeshAddr.bytes]
  have hprefix : "/kart/".toList <+: topic.toList := by
    rw [htopic]
    exact List.prefix_append _ _
  rw [readKartTopic, if_pos hprefix, hsplit, ← mapM_groups, Option.bind_eq_some_iff]
  constructor
  · rintro ⟨bytes, hread, haddr⟩
    rw [hread, (readAddr_eq_some bytes a).mp haddr]
  · intro hread
    exact ⟨a.bytes, hread, (readAddr_eq_some a.bytes a).mpr rfl⟩

theorem macTopic_toList (a : MeshAddr) :
    (macTopic a).toList = "/kart/".toList ++ [':'].intercalate (a.bytes.map hexPadded) :=
  String.toList_ofList

/-- The documented format loses nothing. -/
theorem readKartTopic_macTopic (a : MeshAddr) : readKartTopic (macTopic a) = some a :=
  (readKartTopic_groups a (macTopic_toList a) colon_not_mem_padded).mpr fun b _ => readGroup_padded b

/-- The published topic is in the format when no byte loses its leading zero. -/
theorem readKartTopic_kartTopic (a : MeshAddr) :
    readKartTopic (kartTopic a) = some a ↔ ∀ b ∈ a.bytes, 16 ≤ b := by
  rw [readKartTopic_groups a (kartTopic_toList a) colon_not_mem_hex]
  exact forall₂_congr fun b _ => readGroup_hex b

theorem kartTopic_eq_macTopic {a : MeshAddr} (h : ∀ b ∈ a.bytes, 16 ≤ b) : kartTopic a = macTopic a := by
  have hgroups : a.bytes.map hex = a.bytes.map hexPadded := by
    apply List.map_congr_left
    intro b hb
    exact (hexPadded_eq_hex (h b hb)).symm
  apply String.toList_inj.mp
  rw [kartTopic_toList, macTopic_toList, hgroups]

/-- A published topic keeps to the documented format exactly when every byte of
the sender's address has two hexadecimal digits. -/
theorem kartTopic_documented_iff (a : MeshAddr) :
    Documented a (kartTopic a) ↔ ∀ b ∈ a.bytes, 16 ≤ b := by
  constructor
  · intro h
    exact (readKartTopic_kartTopic a).mp h.reads
  · intro h
    exact ⟨(readKartTopic_kartTopic a).mpr h, kartTopic_eq_macTopic h⟩

theorem kartTopic_drops_zero :
    ¬ Documented ⟨0x24, 0x6F, 0x28, 0x00, 0x0A, 0xFF⟩ (kartTopic ⟨0x24, 0x6F, 0x28, 0x00, 0x0A, 0xFF⟩) := by
  intro h
  have hwide := (readKartTopic_kartTopic _).mp h.reads 0x00 (by decide)
  exact absurd hwide (by decide)

end RaceControl.TopicFormat
