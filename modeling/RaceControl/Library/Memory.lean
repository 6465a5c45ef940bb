import Mathlib.Data.List.Induction

namespace RaceControl.Memory

variable {α : Type*}

/-- A block of memory of fixed size. -/
structure Block (α : Type*) (n : Nat) where
  cells : List α
  size : cells.length = n

def fill (n : Nat) (a : α) : Block α n := ⟨List.replicate n a, List.length_replicate⟩

theorem store_size {n : Nat} (b : Block α n) (xs : List α) :
    (xs.take n ++ b.cells.drop xs.length).length = n := by
  simp only [List.length_append, List.length_take, List.length_drop, b.size]
  omega

/-- Write from the first cell on. Cells past the end of the data keep what they
held, and data past the end of the block is not stored. -/
def store {n : Nat} (b : Block α n) (xs : List α) : Block α n :=
  ⟨xs.take n ++ b.cells.drop xs.length, store_size b xs⟩

theorem ext {n : Nat} {b c : Block α n} (h : b.cells = c.cells) : b = c := by
  cases b; cases c; cases h; rfl

theorem cells_store {n : Nat} (b : Block α n) (xs : List α) (h : xs.length ≤ n) :
    (store b xs).cells = xs ++ b.cells.drop xs.length := by
  simp only [store, List.take_of_length_le h]

theorem take_store {n : Nat} (b : Block α n) (xs : List α) (h : xs.length ≤ n) :
    (store b xs).cells.take xs.length = xs := by
  rw [cells_store b xs h, List.take_left]

/-- What a cell holds after a history of writes over an initial value. The most
recent write that reaches the cell decides. -/
def residue (a : α) (writes : List (List α)) (i : Nat) : α :=
  writes.foldl (fun kept xs => xs[i]?.getD kept) a

theorem residue_concat (a : α) (writes : List (List α)) (xs : List α) (i : Nat) :
    residue a (writes ++ [xs]) i = xs[i]?.getD (residue a writes i) := by
  simp [residue]

/-- A cell that no write reaches keeps the initial value. -/
theorem residue_unwritten (a : α) {writes : List (List α)} {i : Nat}
    (h : ∀ xs ∈ writes, xs.length ≤ i) : residue a writes i = a := by
  induction writes using List.reverseRecOn with
  | nil => rfl
  | append_singleton writes xs ih =>
      rw [residue_concat, List.getElem?_eq_none (h xs (by simp)), Option.getD_none]
      exact ih (fun ys hy => h ys (by simp [hy]))

theorem getElem?_store {n : Nat} (b : Block α n) (xs : List α) (h : xs.length ≤ n) (i : Nat) :
    (store b xs).cells[i]? = if i < xs.length then xs[i]? else b.cells[i]? := by
  rw [cells_store b xs h]
  by_cases hi : i < xs.length
  · rw [List.getElem?_append_left hi, if_pos hi]
  · rw [List.getElem?_append_right (by omega), if_neg hi, List.getElem?_drop]
    congr 1
    omega

theorem getElem?_fill (n : Nat) (a : α) {i : Nat} (hi : i < n) : (fill n a).cells[i]? = some a := by
  simp [fill, hi]

theorem getElem?_history {n : Nat} (a : α) (writes : List (List α))
    (hw : ∀ xs ∈ writes, xs.length ≤ n) {i : Nat} (hi : i < n) :
    (writes.foldl store (fill n a)).cells[i]? = some (residue a writes i) := by
  induction writes using List.reverseRecOn with
  | nil => exact getElem?_fill n a hi
  | append_singleton writes xs ih =>
      rw [List.foldl_append, List.foldl_cons, List.foldl_nil, residue_concat,
        getElem?_store _ _ (hw xs (by simp)), ih (fun ys hy => hw ys (by simp [hy]))]
      by_cases hx : i < xs.length
      · rw [if_pos hx, List.getElem?_eq_getElem hx, Option.getD_some]
      · rw [if_neg hx, List.getElem?_eq_none (by omega), Option.getD_none]

/-- After a history of writes and one more, an item is in the last write or in
what the history left behind its end. -/
theorem mem_store_history {n : Nat} (a : α) (writes : List (List α))
    (hw : ∀ xs ∈ writes, xs.length ≤ n) (xs : List α) (hx : xs.length ≤ n) (z : α) :
    z ∈ (store (writes.foldl store (fill n a)) xs).cells ↔
      z ∈ xs ∨ ∃ i, xs.length ≤ i ∧ i < n ∧ residue a writes i = z := by
  have hsize := (writes.foldl store (fill n a)).size
  rw [cells_store _ xs hx, List.mem_append]
  refine or_congr_right ?_
  rw [List.mem_iff_getElem?]
  constructor
  · rintro ⟨j, hj⟩
    rw [List.getElem?_drop] at hj
    obtain ⟨hlt, -⟩ := List.getElem?_eq_some_iff.mp hj
    rw [hsize] at hlt
    rw [getElem?_history a writes hw hlt, Option.some.injEq] at hj
    exact ⟨xs.length + j, Nat.le_add_right _ _, hlt, hj⟩
  · rintro ⟨i, hle, hlt, hi⟩
    refine ⟨i - xs.length, ?_⟩
    rw [List.getElem?_drop, Nat.add_sub_cancel' hle, getElem?_history a writes hw hlt, hi]

section Scan

variable [DecidableEq α]

/-- The items in front of the first terminator, or none when the scan runs off
the end of the memory it was given. -/
def scan (z : α) : List α → Option (List α)
  | [] => none
  | x :: xs => if x = z then some [] else (scan z xs).map (x :: ·)

theorem scan_eq_none (z : α) (xs : List α) : scan z xs = none ↔ z ∉ xs := by
  induction xs with
  | nil => simp [scan]
  | cons x xs ih =>
      by_cases hx : x = z
      · simp [scan, hx]
      · simp [scan, hx, ih, Ne.symm hx]

theorem scan_append (z : α) (xs ys : List α) (h : z ∉ xs) :
    scan z (xs ++ ys) = (scan z ys).map (xs ++ ·) := by
  induction xs with
  | nil => simp
  | cons x xs ih =>
      simp only [List.mem_cons, not_or] at h
      simp only [List.cons_append, scan, if_neg (Ne.symm h.1), ih h.2, Option.map_map]
      rfl

theorem not_mem_of_scan {z : α} {xs ys : List α} (h : scan z xs = some ys) : z ∉ ys := by
  induction xs generalizing ys with
  | nil => simp [scan] at h
  | cons x xs ih =>
      by_cases hx : x = z
      · simp only [scan, if_pos hx, Option.some.injEq] at h
        simp [← h]
      · simp only [scan, if_neg hx, Option.map_eq_some_iff] at h
        obtain ⟨zs, hz, rfl⟩ := h
        simp only [List.mem_cons, not_or]
        exact ⟨Ne.symm hx, ih hz⟩

theorem scan_prefix_iff (z : α) (xs rest : List α) :
    scan z (xs ++ rest) = some xs ↔ z ∉ xs ∧ rest.head? = some z := by
  constructor
  · intro h
    have hx := not_mem_of_scan h
    refine ⟨hx, ?_⟩
    rw [scan_append z xs rest hx, Option.map_eq_some_iff] at h
    obtain ⟨ys, hy, he⟩ := h
    have hnil : ys = [] := by simpa using he
    subst hnil
    cases rest with
    | nil => simp [scan] at hy
    | cons r rest =>
        by_cases hr : r = z
        · simp [hr]
        · simp [scan, hr] at hy
  · rintro ⟨hx, hr⟩
    rw [scan_append z xs rest hx]
    cases rest with
    | nil => simp at hr
    | cons r rest =>
        have he : r = z := by simpa using hr
        simp [scan, he]

theorem scan_store_iff {n : Nat} (z : α) (b : Block α n) (xs : List α) (h : xs.length ≤ n) :
    scan z (store b xs).cells = some xs ↔ z ∉ xs ∧ b.cells[xs.length]? = some z := by
  rw [cells_store b xs h, scan_prefix_iff, List.head?_drop]

end Scan

end RaceControl.Memory
