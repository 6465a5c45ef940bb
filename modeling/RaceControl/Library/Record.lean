import Mathlib.Order.Basic

namespace RaceControl.Record

section Memory

variable {β : Type*}

abbrev Memory (β : Type*) := Int → β

def read (mem : Memory β) (a : Int) : Nat → List β
  | 0 => []
  | n + 1 => mem a :: read mem (a + 1) n

def write (mem : Memory β) (a : Int) (cells : List β) : Memory β := fun x =>
  if a ≤ x then cells[(x - a).toNat]?.getD (mem x) else mem x

/-- Nothing has changed outside n cells. -/
def Frame (a : Int) (n : Nat) (mem mem' : Memory β) : Prop := ∀ x, x < a ∨ a + n ≤ x → mem' x = mem x

theorem read_length (mem : Memory β) (a : Int) (n : Nat) : (read mem a n).length = n := by
  induction n generalizing a with
  | zero => rfl
  | succ n ih => rw [read, List.length_cons, ih]

theorem read_congr {mem mem' : Memory β} {a : Int} {n : Nat} (h : ∀ x, a ≤ x → x < a + n → mem' x = mem x) :
    read mem' a n = read mem a n := by
  induction n generalizing a with
  | zero => rfl
  | succ n ih =>
      rw [read, read, h a (by omega) (by omega), ih fun x hle hlt => h x (by omega) (by omega)]

theorem read_of {mem : Memory β} {a : Int} {cells : List β} (h : ∀ (i : Nat) b, cells[i]? = some b → mem (a + i) = b) :
    read mem a cells.length = cells := by
  induction cells generalizing a with
  | nil => rfl
  | cons b cells ih =>
      have hhead : mem a = b := by simpa using h 0 b rfl
      rw [List.length_cons, read, hhead, ih]
      intro i c hi
      have hnext := h (i + 1) c hi
      rwa [Int.natCast_succ, Int.add_comm (i : Int), ← Int.add_assoc] at hnext

theorem read_write (mem : Memory β) (a : Int) (cells : List β) : read (write mem a cells) a cells.length = cells := by
  apply read_of
  intro i b hi
  have hle : a ≤ a + (i : Int) := by omega
  have hindex : (a + (i : Int) - a).toNat = i := by omega
  rw [write, if_pos hle, hindex, hi, Option.getD_some]

theorem read_replicate {mem : Memory β} {a : Int} {n : Nat} {b : β} (h : ∀ x, a ≤ x → x < a + n → mem x = b) :
    read mem a n = List.replicate n b := by
  induction n generalizing a with
  | zero => rfl
  | succ n ih =>
      rw [read, List.replicate_succ, h a (by omega) (by omega), ih fun x hle hlt => h x (by omega) (by omega)]

theorem write_replicate (mem : Memory β) (a : Int) (n : Nat) (b : β) {x : Int} (hle : a ≤ x) (hlt : x < a + n) :
    write mem a (List.replicate n b) x = b := by
  have hindex : (x - a).toNat < n := by omega
  rw [write, if_pos hle, List.getElem?_replicate, if_pos hindex, Option.getD_some]

theorem Frame.refl (a : Int) (n : Nat) (mem : Memory β) : Frame a n mem mem := fun _ _ => rfl

theorem Frame.trans {a : Int} {n : Nat} {mem mem' mem'' : Memory β} (h : Frame a n mem mem')
    (h' : Frame a n mem' mem'') : Frame a n mem mem'' := fun x hx => (h' x hx).trans (h x hx)

theorem Frame.mono {a b : Int} {n k : Nat} {mem mem' : Memory β} (h : Frame b k mem mem') (hle : a ≤ b)
    (hend : b + k ≤ a + n) : Frame a n mem mem' := fun x hx => h x (by omega)

theorem frame_write (mem : Memory β) (a : Int) (cells : List β) : Frame a cells.length mem (write mem a cells) := by
  intro x hx
  rw [write]
  split
  · have hend : cells.length ≤ (x - a).toNat := by omega
    rw [List.getElem?_eq_none hend, Option.getD_none]
  · rfl

/-- A write into the middle of a range changes nothing outside it. -/
theorem frame_write_at {mem : Memory β} {a : Int} {n offset : Nat} {cells : List β} (h : offset + cells.length ≤ n) :
    Frame a n mem (write mem (a + offset) cells) :=
  (frame_write mem _ cells).mono (by omega) (by omega)

/-- Both memories hold the same n cells. -/
def Same (a : Int) (n : Nat) (mem mem' : Memory β) : Prop := ∀ x, a ≤ x → x < a + n → mem' x = mem x

theorem Same.read {a : Int} {n offset k : Nat} {mem mem' : Memory β} (h : Same a n mem mem') (hle : offset + k ≤ n) :
    read mem' (a + offset) k = read mem (a + offset) k :=
  read_congr fun x hx hlt => h x (by omega) (by omega)

theorem Same.sub {a : Int} {n offset k : Nat} {mem mem' : Memory β} (h : Same a n mem mem') (hle : offset + k ≤ n) :
    Same (a + offset) k mem mem' := fun x hx hlt => h x (by omega) (by omega)

end Memory

/-- The cells from an offset on. -/
def Span (offset n : Nat) (x : Int) : Prop := (offset : Int) ≤ x ∧ x < offset + n

section Piece

variable {β σ τ : Type*} {view : Memory β → Int → σ} {region : Int → Prop} {part : Memory β → Int → τ}
  {get : σ → τ} {set : τ → σ → σ}

/-- A part of a value that is kept in memory. It is read off a region of its own,
and whatever changes in that region changes the part alone. -/
structure Piece (view : Memory β → Int → σ) (region : Int → Prop) (part : Memory β → Int → τ) (get : σ → τ)
    (set : τ → σ → σ) : Prop where
  reads : ∀ mem a, get (view mem a) = part mem a
  writes : ∀ mem mem' a, (∀ x, ¬ region (x - a) → mem' x = mem x) → view mem' a = set (part mem' a) (view mem a)

theorem Piece.mono {region' : Int → Prop} (h : Piece view region part get set) (hle : ∀ x, region' x → region x) :
    Piece view region' part get set where
  reads := h.reads
  writes mem mem' a hsame := h.writes mem mem' a fun x hx => hsame x fun hin => hx (hle _ hin)

/-- A change of the cells of a part is a change of the part. -/
theorem Piece.frame {offset n : Nat} (h : Piece view (Span offset n) part get set) {mem mem' : Memory β} {a : Int}
    (hframe : Frame (a + offset) n mem mem') : view mem' a = set (part mem' a) (view mem a) := by
  apply h.writes
  intro x hx
  apply hframe
  rw [Span] at hx
  omega

theorem Piece.set_get (h : Piece view region part get set) (mem : Memory β) (a : Int) :
    set (get (view mem a)) (view mem a) = view mem a := by
  rw [h.reads, ← h.writes mem mem a fun _ _ => rfl]

/-- A part that shares its cells with others. The value has it when the selector
says so. -/
structure Choice (view : Memory β → Int → σ) (region : Int → Prop) (selector : Memory β → Int → Nat) (tag : Nat)
    (part : Memory β → Int → τ) (clear : σ → σ) (select : σ → Option τ) (store : τ → σ → σ) : Prop where
  selects : ∀ mem a, select (view mem a) = if selector mem a = tag then some (part mem a) else none
  stores : ∀ mem mem' a, (∀ x, ¬ region (x - a) → mem' x = mem x) → selector mem' a = tag →
    view mem' a = store (part mem' a) (view mem a)
  clears : ∀ mem mem' a, (∀ x, ¬ region (x - a) → mem' x = mem x) → selector mem' a = 0 →
    view mem' a = clear (view mem a)

/-- The values of a type, by the members they are made of. -/
structure Members (ι σ : Type*) where
  value : ι → Type
  get : (i : ι) → σ → value i
  set : (i : ι) → value i → σ → σ
  get_set : ∀ i v x, get i (set i v x) = v
  get_set_ne : ∀ i j v x, i ≠ j → get j (set i v x) = get j x
  ext : ∀ x y, (∀ i, get i x = get i y) → x = y

/-- A part that may be absent, as a choice of the values it can take. -/
theorem Piece.choice {ρ : Type*} {part : Memory β → Int → ρ} {get : σ → ρ} {set : ρ → σ → σ}
    (h : Piece view region part get set) {selector : Memory β → Int → Nat} {tag : Nat} {member : Memory β → Int → τ}
    {wrap : τ → ρ} {unwrap : ρ → Option τ} {empty : ρ}
    (hselects : ∀ mem a, unwrap (part mem a) = if selector mem a = tag then some (member mem a) else none)
    (hwrap : ∀ mem a, selector mem a = tag → part mem a = wrap (member mem a))
    (hempty : ∀ mem a, selector mem a = 0 → part mem a = empty) :
    Choice view region selector tag member (set empty) (fun x => unwrap (get x)) (fun v x => set (wrap v) x) where
  selects mem a := by rw [h.reads, hselects]
  stores mem mem' a hsame htag := by rw [h.writes mem mem' a hsame, hwrap mem' a htag]
  clears mem mem' a hsame hzero := by rw [h.writes mem mem' a hsame, hempty mem' a hzero]

end Piece

section Layout

variable {β ι κ σ : Type*}

/-- Where the members of a struct lie: inside it and apart from each other. -/
structure Layout (length : κ → Nat) where
  offset : κ → Nat
  size : Nat
  inside : ∀ k, offset k + length k ≤ size
  apart : ∀ j k, j ≠ k → offset j + length j ≤ offset k ∨ offset k + length k ≤ offset j

/-- A value in a struct. Each of its members is read off the struct's members it owns. -/
structure Placed (m : Members ι σ) {length : κ → Nat} (layout : Layout length) (β : Type*) where
  owner : κ → ι
  view : Memory β → Int → σ
  within : ∀ i (mem mem' : Memory β) a, (∀ k, owner k = i → Same (a + layout.offset k) (length k) mem mem') →
    m.get i (view mem' a) = m.get i (view mem a)

variable {m : Members ι σ} {length : κ → Nat} {layout : Layout length}

def Placed.region (p : Placed m layout β) (i : ι) (x : Int) : Prop :=
  ∃ k, p.owner k = i ∧ Span (layout.offset k) (length k) x

theorem Placed.piece (p : Placed m layout β) (i : ι) :
    Piece p.view (p.region i) (fun mem a => m.get i (p.view mem a)) (m.get i) (m.set i) where
  reads _ _ := rfl
  writes mem mem' a h := by
    apply m.ext
    intro j
    by_cases hij : i = j
    · subst hij
      rw [m.get_set]
    · rw [m.get_set_ne _ _ _ _ hij]
      apply p.within
      intro k hk x hle hlt
      apply h
      rintro ⟨l, hl, hspan⟩
      have hne : k ≠ l := fun heq => hij (hl.symm.trans (heq ▸ hk))
      have hapart := layout.apart k l hne
      rw [Span] at hspan
      omega

theorem Placed.piece_at (p : Placed m layout β) (k : κ) :
    Piece p.view (Span (layout.offset k) (length k)) (fun mem a => m.get (p.owner k) (p.view mem a))
      (m.get (p.owner k)) (m.set (p.owner k)) :=
  (p.piece (p.owner k)).mono fun _ hx => ⟨k, rfl, hx⟩

/-- A value rests on the cells of its struct alone. -/
theorem Placed.view_same (p : Placed m layout β) {mem mem' : Memory β} {a : Int} (h : Same a layout.size mem mem') :
    p.view mem' a = p.view mem a := by
  apply m.ext
  intro i
  exact p.within i mem mem' a fun k _ => h.sub (layout.inside k)

end Layout

end RaceControl.Record
