import Mathlib.Data.List.Induction
import Mathlib.Data.List.Perm.Basic

namespace RaceControl.History

variable {α β : Type*} {R : List α → α → Prop}

def Explained (R : List α → α → Prop) (past : List α) : Prop :=
  ∀ pre x post, past = pre ++ x :: post → R pre x

theorem explained_nil : Explained R [] := by
  intro pre x post h
  simp at h

theorem explained_congr {R' : List α → α → Prop} (h : ∀ pre x, R pre x ↔ R' pre x) (past : List α) :
    Explained R past ↔ Explained R' past :=
  forall_congr' fun pre => forall_congr' fun x => forall_congr' fun _ => imp_congr_right fun _ => h pre x

theorem explained_concat (past : List α) (x : α) :
    Explained R (past ++ [x]) ↔ Explained R past ∧ R past x := by
  constructor
  · intro h
    refine ⟨?_, h past x [] rfl⟩
    rintro pre y post rfl
    exact h pre y (post ++ [x]) (by simp)
  · rintro ⟨h, hx⟩ pre y post he
    rcases List.eq_nil_or_concat post with rfl | ⟨post, z, rfl⟩
    · obtain ⟨rfl, hy⟩ := List.append_inj' he rfl
      cases hy
      exact hx
    · rw [List.concat_eq_append, ← List.cons_append, ← List.append_assoc] at he
      exact h pre y post (List.append_inj' he rfl).1

theorem explained_append {past xs : List α} (h : Explained R past) (hxs : ∀ x ∈ xs, ∀ pre, R pre x) :
    Explained R (past ++ xs) := by
  induction xs using List.reverseRecOn with
  | nil => simpa using h
  | append_singleton xs x ih =>
      rw [← List.append_assoc, explained_concat]
      exact ⟨ih (fun y hy => hxs y (by simp [hy])), hxs x (by simp) _⟩

/-- Each of the new elements is explained by what stands before it. -/
def Follows (R : List α → α → Prop) : List α → List α → Prop
  | _, [] => True
  | past, x :: xs => R past x ∧ Follows R (past ++ [x]) xs

theorem follows_append {past xs ys : List α} (hxs : Follows R past xs) (hys : Follows R (past ++ xs) ys) :
    Follows R past (xs ++ ys) := by
  induction xs generalizing past with
  | nil => simpa using hys
  | cons x xs ih => exact ⟨hxs.1, ih hxs.2 (by simpa using hys)⟩

theorem explained_follows {past xs : List α} (h : Explained R past) (hxs : Follows R past xs) :
    Explained R (past ++ xs) := by
  induction xs generalizing past with
  | nil => simpa using h
  | cons x xs ih =>
      have hx : Explained R (past ++ [x]) := (explained_concat past x).mpr ⟨h, hxs.1⟩
      simpa using ih hx hxs.2

theorem perm_cons_eraseIdx {l : List α} {k : Nat} {a : α} (h : l[k]? = some a) :
    (a :: l.eraseIdx k).Perm l := by
  obtain ⟨hk, rfl⟩ := List.getElem?_eq_some_iff.mp h
  exact List.getElem_cons_eraseIdx_perm hk

theorem key_not_mem_eraseIdx {key : α → β} {l : List α} (hl : (l.map key).Nodup) {k : Nat} {a : α}
    (h : l[k]? = some a) : key a ∉ (l.eraseIdx k).map key := by
  have hp := ((perm_cons_eraseIdx h).map key).nodup_iff.mpr hl
  rw [List.map_cons, List.nodup_cons] at hp
  exact hp.1

end RaceControl.History
