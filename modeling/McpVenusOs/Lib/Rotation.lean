/-
  McpVenusOs.Lib.Rotation

  Windows of a rotated list: the first `m` elements from a position on, read
  around the end.  A reader that advances by the width of its windows sees every
  element once the widths add up to the length (`exists_mem_windows`).
-/

import Mathlib.Data.List.Rotate

namespace Rotation

variable {α : Type*}

/-- Up to `m` elements of `l` from position `c` on. -/
def window (m : ℕ) (l : List α) (c : ℕ) : List α := (l.rotate c).take m

/-- The number of elements in a window. -/
def width (m : ℕ) (l : List α) : ℕ := min m l.length

/-- `k` consecutive windows from position `c` on, the latest first. -/
def windows (m : ℕ) (l : List α) (c : ℕ) : ℕ → List (List α)
  | 0 => []
  | k + 1 => window m l (c + k * width m l) :: windows m l c k

section Window

variable {m c : ℕ} {l : List α}

@[simp] theorem length_window : (window m l c).length = width m l := by
  rw [window, List.length_take, List.length_rotate, width]

theorem window_mod (m : ℕ) (l : List α) (c : ℕ) : window m l (c % l.length) = window m l c := by
  rw [window, List.rotate_mod, window]

theorem nodup_window (h : l.Nodup) : (window m l c).Nodup :=
  (List.nodup_rotate.mpr h).sublist (List.take_sublist _ _)

theorem mem_of_mem_window {x : α} (h : x ∈ window m l c) : x ∈ l :=
  List.mem_rotate.mp (List.mem_of_mem_take h)

/-- An element is in the window if it is less than its width away. -/
theorem mem_window {r : ℕ} (hr : r < width m l) {x : α} (hx : l[(r + c) % l.length]? = some x) :
    x ∈ window m l c := by
  have hrm : r < m := hr.trans_le (min_le_left _ _)
  have hrl : r < l.length := hr.trans_le (min_le_right _ _)
  refine List.mem_of_getElem? (i := r) ?_
  rw [window, List.getElem?_take_of_lt hrm, List.getElem?_rotate hrl, hx]

end Window

section Windows

variable {m : ℕ} {l : List α}

@[simp] theorem length_windows (c k : ℕ) : (windows m l c k).length = k := by
  induction k with
  | zero => rfl
  | succ k ih => rw [windows, List.length_cons, ih]

/-- Every window is one at a later position. -/
theorem mem_windows {c k : ℕ} {w : List α} :
    w ∈ windows m l c k ↔ ∃ i < k, w = window m l (c + i * width m l) := by
  induction k with
  | zero => simp [windows]
  | succ k ih =>
    rw [windows, List.mem_cons, ih]
    constructor
    · rintro (rfl | ⟨i, hi, rfl⟩)
      · exact ⟨k, Nat.lt_succ_self k, rfl⟩
      · exact ⟨i, hi.trans (Nat.lt_succ_self k), rfl⟩
    · rintro ⟨i, hi, rfl⟩
      rcases Nat.lt_succ_iff_lt_or_eq.mp hi with hi | rfl
      · exact .inr ⟨i, hi, rfl⟩
      · exact .inl rfl

theorem windows_add (c i k : ℕ) :
    windows m l c (i + k) = windows m l (c + i * width m l) k ++ windows m l c i := by
  induction k with
  | zero => rfl
  | succ k ih =>
    have hstart : c + (i + k) * width m l = c + i * width m l + k * width m l := by
      rw [Nat.add_mul, Nat.add_assoc]
    rw [← Nat.add_assoc, windows, ih, windows, hstart, List.cons_append]

/-- A stretch of consecutive windows is one of its own. -/
theorem windows_stretch {c k : ℕ} {pre ws suf : List (List α)}
    (h : windows m l c k = pre ++ ws ++ suf) :
    ws = windows m l (c + suf.length * width m l) ws.length := by
  have hk : k = suf.length + ws.length + pre.length := by
    have hlength := congrArg List.length h
    simp only [length_windows, List.length_append] at hlength
    omega
  rw [hk, windows_add, windows_add, List.append_assoc] at h
  obtain ⟨-, hrest⟩ := List.append_inj h (length_windows _ _)
  exact (List.append_inj hrest (length_windows _ _)).1.symm

/-- Windows that are as wide as the list together see all of it. -/
theorem exists_mem_windows {c k : ℕ} (hk : l.length ≤ k * width m l) {x : α} (hx : x ∈ l) :
    ∃ w ∈ windows m l c k, x ∈ w := by
  obtain ⟨j, hj, hxj⟩ := List.mem_iff_getElem.mp hx
  have hpos : 0 < l.length := Nat.zero_lt_of_lt hj
  have hwidth : 0 < width m l := Nat.pos_of_mul_pos_left (hpos.trans_le hk)
  -- the distance of `x` from the first position, as windows and a rest
  obtain ⟨d, hd⟩ : ∃ d, d = (j + (l.length - c % l.length)) % l.length := ⟨_, rfl⟩
  have hd_lt : d < k * width m l := (hd ▸ Nat.mod_lt _ hpos).trans_le hk
  have hposition : (d + c) % l.length = j := by
    have hc := Nat.mod_lt c hpos
    have hsum : j + (l.length - c % l.length) + c % l.length = j + l.length := by omega
    rw [hd, Nat.mod_add_mod, ← Nat.add_mod_mod, hsum, Nat.add_mod_right, Nat.mod_eq_of_lt hj]
  refine ⟨_, mem_windows.mpr ⟨d / width m l, (Nat.div_lt_iff_lt_mul hwidth).mpr hd_lt, rfl⟩, ?_⟩
  refine mem_window (Nat.mod_lt d hwidth) ?_
  have hrest : d % width m l + (c + d / width m l * width m l) = d + c := by
    have := Nat.mod_add_div' d (width m l)
    omega
  rw [hrest, hposition, List.getElem?_eq_getElem hj, hxj]

end Windows

end Rotation
