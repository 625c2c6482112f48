import Mathlib.Data.List.Basic
import Mathlib.Data.Nat.ModEq

namespace Httpd.RingBuffer
set_option autoImplicit true

/-- The `count` cells of a circular array that follow `head`, front first. -/
def window [Inhabited α] (cells : List α) (capacity head count : Nat) : List α :=
  (List.range count).map fun i => cells.getD ((head + i) % capacity) default

variable [Inhabited α]

@[simp] theorem window_length (cells : List α) (c h n : Nat) :
    (window cells c h n).length = n := by
  simp only [window, List.length_map, List.length_range]

theorem window_eq_nil (cells : List α) (c h n : Nat) : window cells c h n = [] ↔ n = 0 := by
  rw [← List.length_eq_zero_iff, window_length]

/-- Offsets below the capacity reach different cells, whatever the head is. -/
theorem offset_ne {c h i n : Nat} (hi : i < n) (hn : n < c) : (h + i) % c ≠ (h + n) % c := by
  intro he
  have hm : i ≡ n [MOD c] := Nat.ModEq.add_left_cancel' h he
  have hin : i = n := Nat.ModEq.eq_of_lt_of_lt hm (Nat.lt_trans hi hn) hn
  omega

theorem window_push (cells : List α) (x : α) {c h n : Nat} (hlen : cells.length = c)
    (hn : n < c) :
    window (cells.set ((h + n) % c) x) c h (n + 1) = window cells c h n ++ [x] := by
  have hlt : (h + n) % c < cells.length := by
    rw [hlen]
    exact Nat.mod_lt _ (by omega)
  simp only [window, List.range_succ, List.map_append, List.map_cons, List.map_nil]
  congr 1
  · apply List.map_congr_left
    intro i hi
    have hne := offset_ne (h := h) (List.mem_range.1 hi) hn
    simp only [List.getD_eq_getElem?_getD, List.getElem?_set_ne (Ne.symm hne)]
  · simp only [List.getD_eq_getElem?_getD, List.getElem?_set_self hlt, Option.getD_some]

theorem window_pop (cells : List α) (c h n : Nat) :
    window cells c h (n + 1) =
      cells.getD (h % c) default :: window cells c ((h + 1) % c) n := by
  simp only [window, List.range_succ_eq_map, List.map_cons, List.map_map, Nat.add_zero]
  congr 1
  apply List.map_congr_left
  intro i _
  have he : (h + (i + 1)) % c = ((h + 1) % c + i) % c := by
    rw [Nat.mod_add_mod]
    congr 1
    omega
  simp only [Function.comp_apply, Nat.succ_eq_add_one, he]

theorem tail_pop {c h n : Nat} : (h + (n + 1)) % c = ((h + 1) % c + n) % c := by
  rw [Nat.mod_add_mod]
  congr 1
  omega

theorem tail_push {c h n : Nat} : ((h + n) % c + 1) % c = (h + (n + 1)) % c := by
  rw [Nat.mod_add_mod]
  rfl

end Httpd.RingBuffer
