import Mathlib.Algebra.GroupWithZero.Nat
import Mathlib.Data.List.Count
import Mathlib.Data.List.Flatten
import Mathlib.Data.List.Perm.Basic

namespace Httpd.ListUpdate
set_option autoImplicit true

theorem set_split {l : List α} {i : Nat} (h : l[i]? = some a) :
    ∃ before after, l = before ++ a :: after ∧ ∀ b, l.set i b = before ++ b :: after := by
  obtain ⟨hi, rfl⟩ := List.getElem?_eq_some_iff.1 h
  refine ⟨l.take i, l.drop (i + 1), ?_, fun b => ?_⟩
  · rw [← List.drop_eq_getElem_cons hi, List.take_append_drop]
  · rw [List.set_eq_take_append_cons_drop, if_pos hi]

theorem mem_set_of_ne {l : List α} {i : Nat} (h : x ∈ l.set i b) (hb : b ≠ x) : x ∈ l :=
  (List.mem_or_eq_of_mem_set h).resolve_right hb.symm

theorem mem_of_getElem? {l : List α} {i : Nat} (h : l[i]? = some a) : a ∈ l :=
  List.mem_iff_getElem?.2 ⟨i, h⟩

theorem getElem?_set_stays {l : List α} {i j : Nat} (h : l[i]? = some a) (hx : a ≠ x)
    (hj : l[j]? = some x) (b : α) : (l.set i b)[j]? = some x := by
  have hne : i ≠ j := by
    intro he
    rw [he, hj] at h
    exact hx (Option.some.inj h).symm
  rw [List.getElem?_set_ne hne]
  exact hj

theorem count_set [DecidableEq α] {l : List α} {i : Nat} (h : l[i]? = some a) (b x : α) :
    (l.set i b).count x + (if a = x then 1 else 0) = l.count x + (if b = x then 1 else 0) := by
  obtain ⟨before, after, hl, hset⟩ := set_split h
  rw [hset b, hl]
  simp only [List.count_append, List.count_cons, beq_iff_eq]
  omega

theorem sum_map_set {l : List α} {i : Nat} (h : l[i]? = some a) (f : α → Nat) (b : α) :
    ((l.set i b).map f).sum + f a = (l.map f).sum + f b := by
  obtain ⟨before, after, hl, hset⟩ := set_split h
  rw [hset b, hl]
  simp only [List.map_append, List.map_cons, List.sum_append, List.sum_cons]
  omega

/-- What the change of one element does to the elements' contributions. -/
theorem flatMap_set_perm {l : List α} {i : Nat} (h : l[i]? = some a) (f : α → List β) (b : α) :
    (f a ++ (l.set i b).flatMap f).Perm (f b ++ l.flatMap f) := by
  classical
  obtain ⟨before, after, hl, hset⟩ := set_split h
  apply List.perm_iff_count.2
  intro x
  rw [hset b, hl]
  simp only [List.flatMap_append, List.flatMap_cons, List.count_append]
  omega

theorem length_flatMap_le {l : List α} {f : α → List β} (h : ∀ a, (f a).length ≤ k) :
    (l.flatMap f).length ≤ l.length * k := by
  induction l with
  | nil => exact Nat.zero_le _
  | cons a l ih =>
    have ha := h a
    rw [List.flatMap_cons, List.length_append, List.length_cons, Nat.add_one_mul]
    omega

end Httpd.ListUpdate
