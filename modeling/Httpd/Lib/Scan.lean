import Mathlib.Data.List.DropRight
import Mathlib.Data.List.Infix

namespace Httpd.Scan
set_option autoImplicit true

theorem prefix_append_iff {pat s : List α} (t : List α) (hl : pat.length ≤ s.length) :
    pat <+: s ++ t ↔ pat <+: s := by
  constructor
  · intro h
    exact List.prefix_of_prefix_length_le h (List.prefix_append s t) hl
  · intro h
    exact h.trans (List.prefix_append s t)

variable [DecidableEq α]

/-- The offset at which a pattern first occurs. -/
def firstOccurrence (pat : List α) : List α → Option Nat
  | [] => if pat = [] then some 0 else none
  | x :: xs => if pat <+: x :: xs then some 0 else (firstOccurrence pat xs).map (· + 1)

theorem firstOccurrence_bound {pat s : List α} (h : firstOccurrence pat s = some i) :
    i + pat.length ≤ s.length := by
  induction s generalizing i with
  | nil =>
    simp only [firstOccurrence] at h
    split at h
    · cases h
      rename_i hp
      simp only [hp, List.length_nil, Nat.add_zero, Nat.le_refl]
    · cases h
  | cons x xs ih =>
    simp only [firstOccurrence] at h
    split at h
    · cases h
      rename_i hp
      simpa only [Nat.zero_add] using hp.length_le
    · obtain ⟨j, hj, rfl⟩ := Option.map_eq_some_iff.1 h
      have hb := ih hj
      simp only [List.length_cons]
      omega

theorem firstOccurrence_spec {pat s : List α} (h : firstOccurrence pat s = some i) :
    ∃ u v, s = u ++ pat ++ v ∧ u.length = i := by
  induction s generalizing i with
  | nil =>
    simp only [firstOccurrence] at h
    split at h
    · cases h
      rename_i hp
      exact ⟨[], [], by simp only [hp, List.append_nil], rfl⟩
    · cases h
  | cons x xs ih =>
    simp only [firstOccurrence] at h
    split at h
    · cases h
      rename_i hp
      obtain ⟨v, hv⟩ := hp
      exact ⟨[], v, by simp only [List.nil_append, hv], rfl⟩
    · obtain ⟨j, hj, rfl⟩ := Option.map_eq_some_iff.1 h
      obtain ⟨u, v, he, hl⟩ := ih hj
      exact ⟨x :: u, v, by rw [he]; rfl, by simp only [List.length_cons, hl]⟩

theorem firstOccurrence_occurs {pat s : List α} (h : firstOccurrence pat s = some i) :
    pat <:+: s := by
  obtain ⟨u, v, rfl, -⟩ := firstOccurrence_spec h
  exact ⟨u, v, rfl⟩

/-- A scan that succeeds does not look past the occurrence. -/
theorem firstOccurrence_append {pat s : List α} (t : List α) (hp : pat ≠ [])
    (h : firstOccurrence pat s = some i) : firstOccurrence pat (s ++ t) = some i := by
  induction s generalizing i with
  | nil =>
    simp only [firstOccurrence, if_neg hp] at h
    cases h
  | cons x xs ih =>
    have hb := firstOccurrence_bound h
    simp only [firstOccurrence, List.cons_append] at h ⊢
    by_cases hc : pat <+: x :: xs
    · rw [if_pos hc] at h
      rw [← List.cons_append, if_pos (hc.trans (List.prefix_append _ t))]
      exact h
    · rw [if_neg hc] at h
      obtain ⟨j, hj, rfl⟩ := Option.map_eq_some_iff.1 h
      have hl : pat.length ≤ (x :: xs).length := by
        have := firstOccurrence_bound hj
        simp only [List.length_cons]
        omega
      rw [← List.cons_append, if_neg fun hc' => hc ((prefix_append_iff t hl).1 hc'), ih hj]
      rfl

theorem firstOccurrence_skip {c : α} {q l : List α} (hl : c ∉ l) (rest : List α) :
    firstOccurrence (c :: q) (l ++ rest) =
      (firstOccurrence (c :: q) rest).map (· + l.length) := by
  induction l with
  | nil => cases h : firstOccurrence (c :: q) rest <;> simp only [List.nil_append, h] <;> rfl
  | cons x l ih =>
    have hx : ¬ c :: q <+: x :: (l ++ rest) := by
      intro hp
      exact hl ((List.cons_prefix_cons.1 hp).1 ▸ List.mem_cons_self)
    rw [List.cons_append, firstOccurrence, if_neg hx, ih fun h => hl (List.mem_cons_of_mem _ h),
      Option.map_map]
    rfl

theorem firstOccurrence_drop {pat l rest : List α}
    (h : firstOccurrence pat (l ++ rest) = some (i + l.length)) :
    firstOccurrence pat rest = some i := by
  induction l with
  | nil => exact h
  | cons x l ih =>
    rw [List.cons_append, firstOccurrence] at h
    split at h
    · cases h
    · obtain ⟨j, hj, he⟩ := Option.map_eq_some_iff.1 h
      obtain rfl : j = i + l.length := Nat.succ.inj he
      exact ih hj

theorem firstOccurrence_cons (c : α) (q rest : List α) :
    firstOccurrence (c :: q) (c :: rest) =
      if q <+: rest then some 0 else (firstOccurrence (c :: q) rest).map (· + 1) := by
  simp only [firstOccurrence, List.cons_prefix_cons, true_and]

/-- A scan succeeds on everything the pattern occurs in. -/
theorem exists_firstOccurrence {pat s : List α} (h : pat <:+: s) :
    ∃ i, firstOccurrence pat s = some i := by
  induction s with
  | nil =>
    have hp : pat = [] := List.infix_nil.1 h
    exact ⟨0, if_pos hp⟩
  | cons x xs ih =>
    by_cases hc : pat <+: x :: xs
    · exact ⟨0, if_pos hc⟩
    · have hrest : pat <:+: xs := (List.infix_cons_iff.1 h).resolve_left hc
      obtain ⟨i, hi⟩ := ih hrest
      exact ⟨i + 1, by rw [firstOccurrence, if_neg hc, hi]; rfl⟩

theorem firstOccurrence_first {pat s : List α} (hp : pat ≠ [])
    (h : firstOccurrence pat s = some i) (hn : n < i + pat.length) : ¬ pat <:+: s.take n := by
  intro hinfix
  obtain ⟨j, hj⟩ := exists_firstOccurrence hinfix
  have hbound : j + pat.length ≤ (s.take n).length := firstOccurrence_bound hj
  have hwhole := firstOccurrence_append (s.drop n) hp hj
  rw [List.take_append_drop, h, Option.some.injEq] at hwhole
  rw [List.length_take] at hbound
  omega

theorem idxOf?_split {x : α} {l : List α} (h : l.idxOf? x = some i) :
    l = l.take i ++ x :: l.drop (i + 1) ∧ x ∉ l.take i ∧ i < l.length := by
  obtain ⟨hi, hx, hfirst⟩ := List.idxOf?_eq_some_iff.1 h
  refine ⟨?_, fun hmem => ?_, hi⟩
  · rw [← hx, ← List.drop_eq_getElem_cons hi, List.take_append_drop]
  · obtain ⟨j, hj, hjx⟩ := List.getElem_of_mem hmem
    rw [List.length_take] at hj
    rw [List.getElem_take] at hjx
    exact hfirst j (by omega) hjx

theorem idxOf?_append {x : α} {l : List α} (h : x ∉ l) (rest : List α) :
    (l ++ x :: rest).idxOf? x = some l.length := by
  induction l with
  | nil => rw [List.nil_append, List.idxOf?_cons, beq_self_eq_true]; rfl
  | cons y l ih =>
    have hy : (y == x) = false := beq_false_of_ne fun he => h (he ▸ List.mem_cons_self)
    rw [List.cons_append, List.idxOf?_cons, hy, ih fun hm => h (List.mem_cons_of_mem _ hm)]
    rfl

theorem takeWhile_append_stop {x : α} {l : List α} (h : x ∉ l) (rest : List α) :
    (l ++ x :: rest).takeWhile (· ≠ x) = l := by
  induction l with
  | nil => exact List.takeWhile_cons_of_neg (by simp)
  | cons y l ih =>
    have hy : y ≠ x := fun he => h (he ▸ List.mem_cons_self)
    rw [List.cons_append, List.takeWhile_cons_of_pos (by simpa using hy),
      ih fun hm => h (List.mem_cons_of_mem _ hm)]

theorem dropWhile_append_stop {x : α} {l : List α} (h : x ∉ l) (rest : List α) :
    (l ++ x :: rest).dropWhile (· ≠ x) = x :: rest := by
  have hsplit := List.takeWhile_append_dropWhile (p := (· ≠ x)) (l := l ++ x :: rest)
  rw [takeWhile_append_stop h] at hsplit
  exact List.append_cancel_left hsplit

omit [DecidableEq α] in
theorem rdropWhile_append {p : α → Bool} {l pad : List α} (hp : ∀ x ∈ pad, p x = true)
    (hl : ∀ x, l.getLast? = some x → p x = false) : (l ++ pad).rdropWhile p = l := by
  have hpad : ∀ x ∈ pad.reverse, p x = true := fun x hx => hp x (List.mem_reverse.1 hx)
  rw [List.rdropWhile, List.reverse_append, List.dropWhile_append_of_pos hpad]
  apply List.rdropWhile_eq_self_iff.2
  intro hne
  rw [hl _ (List.getLast?_eq_getLast_of_ne_nil hne)]
  exact Bool.false_ne_true

end Httpd.Scan
