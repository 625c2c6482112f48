import Mathlib.Data.List.Count

namespace Httpd.ConditionVariable
set_option autoImplicit true

/-- How a thread stands to a condition variable: not waiting, asleep in the wait, or woken and
still to take the mutex again. -/
inductive Waiter where
  | running
  | blocked
  | woken
  deriving DecidableEq

def Waiter.wake : Waiter → Waiter
  | .blocked => .woken
  | w => w

def wakeSelected : List Bool → List Waiter → List Waiter
  | true :: mask, w :: ws => w.wake :: wakeSelected mask ws
  | false :: mask, w :: ws => w :: wakeSelected mask ws
  | _, ws => ws

/-- A signal wakes the selected threads, at least one if any sleeps. -/
def signal (mask : List Bool) (ws : List Waiter) : Option (List Waiter) :=
  let after := wakeSelected mask ws
  if .blocked ∈ ws ∧ after.count .blocked = ws.count .blocked then none else some after

def broadcast (ws : List Waiter) : List Waiter := ws.map Waiter.wake

theorem wakeSelected_count (mask : List Bool) (ws : List Waiter) :
    (wakeSelected mask ws).count .blocked + (wakeSelected mask ws).count .woken =
        ws.count .blocked + ws.count .woken ∧
      (wakeSelected mask ws).count .blocked ≤ ws.count .blocked := by
  induction mask generalizing ws with
  | nil => cases ws <;> exact ⟨rfl, Nat.le_refl _⟩
  | cons b mask ih =>
    cases ws with
    | nil => cases b <;> exact ⟨rfl, Nat.le_refl _⟩
    | cons w ws =>
      obtain ⟨hsum, hle⟩ := ih ws
      cases b <;> cases w <;>
        simp only [wakeSelected, Waiter.wake, List.count_cons, beq_self_eq_true, if_true,
          reduceCtorEq, beq_iff_eq, if_false] <;>
        omega

theorem wakeSelected_length (mask : List Bool) (ws : List Waiter) :
    (wakeSelected mask ws).length = ws.length := by
  induction mask generalizing ws with
  | nil => cases ws <;> rfl
  | cons b mask ih =>
    cases ws with
    | nil => cases b <;> rfl
    | cons w ws => cases b <;> exact congrArg (· + 1) (ih ws)

theorem signal_length (h : signal mask ws = some ws') : ws'.length = ws.length := by
  simp only [signal] at h
  split at h
  · cases h
  · cases h
    exact wakeSelected_length mask ws

theorem broadcast_length (ws : List Waiter) : (broadcast ws).length = ws.length :=
  List.length_map _

/-- If a thread sleeps through a signal then the signal woke another one. -/
theorem signal_woken (h : signal mask ws = some ws') (hb : .blocked ∈ ws') :
    .blocked ∈ ws ∧ ws.count .woken + 1 ≤ ws'.count .woken := by
  obtain ⟨hsum, hle⟩ := wakeSelected_count mask ws
  simp only [signal] at h
  split at h
  · cases h
  · rename_i hguard
    cases h
    have hpos := List.count_pos_iff.2 hb
    have hmem : .blocked ∈ ws := List.count_pos_iff.1 (Nat.lt_of_lt_of_le hpos hle)
    have hne : (wakeSelected mask ws).count .blocked ≠ ws.count .blocked :=
      fun he => hguard ⟨hmem, he⟩
    exact ⟨hmem, by omega⟩

/-- Threads that slept may have been woken, and nothing else has happened. -/
def Stirs (ws ws' : List Waiter) : Prop :=
  ∀ i : Nat, ws'[i]? = ws[i]? ∨ ws'[i]? = ws[i]?.map Waiter.wake

theorem Stirs.length (h : Stirs ws ws') : ws'.length = ws.length := by
  have hnone : ∀ i : Nat, ws'[i]? = none ↔ ws[i]? = none := by
    intro i
    obtain hi | hi := h i
    · rw [hi]
    · rw [hi, Option.map_eq_none_iff]
  apply Nat.le_antisymm
  · exact List.getElem?_eq_none_iff.1 ((hnone _).2 (List.getElem?_eq_none_iff.2 (Nat.le_refl _)))
  · exact List.getElem?_eq_none_iff.1 ((hnone _).1 (List.getElem?_eq_none_iff.2 (Nat.le_refl _)))

theorem wakeSelected_stirs (mask : List Bool) (ws : List Waiter) :
    Stirs ws (wakeSelected mask ws) := by
  intro i
  induction mask generalizing ws i with
  | nil => cases ws <;> exact .inl rfl
  | cons b mask ih =>
    cases ws with
    | nil => cases b <;> exact .inl rfl
    | cons w ws =>
      cases i with
      | zero =>
        cases b with
        | true => exact .inr rfl
        | false => exact .inl rfl
      | succ i => cases b <;> exact ih ws i

theorem signal_stirs (h : signal mask ws = some ws') : Stirs ws ws' := by
  simp only [signal] at h
  split at h
  · cases h
  · cases h
    exact wakeSelected_stirs mask ws

theorem broadcast_stirs (ws : List Waiter) : Stirs ws (broadcast ws) :=
  fun _ => .inr List.getElem?_map

theorem set_woken_stirs (h : ws[i]? = some .blocked) : Stirs ws (ws.set i .woken) := by
  intro j
  by_cases hj : i = j
  · subst hj
    rw [List.getElem?_set_self (List.getElem?_eq_some_iff.1 h).1, h]
    exact .inr rfl
  · exact .inl (List.getElem?_set_ne hj)

theorem broadcast_blocked (ws : List Waiter) : .blocked ∉ broadcast ws := by
  intro h
  obtain ⟨w, _, hw⟩ := List.mem_map.1 h
  cases w <;> cases hw

/-- Whoever sleeps, there is a way to signal. -/
theorem exists_signal (ws : List Waiter) : ∃ mask ws', signal mask ws = some ws' := by
  have hall : ∀ ws : List Waiter,
      wakeSelected (List.replicate ws.length true) ws = broadcast ws := by
    intro ws
    induction ws with
    | nil => rfl
    | cons w ws ih => exact congrArg (w.wake :: ·) ih
  refine ⟨List.replicate ws.length true, broadcast ws, ?_⟩
  rw [signal, hall, List.count_eq_zero.2 (broadcast_blocked ws)]
  apply if_neg
  rintro ⟨hb, hsame⟩
  exact Nat.ne_of_lt (List.count_pos_iff.2 hb) hsame

theorem wakeSelected_running (mask : List Bool) (k : Nat) :
    wakeSelected mask (List.replicate k .running) = List.replicate k .running := by
  induction mask generalizing k with
  | nil => cases k <;> rfl
  | cons b mask ih =>
    cases k with
    | zero => cases b <;> rfl
    | succ k => cases b <;> exact congrArg (Waiter.running :: ·) (ih k)

theorem wakeSelected_idle (mask : List Bool) (ws : List Waiter) (k : Nat) :
    wakeSelected mask (ws ++ List.replicate k .running) =
      wakeSelected mask ws ++ List.replicate k .running := by
  induction mask generalizing ws with
  | nil => cases ws <;> cases k <;> rfl
  | cons b mask ih =>
    cases ws with
    | nil =>
      have hnil : wakeSelected (b :: mask) [] = [] := by cases b <;> rfl
      rw [hnil, List.nil_append]
      exact wakeSelected_running (b :: mask) k
    | cons w ws => cases b <;> exact congrArg (_ :: ·) (ih ws)

theorem signal_idle (mask : List Bool) (ws : List Waiter) (k : Nat) :
    signal mask (ws ++ List.replicate k .running) =
      (signal mask ws).map (· ++ List.replicate k .running) := by
  have hidle : Waiter.blocked ∉ List.replicate k .running := by
    intro h
    cases List.eq_of_mem_replicate h
  have hmem : .blocked ∈ ws ++ List.replicate k .running ↔ .blocked ∈ ws := by
    rw [List.mem_append, or_iff_left hidle]
  have hcount : ∀ ws : List Waiter,
      (ws ++ List.replicate k Waiter.running).count .blocked = ws.count .blocked := by
    intro ws
    rw [List.count_append, List.count_eq_zero.2 hidle, Nat.add_zero]
  simp only [signal, wakeSelected_idle, hcount, hmem]
  split <;> rfl

theorem broadcast_idle (ws : List Waiter) (k : Nat) :
    broadcast (ws ++ List.replicate k .running) = broadcast ws ++ List.replicate k .running := by
  rw [broadcast, List.map_append, List.map_replicate]
  rfl

end Httpd.ConditionVariable
