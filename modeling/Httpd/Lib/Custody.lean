import Httpd.Lib.Transition
import Mathlib.Data.List.Count
import Mathlib.Data.List.Perm.Basic

namespace Httpd.Custody
open Transition
set_option autoImplicit true

inductive Event (ρ : Type) where
  | acquired (r : ρ)
  | used (r : ρ)
  | released (r : ρ)
  deriving DecidableEq

variable {ρ : Type} [DecidableEq ρ] {within : ρ → Option ρ}

/-- A resource may be acquired if it is not held and the one it lies in is, it may be used if it is
held, and it may be released if it is held and nothing that lies in it is. -/
def next (within : ρ → Option ρ) (held : List ρ) : Event ρ → Option (List ρ)
  | .acquired r => if r ∉ held ∧ ∀ p ∈ within r, p ∈ held then some (r :: held) else none
  | .used r => if r ∈ held then some held else none
  | .released r => if r ∈ held ∧ ∀ x ∈ held, within x ≠ some r then some (held.erase r) else none

/-- The events are in order and lead from what is held before to what is held after. -/
def Orderly (within : ρ → Option ρ) (held : List ρ) (events : List (Event ρ)) (held' : List ρ) :
    Prop :=
  follow (next within) held events = some held'

theorem Orderly.nil (held : List ρ) : Orderly within held [] held := rfl

theorem Orderly.append (h : Orderly within held events held')
    (h' : Orderly within held' later held'') : Orderly within held (events ++ later) held'' := by
  induction events generalizing held with
  | nil =>
    cases h
    exact h'
  | cons event events ih =>
    obtain ⟨mid, hm, hrest⟩ := Option.bind_eq_some_iff.1 h
    exact Option.bind_eq_some_iff.2 ⟨mid, hm, ih hrest⟩

theorem Orderly.cons (h : next within held event = some mid)
    (h' : Orderly within mid events held') : Orderly within held (event :: events) held' :=
  Option.bind_eq_some_iff.2 ⟨mid, h, h'⟩

theorem Orderly.uses (hr : r ∈ held) (h : ∀ event ∈ events, event = .used r) :
    Orderly within held events held := by
  induction events with
  | nil => exact .nil held
  | cons event events ih =>
    obtain ⟨rfl, hevents⟩ := List.forall_mem_cons.1 h
    exact .cons (if_pos hr) (ih hevents)

theorem Orderly.flatten {passes : List (List (Event ρ))}
    (h : ∀ events ∈ passes, Orderly within held events held) :
    Orderly within held passes.flatten held := by
  induction passes with
  | nil => exact .nil held
  | cons events passes ih =>
    obtain ⟨hevents, hpasses⟩ := List.forall_mem_cons.1 h
    exact hevents.append (ih hpasses)

theorem next_cases (h : next within held event = some held') :
    (∃ r, event = .acquired r ∧ r ∉ held ∧ held' = r :: held) ∨
      (∃ r, event = .used r ∧ r ∈ held ∧ held' = held) ∨
      ∃ r, event = .released r ∧ r ∈ held ∧ held' = held.erase r := by
  cases event with
  | acquired r =>
    simp only [next] at h
    split at h
    · rename_i hok
      exact .inl ⟨r, rfl, hok.1, (Option.some.inj h).symm⟩
    · cases h
  | used r =>
    simp only [next] at h
    split at h
    · rename_i hok
      exact .inr (.inl ⟨r, rfl, hok, (Option.some.inj h).symm⟩)
    · cases h
  | released r =>
    simp only [next] at h
    split at h
    · rename_i hok
      exact .inr (.inr ⟨r, rfl, hok.1, (Option.some.inj h).symm⟩)
    · cases h

/-- Every resource was acquired as often as it was released, and once more if it is held. -/
theorem Orderly.count (h : Orderly within held events held') (r : ρ) :
    events.count (.acquired r) + held.count r = events.count (.released r) + held'.count r := by
  induction events generalizing held with
  | nil =>
    cases h
    rfl
  | cons event events ih =>
    obtain ⟨mid, hm, hrest⟩ := Option.bind_eq_some_iff.1 h
    obtain ⟨x, rfl, hx, rfl⟩ | ⟨x, rfl, hx, rfl⟩ | ⟨x, rfl, hx, rfl⟩ := next_cases hm
    · have hlater := ih hrest
      simp only [List.count_cons, beq_iff_eq, Event.acquired.injEq, reduceCtorEq, if_false]
        at hlater ⊢
      omega
    · have hlater := ih hrest
      simp only [List.count_cons, beq_iff_eq, reduceCtorEq, if_false]
      exact hlater
    · have hlater := ih hrest
      have herase : held.count r = (held.erase x).count r + if x = r then 1 else 0 := by
        have hperm := List.perm_cons_erase hx
        rw [hperm.count_eq, List.count_cons]
        simp only [beq_iff_eq]
      simp only [List.count_cons, beq_iff_eq, Event.released.injEq, reduceCtorEq, if_false]
      omega

theorem Orderly.balanced (h : Orderly within [] events []) (r : ρ) :
    events.count (.acquired r) = events.count (.released r) := h.count r

end Httpd.Custody
