import Mathlib.Order.Basic

namespace Httpd.Mutex
set_option autoImplicit true

/-- The recorded owner of a mutex is the one thread that stands between its lock and unlock. -/
def Exclusive (owner : Option ι) (holds : ι → Bool) : Prop :=
  ∀ i, owner = some i ↔ holds i = true

/-- How a step of thread `i` changes the owner, and with it whether the thread holds the mutex. -/
inductive Handover (i : ι) (owner : Option ι) (before : Bool) : Option ι → Bool → Prop where
  | keep : Handover i owner before owner before
  | acquire : owner = none → Handover i owner before (some i) true
  | release : before = true → Handover i owner before none false

theorem exclusive_none {holds : ι → Bool} (h : ∀ i, holds i = false) :
    Exclusive (none : Option ι) holds := by
  intro i
  rw [h i]
  exact ⟨nofun, nofun⟩

theorem Exclusive.handover {holds holds' : ι → Bool} (h : Exclusive owner holds)
    (hm : Handover i owner (holds i) owner' after) (hi : holds' i = after)
    (ho : ∀ j, j ≠ i → holds' j = holds j) : Exclusive owner' holds' := by
  intro j
  by_cases hj : j = i
  · rw [hj, hi]
    cases hm with
    | keep => exact h i
    | acquire _ => exact ⟨fun _ => rfl, fun _ => rfl⟩
    | release _ => exact ⟨nofun, nofun⟩
  · rw [ho j hj]
    cases hm with
    | keep => exact h j
    | acquire hnone =>
      rw [← h j, hnone]
      exact ⟨fun he => absurd (Option.some.inj he).symm hj, nofun⟩
    | release hbefore =>
      rw [← h j, (h i).2 hbefore]
      exact ⟨nofun, fun he => absurd (Option.some.inj he).symm hj⟩

end Httpd.Mutex
