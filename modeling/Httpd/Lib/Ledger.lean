import Mathlib.Data.List.Perm.Basic
import Mathlib.Data.List.Count
import Mathlib.Data.List.Nodup

namespace Httpd
set_option autoImplicit true

/-- Resources that are acquired, handed from holder to holder and released: `holders` lists the
resource of every holder, `held` what is held, the rest is the history. -/
structure Ledger (holders held acquired released : List α) : Prop where
  nodup : held.Nodup
  holders : holders.Perm held
  history : acquired.Perm (released ++ held)

namespace Ledger

theorem empty : Ledger ([] : List α) [] [] [] := ⟨.nil, .nil, .nil⟩

variable {holders holders' held acquired released : List α}

theorem transfer (h : Ledger holders held acquired released) (hp : holders'.Perm holders) :
    Ledger holders' held acquired released :=
  ⟨h.nodup, hp.trans h.holders, h.history⟩

theorem acquire (h : Ledger holders held acquired released) (hx : x ∉ held)
    (hp : holders'.Perm (x :: holders)) :
    Ledger holders' (x :: held) (acquired ++ [x]) released := by
  constructor
  · exact List.nodup_cons.2 ⟨hx, h.nodup⟩
  · exact hp.trans (h.holders.cons x)
  · have hx : (acquired ++ [x]).Perm (x :: acquired) := List.perm_append_singleton x acquired
    exact (hx.trans (h.history.cons x)).trans List.perm_middle.symm

theorem release [DecidableEq α] (h : Ledger holders held acquired released)
    (hp : holders.Perm (x :: holders')) :
    Ledger holders' (held.erase x) acquired (released ++ [x]) := by
  have hheld : held.Perm (x :: held.erase x) :=
    List.perm_cons_erase (h.holders.mem_iff.1 (hp.mem_iff.2 List.mem_cons_self))
  constructor
  · exact h.nodup.erase x
  · exact (hp.symm.trans (h.holders.trans hheld)).cons_inv
  · rw [List.append_assoc]
    exact h.history.trans (hheld.append_left released)

theorem count_holders [DecidableEq α] (h : Ledger holders held acquired released) (x : α) :
    holders.count x = if x ∈ held then 1 else 0 := by
  rw [h.holders.count_eq x]
  exact h.nodup.count

/-- What is no longer held was released as often as it was acquired. -/
theorem count_acquired [DecidableEq α] (h : Ledger holders held acquired released) (x : α) :
    acquired.count x = released.count x + if x ∈ held then 1 else 0 := by
  rw [h.history.count_eq x, List.count_append]
  exact congrArg _ h.nodup.count

theorem held_length (h : Ledger holders held acquired released) : held.length = holders.length :=
  h.holders.length_eq.symm

end Ledger

end Httpd
