import Mathlib.Order.Basic

namespace Httpd
set_option autoImplicit true

/-- A bounded first-in-first-out queue that can be closed. -/
structure Fifo (α : Type) where
  capacity : Nat
  items : List α
  closed : Bool

namespace Fifo

def empty (capacity : Nat) : Fifo α := ⟨capacity, [], false⟩

inductive Call (α : Type) where
  | push (x : α)
  | pop
  | close
  deriving DecidableEq

inductive Reply (α : Type) where
  | ok
  | full
  | closed
  | item (x : α)
  deriving DecidableEq

/-- A call that has to wait has no step. -/
def serve (f : Fifo α) : Call α → Option (Reply α × Fifo α)
  | .push x =>
    if f.closed then some (.closed, f)
    else if f.items.length = f.capacity then some (.full, f)
    else some (.ok, { f with items := f.items ++ [x] })
  | .pop =>
    match f.items with
    | x :: xs => some (.item x, { f with items := xs })
    | [] => if f.closed then some (.closed, f) else none
  | .close => some (.ok, { f with closed := true })

def Step (f : Fifo α) (e : Call α × Reply α) (f' : Fifo α) : Prop :=
  f.serve e.1 = some (e.2, f')

def Finished (f : Fifo α) : Prop := f.items = [] ∧ f.closed = true

theorem Finished.step {f f' : Fifo α} {e : Call α × Reply α} (h : f.Finished)
    (hs : f.Step e f') : f'.Finished := by
  obtain ⟨hi, hc⟩ := h
  obtain ⟨call, reply⟩ := e
  cases call with
  | push x =>
    simp only [Step, serve, hc, ↓reduceIte, Option.some.injEq, Prod.mk.injEq] at hs
    obtain ⟨_, rfl⟩ := hs
    exact ⟨hi, hc⟩
  | pop =>
    simp only [Step, serve, hi, hc, ↓reduceIte, Option.some.injEq, Prod.mk.injEq] at hs
    obtain ⟨_, rfl⟩ := hs
    exact ⟨hi, hc⟩
  | close =>
    simp only [Step, serve, Option.some.injEq, Prod.mk.injEq] at hs
    obtain ⟨_, rfl⟩ := hs
    exact ⟨hi, rfl⟩

end Fifo

end Httpd
