import Mathlib.Data.List.Basic

namespace Framing
set_option autoImplicit true

section

variable (size : κ → List σ → Option Nat)

/-- The message that a stream starts with and what follows it, once all of it is there; what kind
of message it is, is known from `key`. -/
def readFirst (key : κ) (stream : List σ) : Option (List σ × List σ) :=
  match size key stream with
  | none => none
  | some n => if n ≤ stream.length then some (stream.take n, stream.drop n) else none

def readMessages : List κ → List σ → List (List σ) × List σ
  | [], stream => ([], stream)
  | key :: keys, stream =>
    match readFirst size key stream with
    | none => ([], stream)
    | some (message, later) =>
      (message :: (readMessages keys later).1, (readMessages keys later).2)

/-- The size of a message can be told from the message, and from less of it no smaller size. -/
structure Framed (key : κ) (message : List σ) : Prop where
  whole : ∀ later, size key (message ++ later) = some message.length
  cut : ∀ part n, part <+: message → size key part = some n → n = message.length

end

variable {size : κ → List σ → Option Nat} {key : κ} {message : List σ}

theorem Framed.readFirst (h : Framed size key message) (later : List σ) :
    readFirst size key (message ++ later) = some (message, later) := by
  have hle : message.length ≤ (message ++ later).length := by
    rw [List.length_append]
    exact Nat.le_add_right _ _
  simp only [Framing.readFirst, h.whole later, if_pos hle, List.take_left, List.drop_left]

theorem Framed.readFirst_cut {part later : List σ} (h : Framed size key (part ++ later))
    (hne : later ≠ []) : Framing.readFirst size key part = none := by
  unfold Framing.readFirst
  cases hs : size key part with
  | none => rfl
  | some n =>
    have hlater := List.length_pos_iff.2 hne
    have hn := h.cut part n (List.prefix_append part later) hs
    rw [List.length_append] at hn
    exact if_neg (by omega)

theorem Framed.readMessages_cut {part later : List σ} (h : Framed size key (part ++ later))
    (hne : later ≠ []) (keys : List κ) : readMessages size (key :: keys) part = ([], part) := by
  rw [readMessages, h.readFirst_cut hne]

theorem Framed.readMessages_cons (h : Framed size key message) (keys : List κ) (later : List σ) :
    readMessages size (key :: keys) (message ++ later) =
      (message :: (readMessages size keys later).1, (readMessages size keys later).2) := by
  rw [readMessages, h.readFirst later]

end Framing
