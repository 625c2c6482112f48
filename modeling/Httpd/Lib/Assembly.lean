import Mathlib.Data.List.Basic

namespace Assembly
set_option autoImplicit true

/-- Elements that follow each other in a sequence, and the position of the first of them. -/
structure Piece (α : Type) where
  start : Nat
  items : List α
  deriving DecidableEq

namespace Piece

def item (p : Piece α) (i : Nat) : Option α :=
  if p.start ≤ i then p.items[i - p.start]? else none

def Covers (p : Piece α) (i : Nat) : Prop := p.start ≤ i ∧ i < p.start + p.items.length

def Of (p : Piece α) (whole : List α) : Prop := p.items <+: whole.drop p.start

variable {p : Piece α} {whole : List α}

theorem item_none (h : ¬ p.Covers i) : p.item i = none := by
  unfold item
  split
  · rename_i hle
    apply List.getElem?_eq_none
    have hlt : ¬ i < p.start + p.items.length := fun hlt => h ⟨hle, hlt⟩
    omega
  · rfl

theorem Of.item (h : p.Of whole) (hc : p.Covers i) : p.item i = whole[i]? := by
  obtain ⟨later, hlater⟩ := h
  have hlt : i - p.start < p.items.length := by
    obtain ⟨hle, hbound⟩ := hc
    omega
  have hget : (p.items ++ later)[i - p.start]? = p.items[i - p.start]? :=
    List.getElem?_append_left hlt
  rw [Piece.item, if_pos hc.1, ← hget, hlater, List.getElem?_drop, Nat.add_sub_cancel' hc.1]

theorem Of.bound (h : p.Of whole) (hc : p.Covers i) : i < whole.length := by
  have hle := h.length_le
  rw [List.length_drop] at hle
  obtain ⟨_, hlt⟩ := hc
  omega

end Piece

def itemAt (pieces : List (Piece α)) (i : Nat) : Option α := pieces.findSome? fun p => p.item i

/-- The first `n` elements of a sequence, put together from pieces of it. -/
def assemble (pieces : List (Piece α)) : Nat → Option (List α)
  | 0 => some []
  | n + 1 => (assemble pieces n).bind fun items => (itemAt pieces n).map fun a => items ++ [a]

variable {pieces : List (Piece α)} {whole : List α}

theorem itemAt_some (h : ∀ p ∈ pieces, p.Of whole) (hc : ∃ p ∈ pieces, p.Covers i) :
    itemAt pieces i = whole[i]? := by
  induction pieces with
  | nil =>
    obtain ⟨_, hp, _⟩ := hc
    cases hp
  | cons p pieces ih =>
    obtain ⟨hp, hpieces⟩ := List.forall_mem_cons.1 h
    rw [itemAt, List.findSome?_cons]
    by_cases hcovers : p.Covers i
    · rw [hp.item hcovers, List.getElem?_eq_getElem (hp.bound hcovers)]
    · rw [Piece.item_none hcovers]
      apply ih hpieces
      obtain ⟨q, hq, hcq⟩ := hc
      cases List.mem_cons.1 hq with
      | inl he => exact absurd (he ▸ hcq) hcovers
      | inr hq => exact ⟨q, hq, hcq⟩

theorem itemAt_none (h : ¬ ∃ p ∈ pieces, p.Covers i) : itemAt pieces i = none := by
  apply List.findSome?_eq_none_iff.2
  intro p hp
  apply Piece.item_none
  exact fun hc => h ⟨p, hp, hc⟩

/-- Pieces of a sequence, in any order and overlapping or not, make it up as far as they cover it
without a gap. -/
theorem assemble_eq_some (h : ∀ p ∈ pieces, p.Of whole) (hn : n ≤ whole.length) :
    assemble pieces n = some items ↔
      items = whole.take n ∧ ∀ i < n, ∃ p ∈ pieces, p.Covers i := by
  induction n generalizing items with
  | zero =>
    rw [List.take_zero]
    constructor
    · intro he
      cases he
      exact ⟨rfl, fun i hi => absurd hi (Nat.not_lt_zero i)⟩
    · intro he
      rw [he.1]
      rfl
  | succ n ih =>
    have htake : whole.take (n + 1) = whole.take n ++ [whole[n]] :=
      (List.take_append_getElem hn).symm
    have hitem : whole[n]? = some whole[n] := List.getElem?_eq_getElem hn
    rw [assemble, Option.bind_eq_some_iff, htake]
    constructor
    · intro he
      obtain ⟨before, hbefore, hlast⟩ := he
      obtain ⟨rfl, hcovered⟩ := (ih (Nat.le_of_succ_le hn)).1 hbefore
      have hc : ∃ p ∈ pieces, p.Covers n := by
        by_contra hno
        rw [itemAt_none hno] at hlast
        cases hlast
      rw [itemAt_some h hc, hitem] at hlast
      cases hlast
      refine ⟨rfl, fun i hi => ?_⟩
      rcases Nat.lt_succ_iff_lt_or_eq.1 hi with hi | rfl
      · exact hcovered i hi
      · exact hc
    · intro he
      obtain ⟨rfl, hcovered⟩ := he
      have hbefore := (ih (Nat.le_of_succ_le hn)).2
        ⟨rfl, fun i hi => hcovered i (Nat.lt_succ_of_lt hi)⟩
      have hlast := itemAt_some h (hcovered n (Nat.lt_succ_self n))
      exact ⟨_, hbefore, by rw [hlast, hitem]; rfl⟩

end Assembly
