import Httpd.DirectoryListing
import Httpd.Lib.CheckedMemory

namespace Httpd
open CheckedMemory
set_option autoImplicit true

structure BuilderMemory where
  data : Option Nat
  bytes : Bytes
  length : Nat
  capacity : Nat
  deriving DecidableEq

def BuilderMemory.empty : BuilderMemory := ⟨none, [], 0, 0⟩

abbrev CheckedAppend := BuilderMemory × Heap → Checked (Bool × BuilderMemory × Heap)

def maxSize (w : Nat) : Nat := 2 ^ w - 1

section Builder

-- `junk` is what the memory held that `realloc` makes a block of.
variable (w : Nat) (junk : Nat → Nat → UInt8)

def growCapacityChecked (required : Nat) : Nat → Nat → Checked Nat
  | 0, _ => .error .endless
  | fuel + 1, newCapacity =>
    if newCapacity < required then
      if newCapacity > maxSize w / 2 then .ok required
      else do
        let doubled ← within (maxSize w) (newCapacity * 2)
        growCapacityChecked required fuel doubled
    else .ok newCapacity

/-- `builder_reserve`, where no size may wrap around. -/
def builderReserveChecked (additional : Nat) : CheckedAppend := fun (builder, heap) => do
  let left ← sub (maxSize w) builder.length
  let left ← sub left 1
  if additional > left then .ok (false, builder, heap)
  else do
    let sum ← within (maxSize w) (builder.length + additional)
    let required ← within (maxSize w) (sum + 1)
    if required ≤ builder.capacity then .ok (true, builder, heap)
    else do
      let newCapacity ← growCapacityChecked w required w
        (if builder.capacity = 0 then 1024 else builder.capacity)
      match heap.realloc builder.data newCapacity with
      | (none, heap) => .ok (false, builder, heap)
      | (some grown, heap) =>
        let bytes := resize (junk grown) builder.bytes newCapacity
        .ok (true, { builder with data := some grown, bytes := bytes, capacity := newCapacity },
          heap)

def strlen (text : Bytes) : Checked Nat := advance (· ≠ 0) text text.length 0

def builderAppendTextChecked (text : Bytes) : CheckedAppend := fun state => do
  let length ← strlen text
  let (reserved, builder, heap) ← builderReserveChecked w junk length state
  if reserved then do
    let bytes ← memcpy text length 0 builder.length builder.bytes
    let newLength ← within (maxSize w) (builder.length + length)
    let bytes ← write bytes newLength 0
    .ok (true, { builder with bytes := bytes, length := newLength }, heap)
  else .ok (false, builder, heap)

def builderAppendCharChecked (ch : UInt8) : CheckedAppend := fun state => do
  let (reserved, builder, heap) ← builderReserveChecked w junk 1 state
  if reserved then do
    let bytes ← write builder.bytes builder.length ch
    let newLength ← within (maxSize w) (builder.length + 1)
    let bytes ← write bytes newLength 0
    .ok (true, { builder with bytes := bytes, length := newLength }, heap)
  else .ok (false, builder, heap)

end Builder

/-- The memory of a builder: what it has of text, a terminator, and the rest of the block; or no
block yet. -/
structure BuilderMemory.Holds (memory : BuilderMemory) (builder : StringBuilder w) : Prop where
  counted : builder.Counted
  data : memory.data = builder.data
  length : memory.length = builder.length.toNat
  capacity : memory.capacity = builder.capacity.toNat
  size : memory.bytes.length = memory.capacity
  bytes : (builder.data = none ∧ builder.text = [] ∧ memory.bytes = []) ∨
    builder.data ≠ none ∧ ∃ rest, memory.bytes = builder.text ++ 0 :: rest

structure BuilderMemory.Reserved (memory : BuilderMemory) (builder : StringBuilder w)
    (additional : Nat) : Prop where
  data : memory.data = builder.data
  allocated : builder.data ≠ none
  length : memory.length = builder.length.toNat
  capacity : memory.capacity = builder.capacity.toNat
  size : memory.bytes.length = memory.capacity
  room : memory.length + additional + 1 ≤ memory.capacity
  bytes : ∃ rest, memory.bytes = builder.text ++ rest

theorem BuilderMemory.holds_empty (hw : 16 ≤ w) :
    BuilderMemory.empty.Holds (StringBuilder.empty w) := by
  have hroom : 0 + 1 < 2 ^ w :=
    Nat.lt_of_lt_of_le (show 0 + 1 < 2 ^ 16 by decide) (Nat.pow_le_pow_right (by decide) hw)
  constructor
  · exact ⟨BitVec.toNat_zero.symm, hroom⟩
  · rfl
  · exact BitVec.toNat_zero.symm
  · exact BitVec.toNat_zero.symm
  · rfl
  · exact .inl ⟨rfl, rfl, rfl⟩

theorem BuilderMemory.Holds.textLength {memory : BuilderMemory} {builder : StringBuilder w}
    (h : memory.Holds builder) : memory.length = builder.text.length := by
  rw [h.length, ← h.counted.length_eq]

theorem BuilderMemory.Holds.terminated {memory : BuilderMemory} {builder : StringBuilder w}
    (h : memory.Holds builder) (hdata : builder.data ≠ none) :
    ∃ rest, memory.bytes = builder.text ++ 0 :: rest := by
  rcases h.bytes with ⟨hnone, -⟩ | ⟨-, hbytes⟩
  · exact absurd hnone hdata
  · exact hbytes

theorem BuilderMemory.Holds.reserved {memory : BuilderMemory} {builder : StringBuilder w}
    (h : memory.Holds builder) {additional : Nat}
    (hroom : memory.length + additional + 1 ≤ memory.capacity) :
    memory.Reserved builder additional := by
  rcases h.bytes with ⟨-, -, hbytes⟩ | ⟨hdata, rest, hbytes⟩
  · have hsize := h.size
    rw [hbytes, List.length_nil] at hsize
    omega
  · exact ⟨h.data, hdata, h.length, h.capacity, h.size, hroom, _, hbytes⟩

theorem BuilderMemory.Holds.grown {memory : BuilderMemory} {builder : StringBuilder w}
    (h : memory.Holds builder) (grown : Nat) (junk : Nat → UInt8) {additional : Nat}
    {newCapacity : BitVec w} (hless : memory.capacity ≤ newCapacity.toNat)
    (hroom : memory.length + additional + 1 ≤ newCapacity.toNat) :
    BuilderMemory.Reserved { memory with
        data := some grown
        bytes := resize junk memory.bytes newCapacity.toNat
        capacity := newCapacity.toNat }
      { builder with data := some grown, capacity := newCapacity } additional := by
  have htext : ∃ rest, memory.bytes = builder.text ++ rest := by
    rcases h.bytes with ⟨-, htext, hbytes⟩ | ⟨-, rest, hbytes⟩
    · exact ⟨[], by rw [htext, hbytes, List.append_nil]⟩
    · exact ⟨_, hbytes⟩
  obtain ⟨rest, hbytes⟩ := htext
  obtain ⟨later, hresize⟩ := resize_grown junk (h.size.trans_le hless)
  constructor
  · rfl
  · exact Option.some_ne_none grown
  · exact h.length
  · rfl
  · exact resize_length junk memory.bytes _
  · exact hroom
  · exact ⟨rest ++ later, by rw [hresize, hbytes, List.append_assoc]⟩

section Reserve

variable {w : Nat} (hw : 16 ≤ w)
include hw

theorem halfSize_toNat : (BitVec.allOnes w / 2).toNat = maxSize w / 2 := by
  have htwo : (2 : BitVec w).toNat = 2 := ofNat_toNat_small hw (by decide)
  rw [BitVec.toNat_udiv, htwo, BitVec.toNat_allOnes, maxSize]

theorem doubled_toNat {newCapacity : BitVec w} (h : ¬ newCapacity > BitVec.allOnes w / 2) :
    (newCapacity * 2).toNat = newCapacity.toNat * 2 ∧ newCapacity.toNat * 2 ≤ maxSize w := by
  have htwo : (2 : BitVec w).toNat = 2 := ofNat_toNat_small hw (by decide)
  have hle : newCapacity.toNat ≤ maxSize w / 2 := by
    rw [← halfSize_toNat hw]
    exact Nat.le_of_not_lt fun hlt => h (BitVec.lt_def.2 hlt)
  have hmax : newCapacity.toNat * 2 ≤ maxSize w := by omega
  have hpos := Nat.two_pow_pos w
  refine ⟨?_, hmax⟩
  rw [BitVec.toNat_mul, htwo, Nat.mod_eq_of_lt]
  rw [maxSize] at hmax
  omega

/-- The doubling loop does not wrap, it ends, and what it ends with is enough. -/
theorem growCapacityChecked_ok (required : BitVec w) {fuel : Nat} {newCapacity : BitVec w}
    (hfuel : 2 ^ w ≤ 2 ^ fuel * newCapacity.toNat) :
    growCapacityChecked w required.toNat fuel newCapacity.toNat =
        .ok (growCapacity required fuel newCapacity).toNat ∧
      required.toNat ≤ (growCapacity required fuel newCapacity).toNat := by
  induction fuel generalizing newCapacity with
  | zero =>
    rw [Nat.pow_zero, Nat.one_mul] at hfuel
    exact absurd newCapacity.isLt (Nat.not_lt.2 hfuel)
  | succ fuel ih =>
    rw [growCapacityChecked, growCapacity]
    by_cases hless : newCapacity < required
    · rw [if_pos hless, if_pos (BitVec.lt_def.1 hless)]
      by_cases hhalf : newCapacity > BitVec.allOnes w / 2
      · have hhalf' : newCapacity.toNat > maxSize w / 2 := by
          rw [← halfSize_toNat hw]
          exact BitVec.lt_def.1 hhalf
        rw [if_pos hhalf, if_pos hhalf']
        exact ⟨rfl, Nat.le_refl _⟩
      · obtain ⟨hdouble, hmax⟩ := doubled_toNat hw hhalf
        have hhalf' : ¬ newCapacity.toNat > maxSize w / 2 := by omega
        have hnext : 2 ^ w ≤ 2 ^ fuel * (newCapacity * 2).toNat := by
          rw [hdouble, ← Nat.mul_assoc, Nat.mul_comm (2 ^ fuel * _), ← Nat.mul_assoc,
            Nat.mul_comm 2, ← Nat.pow_succ]
          exact hfuel
        rw [if_neg hhalf, if_neg hhalf', within_ok hmax, ok_bind, ← hdouble]
        exact ih hnext
    · rw [if_neg hless, if_neg fun h => hless (BitVec.lt_def.2 h)]
      exact ⟨rfl, Nat.le_of_not_lt fun h => hless (BitVec.lt_def.2 h)⟩

theorem start_pos (capacity : BitVec w) : 0 < (if capacity = 0 then 1024 else capacity).toNat := by
  by_cases hzero : capacity = 0
  · have hstart : (1024 : BitVec w).toNat = 1024 := ofNat_toNat_small hw (by decide)
    rw [if_pos hzero, hstart]
    decide
  · rw [if_neg hzero]
    exact Nat.pos_of_ne_zero fun he => hzero (BitVec.eq_of_toNat_eq (he.trans BitVec.toNat_zero.symm))

theorem start_toNat (capacity : BitVec w) :
    (if capacity.toNat = 0 then 1024 else capacity.toNat) =
      (if capacity = 0 then 1024 else capacity).toNat := by
  by_cases hzero : capacity = 0
  · have hstart : (1024 : BitVec w).toNat = 1024 := ofNat_toNat_small hw (by decide)
    rw [if_pos hzero, if_pos (hzero ▸ BitVec.toNat_zero), hstart]
  · rw [if_neg hzero, if_neg]
    exact fun he => hzero (BitVec.eq_of_toNat_eq (he.trans BitVec.toNat_zero.symm))

theorem required_toNat {builder : StringBuilder w} {additional : BitVec w}
    (h : additional.toNat + builder.length.toNat + 1 < 2 ^ w) :
    (builder.length + additional + 1).toNat = builder.length.toNat + additional.toNat + 1 := by
  have hone : (1 : BitVec w).toNat = 1 := ofNat_toNat_small hw (by decide)
  have hsum : (builder.length + additional).toNat = builder.length.toNat + additional.toNat := by
    rw [BitVec.toNat_add, Nat.mod_eq_of_lt (by omega)]
  rw [BitVec.toNat_add, hsum, hone, Nat.mod_eq_of_lt (by omega)]

/-- A reservation does not fault. Either it fails and changes nothing, or there is room afterwards
for what was asked, and the text is as it was. -/
theorem builderReserveChecked_cases (junk : Nat → Nat → UInt8) {memory : BuilderMemory}
    {builder : StringBuilder w} (h : memory.Holds builder) (additional : BitVec w) (heap : Heap) :
    (∃ heap', builderReserve additional (builder, heap) = (false, builder, heap') ∧
      builderReserveChecked w junk additional.toNat (memory, heap) = .ok (false, memory, heap')) ∨
    ∃ builder' memory' heap', builderReserve additional (builder, heap) = (true, builder', heap') ∧
      builderReserveChecked w junk additional.toNat (memory, heap) = .ok (true, memory', heap') ∧
      memory'.Reserved builder' additional.toNat ∧ builder'.text = builder.text ∧
      builder'.length = builder.length := by
  have hcounted := h.counted.room
  rw [h.counted.length_eq] at hcounted
  have hleft := sizeLeft_toNat hcounted
  have hpos := Nat.two_pow_pos w
  have hmax : builder.length.toNat ≤ maxSize w := by
    rw [maxSize]
    omega
  have hone : 1 ≤ maxSize w - builder.length.toNat := by
    rw [maxSize]
    omega
  rw [builderReserveChecked, h.length, sub_ok hmax, ok_bind, sub_ok hone, ok_bind, builderReserve,
    maxSize, ← hleft]
  by_cases hfull : additional > BitVec.allOnes w - builder.length - 1
  · rw [if_pos hfull, if_pos (BitVec.lt_def.1 hfull)]
    exact .inl ⟨heap, rfl, rfl⟩
  have hbound := reserve_bound hcounted hfull
  have hrequired := required_toNat hw hbound
  have hsum : builder.length.toNat + additional.toNat ≤ 2 ^ w - 1 := by omega
  have hsum' : builder.length.toNat + additional.toNat + 1 ≤ 2 ^ w - 1 := by omega
  rw [if_neg hfull, if_neg fun hlt => hfull (BitVec.lt_def.2 hlt), within_ok hsum, ok_bind,
    within_ok hsum', ok_bind, h.capacity, ← hrequired]
  by_cases hfits : builder.length + additional + 1 ≤ builder.capacity
  · have hroom : memory.length + additional.toNat + 1 ≤ memory.capacity := by
      rw [h.length, h.capacity, ← hrequired]
      exact BitVec.le_def.1 hfits
    rw [if_pos hfits, if_pos (BitVec.le_def.1 hfits)]
    exact .inr ⟨builder, memory, heap, rfl, rfl, h.reserved hroom, rfl, rfl⟩
  · obtain ⟨hgrow, henough⟩ := growCapacityChecked_ok hw (builder.length + additional + 1)
      (Nat.le_mul_of_pos_right (2 ^ w) (start_pos hw builder.capacity))
    rw [if_neg hfits, if_neg fun hle => hfits (BitVec.le_def.2 hle), start_toNat hw, hgrow, ok_bind,
      h.data]
    generalize growCapacity (builder.length + additional + 1) w _ = newCapacity at henough ⊢
    cases hrealloc : heap.realloc builder.data newCapacity.toNat with
    | mk block heap' =>
      cases block with
      | none =>
        simp only [hrealloc]
        exact .inl ⟨heap', rfl, rfl⟩
      | some grown =>
        have hless : memory.capacity ≤ newCapacity.toNat := by
          rw [h.capacity]
          exact Nat.le_trans (Nat.le_of_not_le fun hle => hfits (BitVec.le_def.2 hle)) henough
        have hroom : memory.length + additional.toNat + 1 ≤ newCapacity.toNat := by
          rw [h.length, ← hrequired]
          exact henough
        have hreserved := h.grown grown (junk grown) hless hroom
        rw [h.length] at hreserved
        simp only [hrealloc]
        exact .inr ⟨_, _, heap', rfl, rfl, hreserved, rfl, rfl⟩

end Reserve

theorem BuilderMemory.Reserved.within {memory : BuilderMemory} {builder : StringBuilder w}
    (h : memory.Reserved builder additional) : memory.length + additional ≤ maxSize w := by
  have hroom := h.room
  have hlt := builder.capacity.isLt
  rw [h.capacity] at hroom
  rw [maxSize]
  omega

section Store

variable {memory : BuilderMemory} {builder : StringBuilder w} {piece : Bytes}

theorem BuilderMemory.Reserved.split (h : memory.Reserved builder piece.length)
    (hcount : builder.text.length = builder.length.toNat) :
    ∃ front x tail, front.length = piece.length ∧
      memory.bytes = builder.text ++ (front ++ x :: tail) := by
  obtain ⟨rest, hbytes⟩ := h.bytes
  have hroom := h.room
  rw [← h.size, hbytes, List.length_append, h.length, ← hcount] at hroom
  have hlt : piece.length < rest.length := by omega
  refine ⟨rest.take piece.length, rest[piece.length], rest.drop (piece.length + 1), ?_, ?_⟩
  · exact List.length_take_of_le (Nat.le_of_lt hlt)
  · rw [← List.drop_eq_getElem_cons hlt, List.take_append_drop, hbytes]

theorem BuilderMemory.Reserved.stored (h : memory.Reserved builder piece.length)
    (hcount : builder.text.length = builder.length.toNat) {front tail : Bytes}
    (hfront : front.length = piece.length)
    (hbytes : memory.bytes = builder.text ++ (front ++ x :: tail))
    {length : BitVec w} (hlength : length.toNat = piece.length) :
    BuilderMemory.Holds { memory with
        bytes := builder.text ++ (piece ++ 0 :: tail), length := memory.length + piece.length }
      { builder with text := builder.text ++ piece, length := builder.length + length } := by
  have hroom := h.room
  have hlt := builder.capacity.isLt
  rw [h.length, h.capacity] at hroom
  have hsum : (builder.length + length).toNat = builder.length.toNat + piece.length := by
    rw [BitVec.toNat_add, hlength, Nat.mod_eq_of_lt (by omega)]
  constructor
  · constructor
    · rw [List.length_append, hcount, hsum]
    · rw [List.length_append, hcount]
      omega
  · exact h.data
  · rw [h.length, hsum]
  · exact h.capacity
  · have hsize := h.size
    rw [hbytes] at hsize
    simp only [List.length_append, List.length_cons, hfront] at hsize ⊢
    exact hsize
  · exact .inr ⟨h.allocated, tail, (List.append_assoc _ _ _).symm⟩

end Store

/-- An append that stores a piece, in memory as on the builder, or fails and changes nothing. -/
def CheckedAppend.Stores (checked : CheckedAppend) (append : Append w) (piece : Bytes) : Prop :=
  ∀ memory builder heap, memory.Holds builder →
    (∃ heap', append (builder, heap) = (false, builder, heap') ∧
      checked (memory, heap) = .ok (false, memory, heap')) ∨
    ∃ builder' memory' heap', append (builder, heap) = (true, builder', heap') ∧
      checked (memory, heap) = .ok (true, memory', heap') ∧ memory'.Holds builder' ∧
      builder'.data ≠ none ∧ builder'.text = builder.text ++ piece

theorem strlen_ok {text : Bytes} (h : 0 ∉ text) : strlen (text ++ [0]) = .ok text.length := by
  have hlen : text.length < (text ++ [0]).length := by
    rw [List.length_append]
    exact Nat.lt_succ_self _
  have hwhole : text.takeWhile (· ≠ 0) = text := by
    apply List.takeWhile_eq_self_iff.2
    intro ch hch
    exact decide_eq_true fun he : ch = 0 => h (he ▸ hch)
  have hstop := @advance_ok _ 0 (· ≠ 0) (by decide) [] text [] _ hlen
  rw [List.nil_append, List.nil_append, hwhole] at hstop
  exact hstop

theorem memcpy_string {front : Bytes} (before text : Bytes) (x : UInt8) (tail : Bytes)
    (h : front.length = text.length) :
    memcpy (text ++ [0]) text.length 0 before.length (before ++ (front ++ x :: tail)) =
      .ok (before ++ (text ++ x :: tail)) := by
  have hsource : 0 + text.length ≤ (text ++ [0]).length := by
    rw [Nat.zero_add, List.length_append]
    exact Nat.le_add_right _ _
  have hdest : text.length ≤ (front ++ x :: tail).length := by
    rw [← h, List.length_append]
    exact Nat.le_add_right _ _
  have hspan : span (text ++ [0]) 0 (0 + text.length) = text := by
    rw [Nat.zero_add, span, List.drop_zero, List.take_left]
  rw [memcpy_ok hsource before hdest, hspan, ← h, List.drop_left, List.append_assoc]

theorem write_string (before text : Bytes) (x y : UInt8) (tail : Bytes) :
    write (before ++ (text ++ x :: tail)) (before.length + text.length) y =
      .ok (before ++ (text ++ y :: tail)) := by
  have hwrite := write_append (before ++ text) x y tail
  rwa [List.length_append, List.append_assoc, List.append_assoc] at hwrite

section Append

variable {w : Nat} (hw : 16 ≤ w) (junk : Nat → Nat → UInt8)
include hw

theorem builderAppendTextChecked_stores {text : Bytes} (h₀ : 0 ∉ text)
    (hfits : text.length < 2 ^ w) :
    CheckedAppend.Stores (builderAppendTextChecked w junk (text ++ [0]))
      (builderAppendText text : Append w) text := by
  intro memory builder heap h
  have hlength : (BitVec.ofNat w text.length).toNat = text.length := by
    rw [BitVec.toNat_ofNat, Nat.mod_eq_of_lt hfits]
  have hcases := builderReserveChecked_cases hw junk h (BitVec.ofNat w text.length) heap
  rw [hlength] at hcases
  rw [builderAppendTextChecked, builderAppendText, strlen_ok h₀, ok_bind]
  rcases hcases with ⟨heap', hreserve, hchecked⟩ |
    ⟨builder', memory', heap', hreserve, hchecked, hreserved, htext, hlen⟩
  · rw [hchecked]
    simp only [hreserve]
    exact .inl ⟨heap', rfl, rfl⟩
  · have hcount : builder'.text.length = builder'.length.toNat := by
      rw [htext, hlen]
      exact h.counted.length_eq
    have hindex : memory'.length = builder'.text.length := hreserved.length.trans hcount.symm
    obtain ⟨front, x, tail, hfront, hbytes⟩ := hreserved.split hcount
    have hmax := hreserved.within
    have hstored := hreserved.stored hcount hfront hbytes hlength
    rw [hchecked]
    rw [hindex] at hmax
    simp only [hreserve, ok_bind, if_true, hindex, hbytes, memcpy_string _ _ _ _ hfront,
      within_ok hmax, write_string] at hstored ⊢
    exact .inr ⟨_, _, heap', rfl, rfl, hstored, hreserved.allocated, congrArg (· ++ text) htext⟩

theorem builderAppendCharChecked_stores (ch : UInt8) :
    CheckedAppend.Stores (builderAppendCharChecked w junk ch) (builderAppendChar ch : Append w)
      [ch] := by
  intro memory builder heap h
  have hlength : (1 : BitVec w).toNat = 1 := ofNat_toNat_small hw (by decide)
  have hcases := builderReserveChecked_cases hw junk h 1 heap
  rw [hlength] at hcases
  rw [builderAppendCharChecked, builderAppendChar]
  rcases hcases with ⟨heap', hreserve, hchecked⟩ |
    ⟨builder', memory', heap', hreserve, hchecked, hreserved, htext, hlen⟩
  · rw [hchecked]
    simp only [hreserve]
    exact .inl ⟨heap', rfl, rfl⟩
  · have hcount : builder'.text.length = builder'.length.toNat := by
      rw [htext, hlen]
      exact h.counted.length_eq
    have hindex : memory'.length = builder'.text.length := hreserved.length.trans hcount.symm
    obtain ⟨front, x, tail, hfront, hbytes⟩ :=
      BuilderMemory.Reserved.split (show memory'.Reserved builder' [ch].length from hreserved) hcount
    obtain ⟨y, rfl⟩ := List.length_eq_one_iff.1 hfront
    have hmax := hreserved.within
    have hstored := BuilderMemory.Reserved.stored hreserved hcount hfront hbytes hlength
    have hwrite := write_string builder'.text [ch] x 0 tail
    rw [hchecked]
    rw [hindex] at hmax
    simp only [hreserve, ok_bind, if_true, hindex, hbytes, List.cons_append, List.nil_append,
      write_append, within_ok hmax, List.length_singleton] at hstored hwrite ⊢
    rw [hwrite]
    exact .inr ⟨_, _, heap', rfl, rfl, hstored, hreserved.allocated, congrArg (· ++ [ch]) htext⟩

end Append

inductive BuilderCall (w : Nat) where
  | text (string : Bytes) (no_nul : 0 ∉ string) (fits : string.length < 2 ^ w)
  | char (ch : UInt8)

namespace BuilderCall

def piece : BuilderCall w → Bytes
  | .text string _ _ => string
  | .char ch => [ch]

def append : BuilderCall w → Append w
  | .text string _ _ => builderAppendText string
  | .char ch => builderAppendChar ch

def perform (junk : Nat → Nat → UInt8) : BuilderCall w → CheckedAppend
  | .text string _ _ => builderAppendTextChecked w junk (string ++ [0])
  | .char ch => builderAppendCharChecked w junk ch

end BuilderCall

def performAll (junk : Nat → Nat → UInt8) :
    List (BuilderCall w) → BuilderMemory × Heap → Checked (List Bool × BuilderMemory × Heap)
  | [], state => .ok ([], state)
  | call :: calls, state => do
    let (ok, state) ← call.perform junk state
    let (oks, state) ← performAll junk calls state
    .ok (ok :: oks, state)

theorem performAll_cons {call : BuilderCall w} (hcall : call.perform junk state = .ok (ok, state'))
    (hrun : performAll junk calls state' = .ok (oks, state'')) :
    performAll junk (call :: calls) state = .ok (ok :: oks, state'') := by
  rw [performAll, hcall, ok_bind]
  exact bind_of_ok hrun _

def storedText (calls : List (BuilderCall w)) (oks : List Bool) : Bytes :=
  (calls.zip oks).flatMap fun (call, ok) => if ok then call.piece else []

section Run

variable {w : Nat} (hw : 16 ≤ w) (junk : Nat → Nat → UInt8)
include hw

theorem BuilderCall.perform_stores (call : BuilderCall w) :
    CheckedAppend.Stores (call.perform junk) call.append call.piece := by
  cases call with
  | text string no_nul fits => exact builderAppendTextChecked_stores hw junk no_nul fits
  | char ch => exact builderAppendCharChecked_stores hw junk ch

theorem performAll_holds (calls : List (BuilderCall w)) {memory : BuilderMemory}
    {builder : StringBuilder w} (h : memory.Holds builder) (heap : Heap) :
    ∃ oks memory' heap', performAll junk calls (memory, heap) = .ok (oks, memory', heap') ∧
      oks.length = calls.length ∧ ∃ builder' : StringBuilder w, memory'.Holds builder' ∧
      builder'.text = builder.text ++ storedText calls oks ∧
      (builder.data ≠ none ∨ true ∈ oks → builder'.data ≠ none) := by
  induction calls generalizing memory builder heap with
  | nil =>
    refine ⟨[], memory, heap, rfl, rfl, builder, h, (List.append_nil _).symm, ?_⟩
    rintro (hdata | hmem)
    · exact hdata
    · exact absurd hmem List.not_mem_nil
  | cons call calls ih =>
    rcases call.perform_stores hw junk memory builder heap h with ⟨heap₁, -, hcall⟩ |
      ⟨builder₁, memory₁, heap₁, -, hcall, h₁, hdata₁, htext₁⟩
    · obtain ⟨oks, memory', heap', hrun, hlen, builder', h', htext, hdata⟩ := ih h heap₁
      refine ⟨false :: oks, memory', heap', ?_, congrArg (· + 1) hlen, builder', h', htext, ?_⟩
      · exact performAll_cons hcall hrun
      · rintro (hd | hmem)
        · exact hdata (.inl hd)
        · exact hdata (.inr ((List.mem_cons.1 hmem).resolve_left (by decide)))
    · obtain ⟨oks, memory', heap', hrun, hlen, builder', h', htext, hdata⟩ := ih h₁ heap₁
      refine ⟨true :: oks, memory', heap', ?_, congrArg (· + 1) hlen, builder', h', ?_, ?_⟩
      · exact performAll_cons hcall hrun
      · rw [htext, htext₁, List.append_assoc]
        rfl
      · exact fun _ => hdata (.inl hdata₁)

/-- After any calls, of which any may have failed, the builder holds the texts of those that
succeeded; the next call stores its text or changes nothing; and a reservation, of whatever size,
computes no size that wraps around and makes the room that it was asked for. -/
theorem builderCalls_exact (heap : Heap) (calls : List (BuilderCall w)) :
    ∃ oks memory heap', performAll junk calls (BuilderMemory.empty, heap) =
        .ok (oks, memory, heap') ∧ oks.length = calls.length ∧
      (true ∈ oks → memory.data ≠ none ∧
        (∃ rest, memory.bytes = storedText calls oks ++ 0 :: rest) ∧
        memory.length = (storedText calls oks).length ∧
        memory.bytes.length = memory.capacity ∧ memory.length < memory.capacity) ∧
      (∀ call : BuilderCall w, ∃ ok memory' heap'',
        call.perform junk (memory, heap') = .ok (ok, memory', heap'') ∧
          (ok = false → memory' = memory)) ∧
      ∀ additional ≤ maxSize w, ∃ ok memory' heap'',
        builderReserveChecked w junk additional (memory, heap') = .ok (ok, memory', heap'') ∧
          (ok = true → memory'.length = memory.length ∧
            memory.length + additional + 1 ≤ memory'.capacity) ∧
          (ok = false → memory' = memory) := by
  obtain ⟨oks, memory, heap', hrun, hlen, builder, h, htext, hdata⟩ :=
    performAll_holds hw junk calls (BuilderMemory.holds_empty hw) heap
  have hstored : builder.text = storedText calls oks := htext
  refine ⟨oks, memory, heap', hrun, hlen, ?_, ?_, ?_⟩
  · intro hmem
    have hsome := hdata (.inr hmem)
    obtain ⟨rest, hbytes⟩ := h.terminated hsome
    have hlength := h.textLength
    rw [hstored] at hbytes hlength
    have hroom : memory.length < memory.bytes.length := by
      rw [hbytes, List.length_append, List.length_cons, hlength]
      omega
    exact ⟨h.data ▸ hsome, ⟨rest, hbytes⟩, hlength, h.size, h.size ▸ hroom⟩
  · intro call
    rcases call.perform_stores hw junk memory builder heap' h with ⟨heap'', -, hcall⟩ |
      ⟨_, memory', heap'', -, hcall, -⟩
    · exact ⟨false, memory, heap'', hcall, fun _ => rfl⟩
    · exact ⟨true, memory', heap'', hcall, fun he => absurd he (by decide)⟩
  · intro additional hle
    have hadditional : (BitVec.ofNat w additional).toNat = additional := by
      have hpos := Nat.two_pow_pos w
      rw [maxSize] at hle
      rw [BitVec.toNat_ofNat, Nat.mod_eq_of_lt (by omega)]
    have hcases := builderReserveChecked_cases hw junk h (BitVec.ofNat w additional) heap'
    rw [hadditional] at hcases
    rcases hcases with ⟨heap'', -, hcall⟩ | ⟨builder', memory', heap'', -, hcall, hreserved, -, hl⟩
    · exact ⟨false, memory, heap'', hcall, fun he => absurd he (by decide), fun _ => rfl⟩
    · have hlength : memory'.length = memory.length := by
        rw [hreserved.length, hl, h.length]
      refine ⟨true, memory', heap'', hcall, ?_, fun he => absurd he (by decide)⟩
      intro _
      exact ⟨hlength, hlength ▸ hreserved.room⟩

end Run

/-- Two appends, for the first of which there is no memory. -/
def twoCalls : List (BuilderCall 16) := [.char slash, .text (ascii "ul") (by decide) (by decide)]

theorem builderCalls_exact_two :
    ∃ memory heap, performAll (fun _ _ => 0) twoCalls
        (BuilderMemory.empty, ⟨[false, true], 0, []⟩) = .ok ([false, true], memory, heap) ∧
      memory.length = 2 := by
  obtain ⟨oks, memory, heap, hrun, -, hstored, -⟩ := builderCalls_exact (w := 16) (by decide)
    (fun _ _ => 0) ⟨[false, true], 0, []⟩ twoCalls
  have hoks : (performAll (fun _ _ => 0) twoCalls
      (BuilderMemory.empty, ⟨[false, true], 0, []⟩)).map Prod.fst = .ok [false, true] := by
    decide +kernel
  rw [hrun] at hoks
  cases hoks
  exact ⟨memory, heap, hrun, (hstored (by decide)).2.2.1⟩

end Httpd
