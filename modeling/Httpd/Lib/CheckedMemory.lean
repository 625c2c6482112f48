import Mathlib.Data.List.Basic
import Mathlib.Data.List.Infix

namespace Httpd.CheckedMemory
set_option autoImplicit true

/-- What a program must not do with the memory it is given. -/
inductive Fault where
  | read (index : Nat)
  | write (index : Nat)
  | pointer (index : Nat)
  | underflow
  /-- A loop that has gone on for longer than was allowed for. -/
  | endless
  deriving DecidableEq

abbrev Checked := Except Fault

def read (block : List α) (index : Nat) : Checked α :=
  match block[index]? with
  | some x => .ok x
  | none => .error (.read index)

def write (block : List α) (index : Nat) (x : α) : Checked (List α) :=
  if index < block.length then .ok (block.set index x) else .error (.write index)

def pointer (block : List α) (index : Nat) : Checked Nat :=
  if index ≤ block.length then .ok index else .error (.pointer index)

def sub (a b : Nat) : Checked Nat := if b ≤ a then .ok (a - b) else .error .underflow

/-- A number that unsigned arithmetic with results up to `max` must not exceed. -/
def within (max n : Nat) : Checked Nat := do
  let _ ← sub max n
  .ok n

/-- What `realloc` makes of a block: its elements as far as there is room, then fresh ones. -/
def resize (fresh : Nat → α) (block : List α) (size : Nat) : List α :=
  block.take size ++ (List.range' block.length (size - block.length)).map fresh

def span (block : List α) (start stop : Nat) : List α := (block.take stop).drop start

@[simp] theorem ok_bind (x : α) (f : α → Checked β) : (Except.ok x : Checked α) >>= f = f x := rfl

theorem bind_of_ok {m : Checked α} (h : m = .ok x) (f : α → Checked β) : m >>= f = f x := by
  rw [h, ok_bind]

theorem read_ok {block : List α} (h : block[i]? = some x) : read block i = .ok x := by
  rw [read, h]

theorem read_append {rest : List α} (before : List α) (h : rest[k]? = some x) :
    read (before ++ rest) (before.length + k) = .ok x := by
  apply read_ok
  rw [List.getElem?_append_right (Nat.le_add_right _ _), Nat.add_sub_cancel_left, h]

theorem read_next (before : List α) (x : α) (rest : List α) :
    read (before ++ x :: rest) before.length = .ok x := read_append (k := 0) before rfl

theorem read_fault {block : List α} (h : block.length ≤ i) : read block i = .error (.read i) := by
  rw [read, List.getElem?_eq_none h]

theorem write_append (before : List α) (x y : α) (rest : List α) :
    write (before ++ x :: rest) before.length y = .ok (before ++ y :: rest) := by
  have h : before.length < (before ++ x :: rest).length := by
    rw [List.length_append, List.length_cons]
    omega
  rw [write, if_pos h, List.set_append_right _ _ (Nat.le_refl _), Nat.sub_self, List.set_cons_zero]

theorem pointer_ok {block : List α} (h : i ≤ block.length) : pointer block i = .ok i := if_pos h

theorem sub_ok {a b : Nat} (h : b ≤ a) : sub a b = .ok (a - b) := if_pos h

theorem within_ok {max n : Nat} (h : n ≤ max) : within max n = .ok n := by
  rw [within, sub_ok h, ok_bind]

theorem resize_length (fresh : Nat → α) (block : List α) (size : Nat) :
    (resize fresh block size).length = size := by
  rw [resize, List.length_append, List.length_take, List.length_map, List.length_range']
  omega

theorem resize_grown (fresh : Nat → α) {block : List α} {size : Nat} (h : block.length ≤ size) :
    ∃ rest, resize fresh block size = block ++ rest :=
  ⟨_, congrArg (· ++ _) (List.take_of_length_le h)⟩

section Span

variable {block : List α} {start stop : Nat}

theorem span_length (start : Nat) (h : stop ≤ block.length) :
    (span block start stop).length = stop - start := by
  rw [span, List.length_drop, List.length_take, Nat.min_eq_left h]

theorem span_nil (h : stop ≤ start) : span block start stop = [] := by
  apply List.drop_eq_nil_of_le
  rw [List.length_take]
  exact Nat.le_trans (Nat.min_le_left _ _) h

theorem span_cons (h : start < stop) (hs : stop ≤ block.length) :
    ∃ x, read block start = .ok x ∧ span block start stop = x :: span block (start + 1) stop := by
  have hlen : start < (block.take stop).length := by
    rw [List.length_take, Nat.min_eq_left hs]
    exact h
  have hread : block[start]? = some (block.take stop)[start] := by
    rw [List.getElem_take, List.getElem?_eq_getElem]
  exact ⟨_, read_ok hread, List.drop_eq_getElem_cons hlen⟩

theorem span_concat (h : start < stop) (hs : stop ≤ block.length) :
    ∃ x, read block (stop - 1) = .ok x ∧
      span block start stop = span block start (stop - 1) ++ [x] := by
  obtain ⟨k, rfl⟩ := Nat.exists_eq_succ_of_ne_zero (Nat.ne_zero_of_lt h)
  have hlt : k < block.length := hs
  have htake : (block.take k).length = k := by
    rw [List.length_take, Nat.min_eq_left (Nat.le_of_lt hlt)]
  refine ⟨block[k], read_ok (List.getElem?_eq_getElem hlt), ?_⟩
  rw [span, Nat.succ_eq_add_one, List.take_succ_eq_append_getElem hlt, List.drop_append_of_le_length]
  · rfl
  · rw [htake]
    exact Nat.le_of_lt_succ h

theorem span_take (n : Nat) (h : start + n ≤ stop) :
    (span block start stop).take n = span block start (start + n) := by
  rw [span, span, List.take_drop, List.take_take, Nat.min_eq_left h]

theorem span_drop (n : Nat) : (span block start stop).drop n = span block (start + n) stop :=
  List.drop_drop

theorem span_append {middle : Nat} (h : start ≤ middle) (h' : middle ≤ stop) :
    span block start middle ++ span block middle stop = span block start stop := by
  obtain ⟨n, rfl⟩ := Nat.exists_eq_add_of_le h
  rw [← span_take n h', ← span_drop n, List.take_append_drop]

theorem span_whole : span block 0 block.length = block := List.take_length

end Span

section Library

variable [DecidableEq α] {block : List α}

/-- `memchr`: the pointer to the first of `n` elements that is equal to `x`. -/
def memchr (block : List α) (x : α) : Nat → Nat → Checked (Option Nat)
  | 0, _ => .ok none
  | n + 1, p => do
    let y ← read block p
    if y = x then .ok (some p) else memchr block x n (p + 1)

theorem memchr_ok {p n : Nat} (x : α) (h : p + n ≤ block.length) :
    memchr block x n p = .ok (((span block p (p + n)).idxOf? x).map (p + ·)) := by
  induction n generalizing p with
  | zero =>
    rw [Nat.add_zero, span_nil (Nat.le_refl p)]
    rfl
  | succ n ih =>
    obtain ⟨y, hread, hspan⟩ := span_cons (Nat.lt_add_of_pos_right (Nat.succ_pos n)) h
    have hnext : p + 1 + n = p + (n + 1) := by omega
    rw [hspan, List.idxOf?_cons, memchr, hread]
    change (if y = x then _ else _) = _
    by_cases hy : y = x
    · rw [if_pos hy, hy, beq_self_eq_true]
      rfl
    · rw [if_neg hy, beq_false_of_ne hy, ih (hnext ▸ h), hnext]
      cases (span block (p + 1) (p + (n + 1))).idxOf? x with
      | none => rfl
      | some i =>
        simp only [Option.map_some, Bool.false_eq_true, if_false]
        rw [Nat.add_assoc, Nat.add_comm 1 i]

theorem memchr_span {start stop : Nat} (h : start ≤ stop) (hs : stop ≤ block.length) (x : α) :
    memchr block x (stop - start) start =
      .ok (((span block start stop).idxOf? x).map (start + ·)) := by
  have hstop : start + (stop - start) = stop := by omega
  rw [memchr_ok x (by omega), hstop]

theorem idxOf?_span {start stop : Nat} (hs : stop ≤ block.length) {x : α}
    (h : (span block start stop).idxOf? x = some i) : start + i < stop := by
  obtain ⟨hlt, -⟩ := List.idxOf?_eq_some_iff.1 h
  rw [span_length start hs] at hlt
  omega

end Library

/-- `memcpy` of `n` elements of a block behind the first `i` elements of another one. -/
def memcpy (block : List α) : Nat → Nat → Nat → List α → Checked (List α)
  | 0, _, _, dest => .ok dest
  | n + 1, src, i, dest => do
    let x ← read block src
    let dest ← write dest i x
    memcpy block n (src + 1) (i + 1) dest

theorem memcpy_ok {block : List α} {n src : Nat} (hs : src + n ≤ block.length)
    (copied : List α) {dest : List α} (hd : n ≤ dest.length) :
    memcpy block n src copied.length (copied ++ dest) =
      .ok (copied ++ span block src (src + n) ++ dest.drop n) := by
  induction n generalizing src copied dest with
  | zero =>
    rw [Nat.add_zero, span_nil (Nat.le_refl src), List.append_nil]
    rfl
  | succ n ih =>
    obtain ⟨x, hread, hspan⟩ := span_cons (Nat.lt_add_of_pos_right (Nat.succ_pos n)) hs
    obtain ⟨y, dest, rfl⟩ := List.exists_cons_of_ne_nil
      (List.ne_nil_of_length_pos (Nat.lt_of_lt_of_le (Nat.succ_pos n) hd))
    have hnext : src + 1 + n = src + (n + 1) := by omega
    have hrest := ih (hnext ▸ hs) (copied ++ [x]) (Nat.le_of_succ_le_succ hd)
    rw [List.length_append, List.append_assoc, hnext] at hrest
    rw [memcpy, hread, hspan]
    apply (bind_of_ok (write_append copied y x dest) _).trans
    apply hrest.trans
    rw [List.append_assoc copied [x]]
    rfl

/-- A pointer that is moved on as long as it points to an element that passes a test. -/
def advance (test : α → Bool) (block : List α) : Nat → Nat → Checked Nat
  | 0, _ => .error .endless
  | fuel + 1, p => do
    let x ← read block p
    if test x then advance test block fuel (p + 1) else .ok p

theorem advance_ok (test : α → Bool) (hx : test x = false) (before rest after : List α) {fuel : Nat}
    (hf : rest.length < fuel) :
    advance test (before ++ (rest ++ x :: after)) fuel before.length =
      .ok (before ++ rest.takeWhile test).length := by
  induction rest generalizing before fuel with
  | nil =>
    obtain ⟨fuel, rfl⟩ := Nat.exists_eq_succ_of_ne_zero (Nat.ne_zero_of_lt hf)
    rw [List.nil_append, List.takeWhile_nil, List.append_nil, advance, read_next, ok_bind,
      if_neg (Bool.eq_false_iff.1 hx)]
  | cons y rest ih =>
    obtain ⟨fuel, rfl⟩ := Nat.exists_eq_succ_of_ne_zero (Nat.ne_zero_of_lt hf)
    rw [List.cons_append, advance, read_next, ok_bind]
    by_cases hy : test y = true
    · have hrest := ih (before ++ [y]) (Nat.lt_of_succ_lt_succ hf)
      rw [List.append_assoc, List.length_append, List.append_assoc] at hrest
      rw [if_pos hy, List.takeWhile_cons_of_pos hy]
      exact hrest
    · rw [if_neg hy, List.takeWhile_cons_of_neg hy, List.append_nil]

end Httpd.CheckedMemory
