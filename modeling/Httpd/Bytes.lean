import Mathlib.Data.List.Basic
import Mathlib.Data.List.TakeWhile
import Mathlib.Data.Nat.Digits.Lemmas

namespace Httpd
set_option autoImplicit true

abbrev Bytes := List UInt8

def ascii (s : String) : Bytes := s.toList.map fun c => UInt8.ofNat c.toNat

def cr : UInt8 := 13
def lf : UInt8 := 10
def crlf : Bytes := [cr, lf]

def toLower (c : UInt8) : UInt8 := if 65 ≤ c ∧ c ≤ 90 then c + 32 else c

def isDigit (c : UInt8) : Bool := 48 ≤ c ∧ c ≤ 57

/-- What `%zu` and `%d` print. -/
def decimal (n : Nat) : Bytes :=
  if n = 0 then [48] else (Nat.digits 10 n).reverse.map fun d => UInt8.ofNat (48 + d)

theorem decimal_length {n k : Nat} (hk : 0 < k) (hn : n < 10 ^ k) : (decimal n).length ≤ k := by
  unfold decimal
  by_cases h₀ : n = 0
  · rw [if_pos h₀]
    exact hk
  · rw [if_neg h₀, List.length_map, List.length_reverse]
    exact (Nat.digits_length_le_iff (by omega) n).2 hn

theorem decimal_digits {n : Nat} {c : UInt8} (hc : c ∈ decimal n) : 48 ≤ c ∧ c ≤ 57 := by
  unfold decimal at hc
  by_cases h₀ : n = 0
  · rw [if_pos h₀, List.mem_singleton] at hc
    subst c
    decide
  · rw [if_neg h₀] at hc
    obtain ⟨d, hd, rfl⟩ := List.mem_map.1 hc
    have hlt : d < 10 := Nat.digits_lt_base (by omega) (List.mem_reverse.1 hd)
    have hall : ∀ d < 10, (48 : UInt8) ≤ UInt8.ofNat (48 + d) ∧ UInt8.ofNat (48 + d) ≤ 57 := by
      decide
    exact hall d hlt

def cstr (memory : Bytes) : Bytes := memory.takeWhile (· != 0)

theorem cstr_eq_of_notMem {s : Bytes} (h : 0 ∉ s) : cstr s = s := by
  rw [cstr, List.takeWhile_eq_self_iff]
  intro c hc
  exact bne_iff_ne.2 fun he => h (he ▸ hc)

theorem zero_notMem_cstr (s : Bytes) : 0 ∉ cstr s := by
  intro h
  have hall := List.all_takeWhile (p := (· != 0)) (l := s)
  exact absurd (List.all_eq_true.1 hall 0 h) (by decide)

/-- A `char` array of the given size that holds a terminated string. -/
structure CharArray (size : Nat) where
  bytes : Bytes
  length_eq : bytes.length = size
  terminated : 0 ∈ bytes
  deriving DecidableEq

namespace CharArray

def zero (size : Nat) (h : 0 < size) : CharArray size where
  bytes := List.replicate size 0
  length_eq := List.length_replicate
  terminated := List.mem_replicate.2 ⟨Nat.ne_of_gt h, rfl⟩

def str (a : CharArray size) : Bytes := cstr a.bytes

theorem pos (a : CharArray size) : 0 < size := by
  rw [← a.length_eq]
  exact List.length_pos_of_mem a.terminated

/-- `copy_bounded`: bytes behind the new terminator keep their old values. -/
def copyBounded (dest : CharArray size) (src : Bytes) : CharArray size where
  bytes := src.take (size - 1) ++ 0 :: dest.bytes.drop (min src.length (size - 1) + 1)
  length_eq := by
    have := dest.pos
    simp only [List.length_append, List.length_take, List.length_cons, List.length_drop,
      dest.length_eq]
    omega
  terminated := List.mem_append_right _ List.mem_cons_self

theorem str_copyBounded (dest : CharArray size) (src : Bytes) :
    (dest.copyBounded src).str = cstr (src.take (size - 1) ++ [0]) := by
  change (src.take (size - 1) ++ 0 :: _).takeWhile _ = _
  unfold cstr
  induction src.take (size - 1) with
  | nil => rfl
  | cons c s ih => simp only [List.cons_append, List.takeWhile_cons, ih]

theorem str_length (a : CharArray size) : a.str.length < size := by
  have hle : a.str.length ≤ a.bytes.length := (List.takeWhile_prefix _).length_le
  have hne : a.str.length ≠ a.bytes.length := by
    intro he
    have hs : a.str = a.bytes := (List.takeWhile_prefix _).eq_of_length he
    exact zero_notMem_cstr a.bytes (show 0 ∈ a.str by rw [hs]; exact a.terminated)
  have := a.length_eq
  omega

theorem zero_notMem_str (a : CharArray size) : 0 ∉ a.str := zero_notMem_cstr a.bytes

end CharArray

def intMax : Nat := 2147483647

/-- The value `snprintf` returns for this text, and what it leaves before the terminator. -/
def snprintf (size : Nat) (text : Bytes) : Int × Bytes :=
  (if text.length ≤ intMax then text.length else -1, text.take (size - 1))

theorem snprintf_toNat {size : Nat} {text : Bytes} (h₀ : 0 ≤ (snprintf size text).1) :
    (snprintf size text).1.toNat = text.length := by
  unfold snprintf at h₀ ⊢
  by_cases hl : text.length ≤ intMax
  · simp only [if_pos hl, Int.toNat_natCast]
  · simp only [if_neg hl] at h₀
    omega

theorem snprintf_fits {size : Nat} {text : Bytes}
    (h₀ : 0 ≤ (snprintf size text).1) (h : (snprintf size text).1 < size) :
    (snprintf size text).2 = text ∧ text.length < size := by
  unfold snprintf at h₀ h ⊢
  by_cases hl : text.length ≤ intMax
  · simp only [hl, ↓reduceIte] at h
    refine ⟨List.take_of_length_le ?_, ?_⟩ <;> omega
  · simp only [hl, ↓reduceIte] at h₀
    omega

end Httpd
