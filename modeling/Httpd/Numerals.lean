import Httpd.HttpParser

namespace Httpd
set_option autoImplicit true

def appendDigit (n : Nat) (c : UInt8) : Nat := 10 * n + (c.toNat - 48)

/-- The number that digits stand for, read without a bound. -/
def numeralValue (digits : Bytes) : Nat := digits.foldl appendDigit 0

theorem appendDigit_digit (n : Nat) {d : Nat} (h : d < 10) :
    appendDigit n (UInt8.ofNat (48 + d)) = d + 10 * n := by
  have hlt : 48 + d < 256 := Nat.lt_trans (Nat.add_lt_add_left h 48) (by decide)
  have hd : (UInt8.ofNat (48 + d)).toNat = 48 + d := UInt8.toNat_ofNat_of_lt' hlt
  rw [appendDigit, hd]
  omega

theorem numeralValue_decimal (n : Nat) : numeralValue (decimal n) = n := by
  unfold decimal
  by_cases h₀ : n = 0
  · rw [if_pos h₀, h₀]
    rfl
  · rw [if_neg h₀, numeralValue, List.foldl_map, List.foldl_reverse]
    have hlt : ∀ d ∈ Nat.digits 10 n, d < 10 := fun d hd => Nat.digits_lt_base (by decide) hd
    have hn : Nat.ofDigits 10 (Nat.digits 10 n) = n := Nat.ofDigits_digits 10 n
    rw [Nat.ofDigits_eq_foldr] at hn
    refine Eq.trans ?_ hn
    clear hn
    generalize Nat.digits 10 n = ds at hlt
    induction ds with
    | nil => rfl
    | cons d ds ih =>
      obtain ⟨hd, hds⟩ := List.forall_mem_cons.1 hlt
      rw [List.foldr_cons, List.foldr_cons, ih hds, appendDigit_digit _ hd]
      rfl

theorem le_foldl_appendDigit (digits : Bytes) (n : Nat) : n ≤ digits.foldl appendDigit n := by
  induction digits generalizing n with
  | nil => exact Nat.le_refl n
  | cons c digits ih =>
    apply Nat.le_trans _ (ih (appendDigit n c))
    rw [appendDigit]
    omega

theorem isDigit_iff (c : UInt8) : isDigit c = true ↔ 48 ≤ c.toNat ∧ c.toNat ≤ 57 := by
  rw [isDigit, decide_eq_true_iff, UInt8.le_iff_toNat_le, UInt8.le_iff_toNat_le]
  rfl

theorem digit_toNat {c : UInt8} (hc : isDigit c = true) :
    (c - 48).toUInt64.toNat = c.toNat - 48 ∧ (c - 48).toUInt64 ≤ sizeMax := by
  obtain ⟨hlow, hhigh⟩ := (isDigit_iff c).1 hc
  have hdigit : (c - 48).toUInt64.toNat = c.toNat - 48 := by
    rw [UInt8.toNat_toUInt64, UInt8.toNat_sub_of_le c 48 (UInt8.le_iff_toNat_le.2 hlow)]
    rfl
  refine ⟨hdigit, ?_⟩
  rw [UInt64.le_iff_toNat_le, hdigit]
  change _ ≤ 18446744073709551615
  omega

theorem parseSizeDigits_eq {digits : Bytes} (h : ∀ c ∈ digits, isDigit c = true) (parsed : UInt64) :
    parseSizeDigits parsed digits =
      if digits.foldl appendDigit parsed.toNat < 2 ^ 64
      then some (UInt64.ofNat (digits.foldl appendDigit parsed.toNat)) else none := by
  induction digits generalizing parsed with
  | nil =>
    rw [parseSizeDigits, List.foldl_nil, if_pos parsed.toNat_lt, UInt64.ofNat_toNat]
  | cons c digits ih =>
    obtain ⟨hc, hdigits⟩ := List.forall_mem_cons.1 h
    obtain ⟨hlow, hhigh⟩ := (isDigit_iff c).1 hc
    obtain ⟨hdigit, hle⟩ := digit_toNat hc
    have hguard : parsed > (sizeMax - (c - 48).toUInt64) / 10 ↔
        2 ^ 64 ≤ appendDigit parsed.toNat c := by
      rw [gt_iff_lt, UInt64.lt_iff_toNat_lt, UInt64.toNat_div, UInt64.toNat_sub_of_le _ _ hle, hdigit,
        appendDigit]
      change (18446744073709551615 - _) / 10 < _ ↔ _
      omega
    rw [List.foldl_cons]
    simp only [parseSizeDigits, hc, Bool.not_true, Bool.false_eq_true, if_false]
    by_cases hover : 2 ^ 64 ≤ appendDigit parsed.toNat c
    · have hlarge := Nat.le_trans hover (le_foldl_appendDigit digits _)
      rw [if_pos (hguard.2 hover), if_neg (Nat.not_lt.2 hlarge)]
    · have hnext : (parsed * 10 + (c - 48).toUInt64).toNat = appendDigit parsed.toNat c := by
        rw [appendDigit] at hover ⊢
        rw [UInt64.toNat_add, UInt64.toNat_mul, hdigit]
        change (_ * 10 % 2 ^ 64 + _) % 2 ^ 64 = _
        omega
      rw [if_neg fun hg => hover (hguard.1 hg), ih hdigits, hnext]

/-- A numeral is read as its value if that fits the type, however many digits it has. -/
theorem parseSizeToken_eq {digits : Bytes} (hne : digits ≠ [])
    (h : ∀ c ∈ digits, isDigit c = true) :
    parseSizeToken digits =
      if numeralValue digits < 2 ^ 64 then some (UInt64.ofNat (numeralValue digits)) else none := by
  rw [parseSizeToken, if_neg hne, parseSizeDigits_eq h]
  rfl

end Httpd
