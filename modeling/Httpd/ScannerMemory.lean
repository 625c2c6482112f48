import Httpd.Numerals
import Httpd.Lib.CheckedMemory

namespace Httpd
open CheckedMemory Scan
set_option autoImplicit true

def copyBoundedChecked (raw dest : Bytes) (destSize src srcLen : Nat) : Checked Bytes := do
  let copyLen ← (if srcLen ≥ destSize then sub destSize 1 else .ok srcLen : Checked Nat)
  let dest ← memcpy raw copyLen src 0 dest
  write dest copyLen 0

/-- The loop of `ascii_case_equal`, whose arguments are both terminated; with nothing folded it is
the loop of `strcmp`, of which only an equal result matters. -/
def caseEqualLoop (fold : UInt8 → UInt8) (left right : Bytes) : Nat → Nat → Checked Bool
  | 0, _ => .error .endless
  | fuel + 1, i => do
    let l ← read left i
    let r ← read right i
    if l ≠ 0 ∧ r ≠ 0 then
      if fold l ≠ fold r then .ok false else caseEqualLoop fold left right fuel (i + 1)
    else .ok (l = 0 ∧ r = 0)

def asciiCaseEqualChecked (left right : Bytes) : Checked Bool :=
  caseEqualLoop toLower left (right ++ [0]) (left.length + 1) 0

def strcmpChecked (left right : Bytes) : Checked Bool :=
  caseEqualLoop id left (right ++ [0]) (left.length + 1) 0

def asciiCaseEqualBoundedLoop (raw expected : Bytes) (text textLen : Nat) :
    Nat → Nat → Checked Bool
  | 0, _ => .error .endless
  | fuel + 1, i =>
    if i < textLen then do
      let c ← read raw (text + i)
      let e ← read expected i
      if toLower c ≠ toLower e then .ok false
      else asciiCaseEqualBoundedLoop raw expected text textLen fuel (i + 1)
    else .ok true

def asciiCaseEqualBoundedChecked (raw : Bytes) (text textLen : Nat) (expected : Bytes) :
    Checked Bool :=
  if textLen ≠ expected.length then .ok false
  else asciiCaseEqualBoundedLoop raw (expected ++ [0]) text textLen (textLen + 1) 0

def findCrlfLoop (raw : Bytes) (text length : Nat) : Nat → Nat → Checked (Option Nat)
  | 0, _ => .error .endless
  | fuel + 1, i =>
    if i + 1 < length then do
      let c ← read raw (text + i)
      let found ← (if c = cr then (read raw (text + (i + 1))).map (· == lf) else .ok false :
        Checked Bool)
      if found then (pointer raw (text + i)).map some
      else findCrlfLoop raw text length fuel (i + 1)
    else .ok none

def findCrlfChecked (raw : Bytes) (text length : Nat) : Checked (Option Nat) :=
  if length < 2 then .ok none else findCrlfLoop raw text length length 0

def skipSpacesLoop (raw : Bytes) (stop : Nat) : Nat → Nat → Checked Nat
  | 0, _ => .error .endless
  | fuel + 1, text =>
    if text < stop then do
      let c ← read raw text
      if isSpaceOrTab c then skipSpacesLoop raw stop fuel (text + 1) else .ok text
    else .ok text

def skipSpacesChecked (raw : Bytes) (text stop : Nat) : Checked Nat :=
  skipSpacesLoop raw stop (raw.length + 1) text

def trimTrailingLoop (raw : Bytes) (start : Nat) : Nat → Nat → Checked Nat
  | 0, _ => .error .endless
  | fuel + 1, stop =>
    if start < stop then do
      let last ← sub stop 1
      let c ← read raw last
      if isSpaceOrTab c ∨ c = cr ∨ c = lf then trimTrailingLoop raw start fuel last else .ok stop
    else .ok stop

def trimTrailingSpanChecked (raw : Bytes) (start stop : Nat) : Checked Nat :=
  trimTrailingLoop raw start (raw.length + 1) stop

def parseSizeLoop (raw : Bytes) (stop : Nat) : Nat → Nat → UInt64 → Checked (Option UInt64)
  | 0, _, _ => .error .endless
  | fuel + 1, cursor, parsed =>
    if cursor < stop then do
      let c ← read raw cursor
      if !isDigit c then .ok none
      else do
        let digit ← sub c.toNat 48
        let room ← sub sizeMax.toNat digit
        if parsed > UInt64.ofNat room / 10 then .ok none
        else parseSizeLoop raw stop fuel (cursor + 1) (parsed * 10 + UInt64.ofNat digit)
    else .ok (some parsed)

def parseSizeTokenChecked (raw : Bytes) (start stop : Nat) : Checked (Option UInt64) :=
  if start ≥ stop then .ok none else parseSizeLoop raw stop (raw.length + 1) start 0

section Copy

variable {raw : Bytes} {src srcLen : Nat}

theorem memcpy_terminated {n : Nat} {dest : Bytes} (h : src + n ≤ raw.length)
    (hn : n < dest.length) :
    (do let dest ← memcpy raw n src 0 dest; write dest n 0) =
      (.ok (span raw src (src + n) ++ 0 :: dest.drop (n + 1)) : Checked Bytes) := by
  have hlen := span_length src h
  rw [Nat.add_sub_cancel_left] at hlen
  have hcopy := memcpy_ok h [] (Nat.le_of_lt hn)
  rw [List.nil_append, List.nil_append, List.length_nil, List.drop_eq_getElem_cons hn] at hcopy
  have hwrite := write_append (span raw src (src + n)) dest[n] 0 (dest.drop (n + 1))
  rw [hlen] at hwrite
  rw [hcopy, ok_bind, hwrite]

theorem copyBoundedChecked_ok (dest : CharArray size) (h : src + srcLen ≤ raw.length) :
    copyBoundedChecked raw dest.bytes size src srcLen =
      .ok (dest.copyBounded (span raw src (src + srcLen))).bytes := by
  have hpos := dest.pos
  have hlen := span_length src h
  rw [Nat.add_sub_cancel_left] at hlen
  have hbytes : (dest.copyBounded (span raw src (src + srcLen))).bytes =
      (span raw src (src + srcLen)).take (size - 1) ++
        0 :: dest.bytes.drop (min srcLen (size - 1) + 1) := by
    change _ ++ 0 :: dest.bytes.drop (min (span raw src (src + srcLen)).length _ + 1) = _
    rw [hlen]
  rw [copyBoundedChecked, hbytes]
  by_cases hlong : srcLen ≥ size
  · have hle : size - 1 ≤ srcLen := Nat.le_trans (Nat.sub_le size 1) hlong
    have hn : size - 1 < dest.bytes.length := by
      rw [dest.length_eq]
      exact Nat.sub_lt hpos Nat.one_pos
    have hsrc : src + (size - 1) ≤ src + srcLen := Nat.add_le_add_left hle src
    rw [if_pos hlong, sub_ok hpos, ok_bind, memcpy_terminated (Nat.le_trans hsrc h) hn,
      span_take _ hsrc, Nat.min_eq_right hle]
  · have hn : srcLen < dest.bytes.length := by
      rw [dest.length_eq]
      exact Nat.not_le.1 hlong
    have hle : srcLen ≤ size - 1 := Nat.le_sub_one_of_lt (Nat.not_le.1 hlong)
    have htake : (span raw src (src + srcLen)).take (size - 1) = span raw src (src + srcLen) :=
      List.take_of_length_le (hlen.symm ▸ hle)
    rw [if_neg hlong, ok_bind, memcpy_terminated h hn, htake, Nat.min_eq_left hle]

end Copy

section Compare

variable {raw left right : Bytes}

theorem cstr_split (h : 0 ∈ left) : ∃ rest, left = cstr left ++ 0 :: rest := by
  induction left with
  | nil => cases h
  | cons c left ih =>
    by_cases hc : c = 0
    · subst c
      exact ⟨left, rfl⟩
    · obtain ⟨rest, heq⟩ := ih ((List.mem_cons.1 h).resolve_left (Ne.symm hc))
      have hcstr : cstr (c :: left) = c :: cstr left := List.takeWhile_cons_of_pos (bne_iff_ne.2 hc)
      refine ⟨rest, ?_⟩
      rw [hcstr, List.cons_append, ← heq]

theorem caseEqualLoop_ok (fold : UInt8 → UInt8) (before before' : Bytes)
    (hlen : before.length = before'.length) (hl : 0 ∉ left) (hr : 0 ∉ right) (after after' : Bytes)
    {fuel : Nat} (hf : left.length < fuel) :
    caseEqualLoop fold (before ++ (left ++ 0 :: after)) (before' ++ (right ++ 0 :: after')) fuel
      before.length = .ok (decide (left.map fold = right.map fold)) := by
  induction left generalizing right before before' fuel with
  | nil =>
    obtain ⟨fuel, rfl⟩ := Nat.exists_eq_succ_of_ne_zero (Nat.ne_zero_of_lt hf)
    rw [List.nil_append, caseEqualLoop, read_next, hlen, ok_bind]
    cases right with
    | nil =>
      rw [List.nil_append, read_next]
      rfl
    | cons r right =>
      rw [List.mem_cons, not_or] at hr
      rw [List.cons_append, read_next, ok_bind, if_neg fun h => h.1 rfl]
      simp only [true_and, Ne.symm hr.1, decide_false]
      rfl
  | cons l left ih =>
    obtain ⟨fuel, rfl⟩ := Nat.exists_eq_succ_of_ne_zero (Nat.ne_zero_of_lt hf)
    rw [List.mem_cons, not_or] at hl
    rw [List.cons_append, caseEqualLoop, read_next, hlen, ok_bind]
    cases right with
    | nil =>
      rw [List.nil_append, read_next, ok_bind, if_neg fun h => h.2 rfl]
      simp only [Ne.symm hl.1, false_and, decide_false]
      rfl
    | cons r right =>
      rw [List.mem_cons, not_or] at hr
      rw [List.cons_append, read_next, ok_bind, if_pos ⟨Ne.symm hl.1, Ne.symm hr.1⟩]
      simp only [List.map_cons, List.cons.injEq]
      by_cases hc : fold l = fold r
      · have hstep : (before ++ [l]).length = (before' ++ [r]).length := by
          rw [List.length_append, List.length_append, hlen]
          rfl
        have hrest := ih (before ++ [l]) (before' ++ [r]) hstep hl.2 hr.2 (Nat.lt_of_succ_lt_succ hf)
        rw [List.append_assoc, List.append_assoc, List.length_append, hlen] at hrest
        simp only [hc, ne_eq, not_true_eq_false, if_false, true_and]
        exact hrest
      · simp only [hc, ne_eq, not_false_eq_true, if_true, false_and, decide_false]

theorem caseEqualLoop_str (fold : UInt8 → UInt8) (left : CharArray size) (hr : 0 ∉ right) :
    caseEqualLoop fold left.bytes (right ++ [0]) (left.bytes.length + 1) 0 =
      .ok (decide (left.str.map fold = right.map fold)) := by
  obtain ⟨rest, heq⟩ := cstr_split left.terminated
  have hf : (cstr left.bytes).length < left.bytes.length + 1 :=
    Nat.lt_succ_of_le (List.takeWhile_prefix _).length_le
  have hloop := caseEqualLoop_ok fold [] [] rfl (zero_notMem_cstr left.bytes) hr rest [] hf
  rw [List.nil_append, List.nil_append, ← heq] at hloop
  exact hloop

theorem asciiCaseEqualChecked_ok (left : CharArray size) (hr : 0 ∉ right) :
    asciiCaseEqualChecked left.bytes right = .ok (asciiCaseEqual left.str right) := by
  rw [asciiCaseEqualChecked, caseEqualLoop_str toLower left hr]
  congr 1
  rw [Bool.eq_iff_iff, decide_eq_true_iff, asciiCaseEqual_iff]

theorem strcmpChecked_ok (left : CharArray size) (hr : 0 ∉ right) :
    strcmpChecked left.bytes right = .ok (decide (left.str = right)) := by
  rw [strcmpChecked, caseEqualLoop_str id left hr]
  simp only [List.map_id]

theorem asciiCaseEqualBoundedLoop_ok (before : Bytes) (text stop : Nat)
    (hs : stop ≤ raw.length) {fuel : Nat} (hf : right.length < fuel)
    (hlen : text + before.length + right.length = stop) :
    asciiCaseEqualBoundedLoop raw (before ++ right ++ [0]) text (before ++ right).length fuel
      before.length = .ok (asciiCaseEqual (span raw (text + before.length) stop) right) := by
  induction right generalizing before fuel with
  | nil =>
    obtain ⟨fuel, rfl⟩ := Nat.exists_eq_succ_of_ne_zero (Nat.ne_zero_of_lt hf)
    have hdone : ¬ before.length < (before ++ ([] : Bytes)).length := by
      rw [List.append_nil]
      exact Nat.lt_irrefl _
    have hend : stop ≤ text + before.length := Nat.le_of_eq hlen.symm
    rw [asciiCaseEqualBoundedLoop, if_neg hdone, span_nil hend]
    rfl
  | cons r right ih =>
    obtain ⟨fuel, rfl⟩ := Nat.exists_eq_succ_of_ne_zero (Nat.ne_zero_of_lt hf)
    rw [List.length_cons] at hlen
    have hmore : before.length < (before ++ r :: right).length := by
      rw [List.length_append, List.length_cons]
      omega
    have hbelow : text + before.length < stop := by omega
    obtain ⟨c, hread, hspan⟩ := span_cons hbelow hs
    have hliteral : read (before ++ r :: right ++ [0]) before.length = .ok r := by
      rw [List.append_assoc]
      exact read_next before r (right ++ [0])
    rw [asciiCaseEqualBoundedLoop, if_pos hmore, hread, hspan, ok_bind, hliteral, ok_bind]
    by_cases hc : toLower c = toLower r
    · have hnext : (before ++ [r]).length = before.length + 1 := List.length_append
      have hrest := ih (before ++ [r]) (Nat.lt_of_succ_lt_succ hf) (by omega)
      rw [List.append_assoc before, hnext] at hrest
      rw [if_neg fun h => h hc, asciiCaseEqual, decide_eq_true hc]
      exact hrest
    · rw [if_pos hc, asciiCaseEqual, decide_eq_false hc]
      rfl

theorem asciiCaseEqualBoundedChecked_ok {text textLen : Nat} (h : text + textLen ≤ raw.length)
    (expected : Bytes) :
    asciiCaseEqualBoundedChecked raw text textLen expected =
      .ok (asciiCaseEqualBounded (span raw text (text + textLen)) expected) := by
  have hlen := span_length text h
  rw [Nat.add_sub_cancel_left] at hlen
  rw [asciiCaseEqualBoundedChecked, asciiCaseEqualBounded, hlen]
  by_cases hne : textLen = expected.length
  · rw [if_neg fun h => h hne, if_neg fun h => h hne, hne]
    exact asciiCaseEqualBoundedLoop_ok [] text _ (hne ▸ h) (Nat.lt_succ_self _) rfl
  · rw [if_pos hne, if_pos hne]

end Compare

section Search

variable {raw : Bytes} {text start stop : Nat}

theorem findCrlf_short {s : Bytes} (h : s.length < 2) : findCrlf s = none := by
  cases hc : findCrlf s with
  | none => rfl
  | some i =>
    have hbound := firstOccurrence_bound hc
    simp only [crlf, List.length_cons, List.length_nil] at hbound
    omega

theorem findCrlf_cons (c d : UInt8) (rest : Bytes) :
    findCrlf (c :: d :: rest) =
      if c = cr ∧ d = lf then some 0 else (findCrlf (d :: rest)).map (· + 1) := by
  have hstart : crlf <+: c :: d :: rest ↔ c = cr ∧ d = lf := by
    rw [crlf, List.cons_prefix_cons, List.cons_prefix_cons, eq_comm, @eq_comm _ lf]
    exact and_congr_right fun _ => and_iff_left List.nil_prefix
  rw [findCrlf, firstOccurrence]
  simp only [hstart]
  rfl

theorem findCrlfLoop_ok {length i : Nat} (hs : text + length ≤ raw.length) (hi : i ≤ length)
    {fuel : Nat} (hf : length ≤ fuel + i) (hpos : 0 < fuel) :
    findCrlfLoop raw text length fuel i =
      .ok ((findCrlf (span raw (text + i) (text + length))).map (text + i + ·)) := by
  induction fuel generalizing i with
  | zero => exact absurd hpos (Nat.lt_irrefl 0)
  | succ fuel ih =>
    rw [findCrlfLoop]
    by_cases hmore : i + 1 < length
    · have hfirst : text + i < text + length := by omega
      have hsecond : text + (i + 1) < text + length := by omega
      obtain ⟨c, hread, hspan⟩ := span_cons hfirst hs
      obtain ⟨d, hread', hspan'⟩ := span_cons hsecond hs
      have hrest := ih hmore.le (by omega) (by omega)
      have hfound : (if c = cr then (read raw (text + (i + 1))).map (· == lf) else .ok false) =
          (.ok (decide (c = cr ∧ d = lf)) : Checked Bool) := by
        by_cases hc : c = cr
        · rw [if_pos hc, hread', hc]
          simp only [true_and]
          rfl
        · rw [if_neg hc]
          simp only [hc, false_and, decide_false]
      rw [if_pos hmore, hread, ok_bind, hfound, ok_bind, hspan, Nat.add_assoc text i 1, hspan',
        findCrlf_cons, ← hspan']
      by_cases hcd : c = cr ∧ d = lf
      · rw [if_pos hcd, if_pos (decide_eq_true hcd), pointer_ok (by omega)]
        rfl
      · have hshift : (fun k => text + i + k) ∘ (· + 1) = fun k => text + (i + 1) + k := by
          funext k
          change text + i + (k + 1) = text + (i + 1) + k
          omega
        rw [if_neg hcd, if_neg (by rw [decide_eq_true_iff]; exact hcd), hrest, Option.map_map,
          hshift]
    · have hshort : (span raw (text + i) (text + length)).length < 2 := by
        rw [span_length (text + i) hs]
        omega
      rw [if_neg hmore, findCrlf_short hshort]
      rfl

theorem skipSpacesLoop_ok (h : text ≤ stop) (hs : stop ≤ raw.length) {fuel : Nat}
    (hf : stop < fuel + text) :
    ∃ p, skipSpacesLoop raw stop fuel text = .ok p ∧ text ≤ p ∧ p ≤ stop ∧
      span raw p stop = skipSpaces (span raw text stop) := by
  induction fuel generalizing text with
  | zero => exact absurd hf (by omega)
  | succ fuel ih =>
    rw [skipSpacesLoop]
    by_cases hmore : text < stop
    · obtain ⟨c, hread, hspan⟩ := span_cons hmore hs
      rw [if_pos hmore, hread, ok_bind]
      by_cases hc : isSpaceOrTab c = true
      · obtain ⟨p, hp, hle, hstop, hrest⟩ := ih hmore (by omega)
        rw [if_pos hc, hspan, skipSpaces, List.dropWhile_cons_of_pos hc]
        exact ⟨p, hp, Nat.le_of_succ_le hle, hstop, hrest⟩
      · rw [if_neg hc]
        refine ⟨text, rfl, Nat.le_refl text, h, ?_⟩
        rw [hspan, skipSpaces, List.dropWhile_cons_of_neg hc]
    · rw [if_neg hmore]
      refine ⟨text, rfl, Nat.le_refl text, h, ?_⟩
      rw [span_nil (Nat.not_lt.1 hmore)]
      rfl

theorem skipSpacesChecked_ok (h : text ≤ stop) (hs : stop ≤ raw.length) :
    ∃ p, skipSpacesChecked raw text stop = .ok p ∧ text ≤ p ∧ p ≤ stop ∧
      span raw p stop = skipSpaces (span raw text stop) :=
  skipSpacesLoop_ok h hs (by omega)

theorem trimTrailingSpan_space {c : UInt8} (hc : isSpaceOrTab c ∨ c = cr ∨ c = lf) (s : Bytes) :
    trimTrailingSpan (s ++ [c]) = trimTrailingSpan s :=
  List.rdropWhile_concat_pos _ _ _ (decide_eq_true hc)

theorem trimTrailingSpan_other {c : UInt8} (hc : ¬ (isSpaceOrTab c ∨ c = cr ∨ c = lf)) (s : Bytes) :
    trimTrailingSpan (s ++ [c]) = s ++ [c] :=
  List.rdropWhile_concat_neg _ _ _ (by rw [decide_eq_true_iff]; exact hc)

theorem trimTrailingLoop_ok (h : start ≤ stop) (hs : stop ≤ raw.length) {fuel : Nat}
    (hf : stop < fuel + start) :
    ∃ p, trimTrailingLoop raw start fuel stop = .ok p ∧ start ≤ p ∧ p ≤ stop ∧
      span raw start p = trimTrailingSpan (span raw start stop) := by
  induction fuel generalizing stop with
  | zero => exact absurd hf (by omega)
  | succ fuel ih =>
    rw [trimTrailingLoop]
    by_cases hmore : start < stop
    · obtain ⟨c, hread, hspan⟩ := span_concat hmore hs
      rw [if_pos hmore, sub_ok (Nat.one_le_of_lt hmore), ok_bind, hread, ok_bind]
      by_cases hc : isSpaceOrTab c ∨ c = cr ∨ c = lf
      · obtain ⟨p, hp, hle, hstop, hrest⟩ := @ih (stop - 1) (by omega) (by omega) (by omega)
        rw [if_pos hc, hspan, trimTrailingSpan_space hc]
        exact ⟨p, hp, hle, by omega, hrest⟩
      · rw [if_neg hc]
        refine ⟨stop, rfl, h, Nat.le_refl stop, ?_⟩
        rw [hspan, trimTrailingSpan_other hc]
    · rw [if_neg hmore]
      refine ⟨stop, rfl, h, Nat.le_refl stop, ?_⟩
      rw [span_nil (Nat.not_lt.1 hmore)]
      rfl

theorem findCrlfChecked_ok {length : Nat} (hs : text + length ≤ raw.length) :
    findCrlfChecked raw text length =
      .ok ((findCrlf (span raw text (text + length))).map (text + ·)) := by
  rw [findCrlfChecked]
  by_cases hshort : length < 2
  · have hlen : (span raw text (text + length)).length < 2 := by
      rw [span_length text hs, Nat.add_sub_cancel_left]
      exact hshort
    rw [if_pos hshort, findCrlf_short hlen]
    rfl
  · rw [if_neg hshort]
    exact findCrlfLoop_ok hs (Nat.zero_le _) (Nat.le_refl _) (by omega)

theorem trimTrailingSpanChecked_ok (h : start ≤ stop) (hs : stop ≤ raw.length) :
    ∃ p, trimTrailingSpanChecked raw start stop = .ok p ∧ start ≤ p ∧ p ≤ stop ∧
      span raw start p = trimTrailingSpan (span raw start stop) :=
  trimTrailingLoop_ok h hs (by omega)

theorem digit_sub {c : UInt8} (hc : isDigit c = true) :
    sub c.toNat 48 = .ok (c - 48).toUInt64.toNat ∧
      sub sizeMax.toNat (c - 48).toUInt64.toNat = .ok (sizeMax - (c - 48).toUInt64).toNat := by
  obtain ⟨hdigit, hle⟩ := digit_toNat hc
  rw [UInt64.toNat_sub_of_le _ _ hle, hdigit]
  refine ⟨sub_ok ((isDigit_iff c).1 hc).1, sub_ok ?_⟩
  rw [← hdigit]
  exact UInt64.le_iff_toNat_le.1 hle

theorem parseSizeLoop_ok {cursor : Nat} (hs : stop ≤ raw.length) {fuel : Nat}
    (hf : stop < fuel + cursor) (hpos : 0 < fuel) (parsed : UInt64) :
    parseSizeLoop raw stop fuel cursor parsed =
      .ok (parseSizeDigits parsed (span raw cursor stop)) := by
  induction fuel generalizing cursor parsed with
  | zero => exact absurd hpos (Nat.lt_irrefl 0)
  | succ fuel ih =>
    rw [parseSizeLoop]
    by_cases hmore : cursor < stop
    · obtain ⟨c, hread, hspan⟩ := span_cons hmore hs
      rw [if_pos hmore, hread, ok_bind, hspan, parseSizeDigits]
      by_cases hc : isDigit c = true
      · obtain ⟨hdigit, hroom⟩ := digit_sub hc
        have hrest := @ih (cursor + 1) (by omega) (by omega)
        simp only [hc, Bool.not_true, Bool.false_eq_true, if_false]
        rw [hdigit, ok_bind, hroom, ok_bind, UInt64.ofNat_toNat, UInt64.ofNat_toNat]
        by_cases hover : parsed > (sizeMax - (c - 48).toUInt64) / 10
        · rw [if_pos hover, if_pos hover]
        · rw [if_neg hover, if_neg hover, hrest]
      · simp only [hc, Bool.not_false, if_true]
    · rw [if_neg hmore, span_nil (Nat.not_lt.1 hmore)]
      rfl

theorem parseSizeTokenChecked_ok (hs : stop ≤ raw.length) :
    parseSizeTokenChecked raw start stop = .ok (parseSizeToken (span raw start stop)) := by
  rw [parseSizeTokenChecked, parseSizeToken]
  by_cases hempty : start ≥ stop
  · rw [if_pos hempty, if_pos (span_nil hempty)]
  · have hne : span raw start stop ≠ [] := by
      obtain ⟨c, -, hspan⟩ := span_cons (Nat.not_le.1 hempty) hs
      rw [hspan]
      exact List.cons_ne_nil _ _
    rw [if_neg hempty, if_neg hne]
    exact parseSizeLoop_ok hs (by omega) (Nat.succ_pos _) 0

end Search

end Httpd
