import Httpd.Numerals

namespace Httpd
open Scan
set_option autoImplicit true

def Numeral (digits : Bytes) : Prop := digits ≠ [] ∧ ∀ c ∈ digits, isDigit c = true

/-- The forms of one byte range, with the numerals as they are written. -/
inductive RangeForm where
  | closed (first last : Bytes)
  | opened (first : Bytes)
  | suffix (count : Bytes)

namespace RangeForm

def text : RangeForm → Bytes
  | closed first last => first ++ 45 :: last
  | opened first => first ++ [45]
  | suffix count => 45 :: count

def WellFormed : RangeForm → Prop
  | closed first last => Numeral first ∧ Numeral last
  | opened first => Numeral first
  | suffix count => Numeral count ∧ 1 ≤ numeralValue count

def Fits : RangeForm → Prop
  | closed first last => numeralValue first < 2 ^ 64 ∧ numeralValue last < 2 ^ 64
  | opened first => numeralValue first < 2 ^ 64
  | suffix count => numeralValue count < 2 ^ 64

end RangeForm

structure RangeFields where
  hasRange : Bool
  isSuffix : Bool
  endProvided : Bool
  start : UInt64
  last : UInt64

def HttpRequest.rangeFields (request : HttpRequest) : RangeFields where
  hasRange := request.hasRange
  isSuffix := request.rangeIsSuffix
  endProvided := request.rangeEndProvided
  start := request.rangeStart
  last := request.rangeEnd

def RangeForm.fields : RangeForm → RangeFields
  | closed first last =>
    ⟨true, false, true, UInt64.ofNat (numeralValue first), UInt64.ofNat (numeralValue last)⟩
  | opened first => ⟨true, false, false, UInt64.ofNat (numeralValue first), 0⟩
  | suffix count => ⟨true, true, false, UInt64.ofNat (numeralValue count), 0⟩

theorem Numeral.notMem {digits : Bytes} (h : Numeral digits) {c : UInt8} (hc : isDigit c = false) :
    c ∉ digits := by
  intro hm
  rw [h.2 c hm] at hc
  cases hc

theorem RangeForm.WellFormed.bytes {form : RangeForm} (h : form.WellFormed) :
    ∀ c ∈ form.text, isDigit c = true ∨ c = 45 := by
  cases form with
  | closed first last =>
    rw [RangeForm.text, List.forall_mem_append, List.forall_mem_cons]
    exact ⟨fun c hc => .inl (h.1.2 c hc), .inr rfl, fun c hc => .inl (h.2.2 c hc)⟩
  | opened first =>
    rw [RangeForm.text, List.forall_mem_append, List.forall_mem_singleton]
    exact ⟨fun c hc => .inl (h.2 c hc), .inr rfl⟩
  | suffix count =>
    rw [RangeForm.text, List.forall_mem_cons]
    exact ⟨.inr rfl, fun c hc => .inl (h.1.2 c hc)⟩

theorem RangeForm.text_ne_nil (form : RangeForm) : form.text ≠ [] := by
  cases form with
  | closed first last => exact List.append_ne_nil_of_right_ne_nil _ (List.cons_ne_nil _ _)
  | opened first => exact List.append_ne_nil_of_right_ne_nil _ (List.cons_ne_nil _ _)
  | suffix count => exact List.cons_ne_nil _ _

/-- What `parse_range_header` takes off the ends of a value. -/
def isTrimmed (c : UInt8) : Bool := isSpaceOrTab c ∨ c = cr ∨ c = lf

def Bare (value : Bytes) : Prop :=
  (∀ c, value.head? = some c → isSpaceOrTab c = false) ∧
    ∀ c, value.getLast? = some c → isTrimmed c = false

theorem Bare.skipSpaces {value : Bytes} (h : Bare value) (rest : Bytes) (hne : value ≠ []) :
    skipSpaces (value ++ rest) = value ++ rest := by
  obtain ⟨c, later, rfl⟩ := List.exists_cons_of_ne_nil hne
  exact List.dropWhile_cons_of_neg (by rw [h.1 c rfl]; exact Bool.false_ne_true)

theorem Bare.trimTrailingSpan {value pad : Bytes} (h : Bare value) (lead : Bytes)
    (hne : value ≠ []) (hp : ∀ c ∈ pad, isTrimmed c = true) :
    trimTrailingSpan (lead ++ (value ++ pad)) = lead ++ value := by
  rw [← List.append_assoc]
  apply rdropWhile_append hp
  intro c hc
  rw [List.getLast?_append_of_ne_nil _ hne] at hc
  exact h.2 c hc

theorem isTrimmed_of_blank {c : UInt8} (h : isSpaceOrTab c = true) : isTrimmed c = true := by
  rw [isTrimmed, h]
  rfl

theorem isTrimmed_of_digit {c : UInt8} (h : isDigit c = true ∨ c = 45) : isTrimmed c = false := by
  rcases h with h | rfl
  · rw [← Bool.not_eq_true]
    intro ht
    rcases of_decide_eq_true ht with hs | rfl | rfl
    · rcases of_decide_eq_true hs with rfl | rfl <;> cases h
    · cases h
    · cases h
  · rfl

def BytesUnit (unit : Bytes) : Prop := asciiCaseEqualBounded unit (ascii "bytes=") = true

instance : DecidablePred BytesUnit := fun _ => inferInstanceAs (Decidable (_ = true))

theorem asciiCaseEqualBounded_length {text expected : Bytes}
    (h : asciiCaseEqualBounded text expected = true) : text.length = expected.length := by
  by_contra hne
  have hfalse : asciiCaseEqualBounded text expected = false := if_pos hne
  rw [hfalse] at h
  cases h

theorem BytesUnit.length {unit : Bytes} (h : BytesUnit unit) : unit.length = 6 :=
  asciiCaseEqualBounded_length h

theorem BytesUnit.head {unit : Bytes} (h : BytesUnit unit) :
    ∃ c rest, unit = c :: rest ∧ isSpaceOrTab c = false := by
  have hlen := h.length
  have hne : ¬ unit.length ≠ (ascii "bytes=").length := not_not.2 hlen
  rw [BytesUnit, asciiCaseEqualBounded, if_neg hne] at h
  cases unit with
  | nil => cases hlen
  | cons c rest =>
    refine ⟨c, rest, rfl, ?_⟩
    have hc : toLower c = toLower 98 := of_decide_eq_true (Bool.and_eq_true_iff.1 h).1
    rw [← Bool.not_eq_true]
    intro hs
    rcases of_decide_eq_true hs with rfl | rfl <;> exact absurd hc (by decide)

theorem bare_range {unit : Bytes} {form : RangeForm} (hu : BytesUnit unit) (hw : form.WellFormed) :
    Bare (unit ++ form.text) := by
  constructor
  · intro c hc
    obtain ⟨d, rest, rfl, hd⟩ := hu.head
    cases hc
    exact hd
  · intro c hc
    rw [List.getLast?_append_of_ne_nil _ form.text_ne_nil] at hc
    exact isTrimmed_of_digit (hw.bytes c (List.mem_of_getLast? hc))

theorem Numeral.parse {digits : Bytes} (h : Numeral digits) :
    parseSizeToken digits = if numeralValue digits < 2 ^ 64
      then some (UInt64.ofNat (numeralValue digits)) else none :=
  parseSizeToken_eq h.1 h.2

theorem isDigit_of_parseSizeDigits {digits : Bytes} (h : parseSizeDigits parsed digits = some n) :
    ∀ c ∈ digits, isDigit c = true := by
  induction digits generalizing parsed with
  | nil => exact List.forall_mem_nil _
  | cons c digits ih =>
    simp only [parseSizeDigits] at h
    by_cases hc : isDigit c = true
    · rw [hc, Bool.not_true, if_neg Bool.false_ne_true] at h
      split at h
      · cases h
      · exact List.forall_mem_cons.2 ⟨hc, ih h⟩
    · rw [Bool.not_eq_true] at hc
      rw [hc, Bool.not_false, if_pos rfl] at h
      cases h

theorem parseSizeToken_some {digits : Bytes} (h : parseSizeToken digits = some n) :
    Numeral digits ∧ numeralValue digits < 2 ^ 64 ∧ n = UInt64.ofNat (numeralValue digits) := by
  have hne : digits ≠ [] := by
    rintro rfl
    cases h
  have hdigits : Numeral digits := by
    rw [parseSizeToken, if_neg hne] at h
    exact ⟨hne, isDigit_of_parseSizeDigits h⟩
  rw [hdigits.parse] at h
  split at h
  · rename_i hlt
    exact ⟨hdigits, hlt, (Option.some.inj h).symm⟩
  · cases h

theorem Numeral.length {digits : Bytes} (h : Numeral digits) : ∃ k, digits.length = k + 1 :=
  Nat.exists_eq_succ_of_ne_zero fun h₀ => h.1 (List.length_eq_zero_iff.1 h₀)

/-- What a `Range` header says, whatever the request already holds. -/
inductive RangeReading where
  | ignored
  | suffix (count : UInt64)
  | opened (start : UInt64)
  /-- Behind the dash stands something that is no number. -/
  | cut (start : UInt64)
  | closed (start last : UInt64)
  deriving DecidableEq

def readRangeSpec (rangeSpec : Bytes) : RangeReading :=
  if 44 ∈ rangeSpec then .ignored
  else
    match rangeSpec.idxOf? 45 with
    | none => .ignored
    | some 0 =>
      match parseSizeToken (rangeSpec.drop 1) with
      | none => .ignored
      | some count => if count = 0 then .ignored else .suffix count
    | some dash =>
      match parseSizeToken (rangeSpec.take dash) with
      | none => .ignored
      | some start =>
        if rangeSpec.drop (dash + 1) = [] then .opened start
        else
          match parseSizeToken (rangeSpec.drop (dash + 1)) with
          | none => .cut start
          | some last => .closed start last

def readRange (value : Bytes) : RangeReading :=
  let value := skipSpaces (trimTrailingSpan value)
  if BytesUnit (value.take 6) then readRangeSpec (value.drop 6) else .ignored

namespace RangeReading

/-- What such a header writes to the request; the other fields keep what earlier headers wrote. -/
def apply (request : HttpRequest) : RangeReading → HttpRequest
  | ignored => request
  | suffix count => { request with hasRange := true, rangeIsSuffix := true, rangeStart := count }
  | opened start => { request with hasRange := true, rangeStart := start }
  | cut start => { request with hasRange := false, rangeStart := start }
  | closed start last => { request with
      hasRange := true
      rangeStart := start
      rangeEndProvided := true
      rangeEnd := last }

end RangeReading

/-- `parse_range_header` writes what the header says, and nothing of what was there goes into it. -/
theorem parseRangeHeader_reading (value : Bytes) (request : HttpRequest) :
    parseRangeHeader value request = (readRange value).apply request := by
  simp only [parseRangeHeader, readRange]
  generalize skipSpaces (trimTrailingSpan value) = text
  by_cases hunit : BytesUnit (text.take 6)
  · have hlen : ¬ text.length < 6 := by
      have hsix := hunit.length
      rw [List.length_take] at hsix
      omega
    have hskip : ¬ (text.length < 6 ∨
        (!asciiCaseEqualBounded (text.take 6) (ascii "bytes=")) = true) := by
      rw [hunit]
      exact not_or.2 ⟨hlen, Bool.false_ne_true⟩
    rw [if_neg hskip, if_pos hunit, readRangeSpec]
    generalize text.drop 6 = spec
    by_cases hempty : spec = []
    · rw [if_pos hempty, hempty]
      rfl
    rw [if_neg hempty]
    by_cases hcomma : 44 ∈ spec
    · rw [if_pos hcomma, if_pos hcomma]
      rfl
    rw [if_neg hcomma, if_neg hcomma]
    cases spec.idxOf? 45 with
    | none => rfl
    | some dash =>
      cases dash with
      | zero =>
        cases parseSizeToken (spec.drop 1) with
        | none => rfl
        | some count =>
          by_cases h₀ : count = 0
          · simp only [if_pos h₀, RangeReading.apply]
          · simp only [if_neg h₀, RangeReading.apply]
      | succ dash =>
        simp only
        cases parseSizeToken (spec.take (dash + 1)) with
        | none => rfl
        | some start =>
          by_cases hend : spec.drop (dash + 1 + 1) = []
          · simp only [if_pos hend, RangeReading.apply]
          · simp only [if_neg hend]
            cases parseSizeToken (spec.drop (dash + 1 + 1)) <;> rfl
  · have hskip : text.length < 6 ∨
        (!asciiCaseEqualBounded (text.take 6) (ascii "bytes=")) = true := by
      refine .inr ?_
      rw [Bool.eq_false_iff.2 hunit]
      rfl
    rw [if_pos hskip, if_neg hunit]
    rfl

theorem readRangeSpec_from {first last : Bytes} (ha : Numeral first) (hcomma : 44 ∉ last) :
    readRangeSpec (first ++ 45 :: last) =
      (parseSizeToken first).elim .ignored fun start =>
        if last = [] then .opened start
        else (parseSizeToken last).elim (.cut start) (.closed start) := by
  obtain ⟨k, hk⟩ := ha.length
  have hno : 44 ∉ first ++ 45 :: last := by
    rw [List.mem_append, List.mem_cons, not_or, not_or]
    exact ⟨ha.notMem rfl, by decide, hcomma⟩
  have hdash : (first ++ 45 :: last).idxOf? 45 = some (k + 1) := by
    rw [← hk]
    exact idxOf?_append (ha.notMem rfl) last
  have hfirst : (first ++ 45 :: last).take (k + 1) = first := List.take_left' hk
  have hlast : (first ++ 45 :: last).drop (k + 1 + 1) = last := by
    rw [← List.drop_drop, List.drop_left' hk]
    rfl
  simp only [readRangeSpec, if_neg hno, hdash, hfirst, hlast]
  cases parseSizeToken first with
  | none => rfl
  | some start =>
    simp only [Option.elim_some]
    cases parseSizeToken last <;> rfl

theorem readRangeSpec_last {count : Bytes} (hcomma : 44 ∉ count) :
    readRangeSpec (45 :: count) =
      (parseSizeToken count).elim .ignored fun n => if n = 0 then .ignored else .suffix n := by
  have hno : 44 ∉ 45 :: count := by
    rw [List.mem_cons, not_or]
    exact ⟨by decide, hcomma⟩
  have hdash : (45 :: count).idxOf? 45 = some 0 := idxOf?_append List.not_mem_nil count
  simp only [readRangeSpec, if_neg hno, hdash, List.drop_succ_cons, List.drop_zero]
  cases parseSizeToken count <;> rfl

def RangeForm.reading : RangeForm → RangeReading
  | closed first last =>
    .closed (UInt64.ofNat (numeralValue first)) (UInt64.ofNat (numeralValue last))
  | opened first => .opened (UInt64.ofNat (numeralValue first))
  | suffix count => .suffix (UInt64.ofNat (numeralValue count))

def RangeReading.Untaken : RangeReading → Prop
  | ignored => True
  | cut _ => True
  | _ => False

theorem ofNat_eq_zero_iff {n : Nat} (h : n < 2 ^ 64) : UInt64.ofNat n = 0 ↔ n = 0 := by
  rw [← UInt64.toNat_inj, UInt64.toNat_ofNat_of_lt' h]
  rfl

theorem readRangeSpec_form {form : RangeForm} (hw : form.WellFormed) :
    (form.Fits → readRangeSpec form.text = form.reading) ∧
      (¬ form.Fits → (readRangeSpec form.text).Untaken) := by
  cases form with
  | closed first last =>
    obtain ⟨ha, hb⟩ := hw
    rw [RangeForm.text, readRangeSpec_from ha (hb.notMem rfl), ha.parse, hb.parse]
    constructor
    · rintro ⟨hfirst, hlast⟩
      rw [if_pos hfirst, Option.elim_some, if_neg hb.1, if_pos hlast]
      rfl
    · intro hn
      by_cases hfirst : numeralValue first < 2 ^ 64
      · have hlast : ¬ numeralValue last < 2 ^ 64 := fun hlast => hn ⟨hfirst, hlast⟩
        rw [if_pos hfirst, Option.elim_some, if_neg hb.1, if_neg hlast]
        exact trivial
      · rw [if_neg hfirst]
        exact trivial
  | opened first =>
    have ha : Numeral first := hw
    rw [RangeForm.text, readRangeSpec_from ha List.not_mem_nil, ha.parse]
    constructor
    · intro (hfirst : numeralValue first < 2 ^ 64)
      rw [if_pos hfirst]
      rfl
    · intro (hfirst : ¬ numeralValue first < 2 ^ 64)
      rw [if_neg hfirst]
      exact trivial
  | suffix count =>
    obtain ⟨hk, hpos⟩ := hw
    rw [RangeForm.text, readRangeSpec_last (hk.notMem rfl), hk.parse]
    constructor
    · intro (hcount : numeralValue count < 2 ^ 64)
      have hne : ¬ UInt64.ofNat (numeralValue count) = 0 := by
        rw [ofNat_eq_zero_iff hcount]
        exact Nat.ne_of_gt hpos
      rw [if_pos hcount, Option.elim_some, if_neg hne]
      rfl
    · intro (hcount : ¬ numeralValue count < 2 ^ 64)
      rw [if_neg hcount]
      exact trivial

/-- Nothing but a form whose numbers fit is taken. -/
theorem exists_form {spec : Bytes} (h : ¬ (readRangeSpec spec).Untaken) :
    ∃ form : RangeForm, spec = form.text ∧ form.WellFormed ∧ form.Fits := by
  rw [readRangeSpec] at h
  split at h
  · exact absurd trivial h
  split at h
  · exact absurd trivial h
  · rename_i hdash
    obtain ⟨hspec, -, -⟩ := idxOf?_split hdash
    generalize hcount : parseSizeToken (spec.drop 1) = result at h
    cases result with
    | none => exact absurd trivial h
    | some n =>
      obtain ⟨hk, hfits, rfl⟩ := parseSizeToken_some hcount
      refine ⟨.suffix (spec.drop 1), hspec, ⟨hk, ?_⟩, hfits⟩
      rw [Nat.one_le_iff_ne_zero]
      intro h₀
      simp only [if_pos ((ofNat_eq_zero_iff hfits).2 h₀)] at h
      exact h trivial
  · rename_i dash _ hdash
    obtain ⟨hspec, -, -⟩ := idxOf?_split hdash
    generalize hfirst : parseSizeToken (spec.take dash) = result at h
    cases result with
    | none => exact absurd trivial h
    | some start =>
      obtain ⟨ha, hstart, rfl⟩ := parseSizeToken_some hfirst
      by_cases hend : spec.drop (dash + 1) = []
      · rw [hend] at hspec
        exact ⟨.opened (spec.take dash), hspec, ha, hstart⟩
      · simp only [if_neg hend] at h
        generalize hlast : parseSizeToken (spec.drop (dash + 1)) = result at h
        cases result with
        | none => exact absurd trivial h
        | some last =>
          obtain ⟨hb, hfits, rfl⟩ := parseSizeToken_some hlast
          exact ⟨.closed (spec.take dash) (spec.drop (dash + 1)), hspec, ⟨ha, hb⟩, hstart, hfits⟩

def RangeValue (value spec : Bytes) : Prop :=
  ∃ lead unit trail, value = lead ++ (unit ++ spec ++ trail) ∧ BytesUnit unit ∧
    (∀ c ∈ lead, isSpaceOrTab c = true) ∧ ∀ c ∈ trail, isTrimmed c = true

theorem RangeValue.reading {form : RangeForm} (h : RangeValue value form.text)
    (hw : form.WellFormed) : readRange value = readRangeSpec form.text := by
  obtain ⟨lead, unit, trail, rfl, hu, hlead, htrail⟩ := h
  have hbare := bare_range hu hw
  have hne : unit ++ form.text ≠ [] := List.append_ne_nil_of_right_ne_nil _ form.text_ne_nil
  have hskip : skipSpaces (lead ++ (unit ++ form.text)) = unit ++ form.text := by
    have hrest := hbare.skipSpaces [] hne
    rw [List.append_nil] at hrest
    rw [skipSpaces, List.dropWhile_append_of_pos hlead]
    exact hrest
  have htake : (unit ++ form.text).take 6 = unit := List.take_left' hu.length
  have hdrop : (unit ++ form.text).drop 6 = form.text := List.drop_left' hu.length
  simp only [readRange, hbare.trimTrailingSpan lead hne htrail, hskip, htake, if_pos hu, hdrop]

theorem exists_rangeValue {value : Bytes} (h : ¬ (readRange value).Untaken) :
    ∃ spec, RangeValue value spec ∧ readRange value = readRangeSpec spec := by
  simp only [readRange] at h ⊢
  by_cases hu : BytesUnit ((skipSpaces (trimTrailingSpan value)).take 6)
  · rw [if_pos hu]
    refine ⟨_, ⟨(trimTrailingSpan value).takeWhile isSpaceOrTab, _, value.rtakeWhile isTrimmed, ?_,
      hu, fun c hc => List.mem_takeWhile_imp hc, fun c hc => List.mem_rtakeWhile_imp hc⟩, rfl⟩
    have htrim : trimTrailingSpan value ++ value.rtakeWhile isTrimmed = value :=
      List.rdropWhile_append_rtakeWhile
    rw [List.take_append_drop, ← List.append_assoc, skipSpaces, List.takeWhile_append_dropWhile,
      htrim]
  · rw [if_neg hu] at h
    exact absurd trivial h

def RangeForm.Denotes : RangeForm → RangeFields → Prop
  | closed first last, fields =>
    fields.isSuffix = false ∧ fields.start.toNat = numeralValue first ∧
      fields.endProvided = true ∧ fields.last.toNat = numeralValue last
  | opened first, fields =>
    fields.isSuffix = false ∧ fields.start.toNat = numeralValue first ∧ fields.endProvided = false
  | suffix count, fields =>
    fields.isSuffix = true ∧ fields.start.toNat = numeralValue count ∧ fields.endProvided = false

theorem RangeForm.fields_denote {form : RangeForm} (h : form.Fits) : form.Denotes form.fields := by
  cases form with
  | closed first last =>
    exact ⟨rfl, UInt64.toNat_ofNat_of_lt' h.1, rfl, UInt64.toNat_ofNat_of_lt' h.2⟩
  | opened first => exact ⟨rfl, UInt64.toNat_ofNat_of_lt' h, rfl⟩
  | suffix count => exact ⟨rfl, UInt64.toNat_ofNat_of_lt' h, rfl⟩

def RangeFields.zero : RangeFields := ⟨false, false, false, 0, 0⟩

theorem RangeForm.reading_fields (form : RangeForm) {request : HttpRequest}
    (h₀ : request.rangeFields = .zero) : (form.reading.apply request).rangeFields = form.fields := by
  simp only [HttpRequest.rangeFields, RangeFields.zero, RangeFields.mk.injEq] at h₀
  obtain ⟨-, hsuffix, hend, -, hlast⟩ := h₀
  cases form with
  | closed first last =>
    simp only [reading, RangeReading.apply, HttpRequest.rangeFields, hsuffix, fields]
  | opened first =>
    simp only [reading, RangeReading.apply, HttpRequest.rangeFields, hsuffix, hend, hlast, fields]
  | suffix count =>
    simp only [reading, RangeReading.apply, HttpRequest.rangeFields, hend, hlast, fields]

theorem RangeReading.Untaken.hasRange {reading : RangeReading} (h : reading.Untaken)
    {request : HttpRequest} (h₀ : request.hasRange = false) :
    (reading.apply request).hasRange = false := by
  cases reading with
  | ignored => exact h₀
  | cut start => rfl
  | suffix count => cases h
  | opened start => cases h
  | closed start last => cases h

theorem numeralValue_le {digits read : Bytes} (h : read <+: digits) :
    numeralValue read ≤ numeralValue digits := by
  obtain ⟨rest, rfl⟩ := h
  rw [numeralValue, numeralValue, List.foldl_append]
  exact le_foldl_appendDigit rest _

/-- The language of `parse_range_header`: it takes exactly the values that hold a range in one of
the three forms whose numbers are values of `size_t`, and takes from them what the numerals stand
for; a numeral that is read has not wrapped after any of its digits. -/
theorem parseRangeHeader_language (value : Bytes) :
    ((parseRangeHeader value .zero).hasRange = true ↔
      ∃ form : RangeForm, RangeValue value form.text ∧ form.WellFormed ∧ form.Fits) ∧
    (∀ form : RangeForm, RangeValue value form.text → form.WellFormed → form.Fits →
      form.Denotes (parseRangeHeader value .zero).rangeFields) ∧
    ∀ digits n, parseSizeToken digits = some n → ∀ read, read ≠ [] → read <+: digits →
      ∃ m, parseSizeToken read = some m ∧ m.toNat = numeralValue read := by
  have hfields (form : RangeForm) (hv : RangeValue value form.text) (hw : form.WellFormed)
      (hf : form.Fits) : (parseRangeHeader value .zero).rangeFields = form.fields := by
    rw [parseRangeHeader_reading, hv.reading hw, (readRangeSpec_form hw).1 hf]
    exact form.reading_fields rfl
  refine ⟨⟨fun h => ?_, ?_⟩, ?_, ?_⟩
  · rw [parseRangeHeader_reading] at h
    have htaken : ¬ (readRange value).Untaken := by
      intro hn
      rw [hn.hasRange rfl] at h
      cases h
    obtain ⟨spec, hv, hread⟩ := exists_rangeValue htaken
    rw [hread] at htaken
    obtain ⟨form, rfl, hw, hf⟩ := exists_form htaken
    exact ⟨form, hv, hw, hf⟩
  · rintro ⟨form, hv, hw, hf⟩
    have hhas := congrArg RangeFields.hasRange (hfields form hv hw hf)
    cases form <;> exact hhas
  · intro form hv hw hf
    rw [hfields form hv hw hf]
    exact RangeForm.fields_denote hf
  · intro digits n hread read hne hp
    obtain ⟨hdigits, hlt, -⟩ := parseSizeToken_some hread
    have hpart : Numeral read := ⟨hne, fun c hc => hdigits.2 c (hp.subset hc)⟩
    have hfits : numeralValue read < 2 ^ 64 := Nat.lt_of_le_of_lt (numeralValue_le hp) hlt
    refine ⟨UInt64.ofNat (numeralValue read), ?_, UInt64.toNat_ofNat_of_lt' hfits⟩
    rw [hpart.parse, if_pos hfits]

theorem parseRangeHeader_language_sizeMax :
    ∃ form : RangeForm, RangeValue (ascii "\tbYtes=00-18446744073709551615 \r\n") form.text ∧
      form.Denotes
        (parseRangeHeader (ascii "\tbYtes=00-18446744073709551615 \r\n") .zero).rangeFields := by
  obtain ⟨htaken, hdenotes, -⟩ :=
    parseRangeHeader_language (ascii "\tbYtes=00-18446744073709551615 \r\n")
  obtain ⟨form, hv, hw, hf⟩ := htaken.1 (by decide +kernel)
  exact ⟨form, hv, hdenotes form hv hw hf⟩

end Httpd
