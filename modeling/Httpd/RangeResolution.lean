import Httpd.ResponseFraming
import Mathlib.Order.Interval.Set.Basic

namespace Httpd
set_option autoImplicit true

/-- The positions that the range fields of a request name, in a file of `n` bytes. -/
def requestedPositions (request : HttpRequest) (n : Nat) : Set Nat :=
  if request.rangeIsSuffix then {i | i < n ∧ n ≤ i + request.rangeStart.toNat}
  else if request.rangeEndProvided then Set.Icc request.rangeStart.toNat request.rangeEnd.toNat
  else Set.Ici request.rangeStart.toNat

/-- What is to be answered when these positions of a file of `n` bytes are asked for: nothing if
none of them is in the file, and else the run of those that are. -/
def Covers (positions : Set Nat) (n : Nat) : Option ByteRange → Prop
  | none => positions ∩ Set.Iio n = ∅
  | some range =>
    range.isPartial = true ∧
      Set.Icc range.start.toNat range.last.toNat = positions ∩ Set.Iio n ∧
      range.start.toNat ≤ range.last.toNat ∧ range.last.toNat < n ∧
      range.length.toNat = range.last.toNat - range.start.toNat + 1

section Covers

variable {positions : Set Nat} {size first last : UInt64}

theorem covers_none (h : ∀ i ∈ positions, size.toNat ≤ i) : Covers positions size.toNat none := by
  apply Set.eq_empty_of_forall_notMem
  rintro i ⟨hi, hlt⟩
  exact Nat.not_lt.2 (h i hi) hlt

theorem covers_some (hle : first.toNat ≤ last.toNat) (hlt : last.toNat < size.toNat)
    (h : ∀ i < size.toNat, i ∈ positions ↔ first.toNat ≤ i ∧ i ≤ last.toNat) :
    Covers positions size.toNat (some ⟨first, last, last - first + 1, true⟩) := by
  have hsize := size.toNat_lt
  have hlength : (last - first + 1).toNat = last.toNat - first.toNat + 1 := by
    rw [UInt64.toNat_add, UInt64.toNat_sub_of_le _ _ (UInt64.le_iff_toNat_le.2 hle)]
    apply Nat.mod_eq_of_lt
    change _ + 1 < 2 ^ 64
    omega
  refine ⟨rfl, Set.ext fun i => ?_, hle, hlt, hlength⟩
  constructor
  · intro hi
    have hin : i < size.toNat := Nat.lt_of_le_of_lt hi.2 hlt
    exact ⟨(h i hin).2 hi, hin⟩
  · rintro ⟨hi, hin⟩
    exact (h i hin).1 hi

end Covers

section Resolve

variable {request : HttpRequest} {size : UInt64} (hr : request.hasRange = true)
include hr

theorem resolveRange_emptyFile :
    Covers (requestedPositions request 0) 0 (resolveRange request 0) := by
  have hnone : resolveRange request 0 = none := by
    simp only [resolveRange, hr, Bool.not_true, Bool.false_eq_true, if_false, if_true]
  rw [hnone]
  have hall : ∀ i ∈ requestedPositions request 0, (0 : UInt64).toNat ≤ i := fun i _ => Nat.zero_le i
  exact covers_none hall

theorem resolveRange_last (h₀ : size ≠ 0) (hs : request.rangeIsSuffix = true)
    (hk : 1 ≤ request.rangeStart.toNat) :
    Covers (requestedPositions request size.toNat) size.toNat (resolveRange request size) := by
  obtain ⟨hpred, hpos⟩ := toNat_pred h₀
  simp only [resolveRange, requestedPositions, hr, hs, if_neg h₀, Bool.not_true, Bool.false_eq_true,
    if_false, if_true]
  by_cases hwhole : request.rangeStart ≥ size
  · have hlong := UInt64.le_iff_toNat_le.1 hwhole
    rw [if_pos hwhole]
    apply covers_some
    · exact Nat.zero_le _
    · rw [hpred]
      exact Nat.sub_lt hpos Nat.one_pos
    · intro i hi
      rw [hpred, UInt64.toNat_zero, Set.mem_ofPred_eq]
      omega
  · have hshort := UInt64.lt_iff_toNat_lt.1 (UInt64.not_le.1 hwhole)
    have hstart : (size - request.rangeStart).toNat = size.toNat - request.rangeStart.toNat :=
      UInt64.toNat_sub_of_le _ _ (UInt64.le_iff_toNat_le.2 (Nat.le_of_lt hshort))
    rw [if_neg hwhole]
    apply covers_some
    · rw [hpred, hstart]
      exact Nat.sub_le_sub_left hk _
    · rw [hpred]
      exact Nat.sub_lt hpos Nat.one_pos
    · intro i hi
      rw [hpred, hstart, Set.mem_ofPred_eq]
      omega

theorem resolveRange_from (h₀ : size ≠ 0) (hs : request.rangeIsSuffix = false) :
    Covers (requestedPositions request size.toNat) size.toNat (resolveRange request size) := by
  obtain ⟨hpred, hpos⟩ := toNat_pred h₀
  have hmem : ∀ i < size.toNat, i ∈ requestedPositions request size.toNat ↔
      request.rangeStart.toNat ≤ i ∧
        i ≤ (if request.rangeEndProvided then request.rangeEnd else size - 1).toNat := by
    intro i hi
    rw [requestedPositions, hs, if_neg Bool.false_ne_true]
    by_cases he : request.rangeEndProvided = true
    · rw [if_pos he, if_pos he]
      exact Set.mem_Icc
    · rw [if_neg he, if_neg he, hpred, Set.mem_Ici]
      omega
  have hfrom : ∀ i ∈ requestedPositions request size.toNat, request.rangeStart.toNat ≤ i := by
    intro i hi
    rw [requestedPositions, hs, if_neg Bool.false_ne_true] at hi
    split at hi
    · exact hi.1
    · exact hi
  simp only [resolveRange, hr, hs, if_neg h₀, Bool.not_true, Bool.false_eq_true, if_false]
  generalize (if request.rangeEndProvided then request.rangeEnd else size - 1) = last at hmem ⊢
  by_cases hout : request.rangeStart ≥ size
  · rw [if_pos hout]
    exact covers_none fun i hi => Nat.le_trans (UInt64.le_iff_toNat_le.1 hout) (hfrom i hi)
  rw [if_neg hout]
  have hin := UInt64.lt_iff_toNat_lt.1 (UInt64.not_le.1 hout)
  by_cases horder : last < request.rangeStart
  · have hlt := UInt64.lt_iff_toNat_lt.1 horder
    rw [if_pos horder]
    apply covers_none
    intro i hi
    by_contra hi'
    have hbounds := (hmem i (Nat.not_le.1 hi')).1 hi
    omega
  rw [if_neg horder]
  have hle := UInt64.le_iff_toNat_le.1 (UInt64.not_lt.1 horder)
  by_cases hclamp : last ≥ size
  · have hlong := UInt64.le_iff_toNat_le.1 hclamp
    rw [if_pos hclamp]
    apply covers_some
    · rw [hpred]
      exact Nat.le_sub_one_of_lt hin
    · rw [hpred]
      exact Nat.sub_lt hpos Nat.one_pos
    · intro i hi
      rw [hmem i hi, hpred]
      omega
  · rw [if_neg hclamp]
    exact covers_some hle (UInt64.lt_iff_toNat_lt.1 (UInt64.not_le.1 hclamp)) hmem

theorem resolveRange_covers (size : UInt64)
    (h : request.rangeIsSuffix = true → 1 ≤ request.rangeStart.toNat) :
    Covers (requestedPositions request size.toNat) size.toNat (resolveRange request size) := by
  by_cases h₀ : size = 0
  · rw [h₀]
    exact resolveRange_emptyFile hr
  · by_cases hs : request.rangeIsSuffix = true
    · exact resolveRange_last hr h₀ hs (h hs)
    · exact resolveRange_from hr h₀ (Bool.eq_false_iff.2 hs)

end Resolve

theorem resolveRange_whole {request : HttpRequest} (hr : request.hasRange = false) (size : UInt64) :
    resolveRange request size = some ⟨0, if size = 0 then 0 else size - 1, size, false⟩ := by
  rw [resolveRange, hr, Bool.not_false, if_pos rfl]

theorem toInt_toInt64 {offset : UInt64} (h : offset.toNat < 2 ^ 63) :
    offset.toInt64.toInt = offset.toNat := by
  have hlow : 2 * offset.toBitVec.toNat < 2 ^ 64 := by
    change 2 * offset.toNat < 2 ^ 64
    omega
  exact BitVec.toInt_eq_toNat_of_lt hlow

theorem fread_remaining {remaining : UInt64} (h : remaining ≠ 0) (file : Bytes) (freads : List Nat) :
    let want := if remaining.toNat < readBufferSize then remaining.toNat else readBufferSize
    let got := (fread want file freads).1.length
    got ≤ remaining.toNat ∧ (remaining - UInt64.ofNat got).toNat = remaining.toNat - got := by
  intro want got
  have hne : remaining.toNat ≠ 0 := fun h₀ => h (UInt64.toNat_inj.1 h₀)
  have hgot : got ≤ remaining.toNat :=
    Nat.le_trans (fread_chunk want file freads).2.1 (want_bounds hne).2
  have hval : (UInt64.ofNat got).toNat = got :=
    UInt64.toNat_ofNat_of_lt' (Nat.lt_of_le_of_lt hgot remaining.toNat_lt)
  have hle : UInt64.ofNat got ≤ remaining := by
    rw [UInt64.le_iff_toNat_le, hval]
    exact hgot
  refine ⟨hgot, ?_⟩
  rw [UInt64.toNat_sub_of_le _ _ hle, hval]

/-- `resolve_range` refuses a range exactly if none of the positions it names is in the file, and
otherwise finds the ones that are; no number it works with wraps, nor do the offset and the
remainder that `send_file_response` takes from it. -/
theorem resolveRange_positions (request : HttpRequest) (fileSize : UInt64)
    (h : request.hasRange = true → request.rangeIsSuffix = true → 1 ≤ request.rangeStart.toNat) :
    (resolveRange request fileSize = none ↔ request.hasRange = true ∧
      requestedPositions request fileSize.toNat ∩ Set.Iio fileSize.toNat = ∅) ∧
    (∀ range, resolveRange request fileSize = some range →
      (request.hasRange = true → range.isPartial = true ∧
        Set.Icc range.start.toNat range.last.toNat =
          requestedPositions request fileSize.toNat ∩ Set.Iio fileSize.toNat ∧
        range.start.toNat ≤ range.last.toNat ∧ range.last.toNat < fileSize.toNat ∧
        range.length.toNat = range.last.toNat - range.start.toNat + 1) ∧
      (request.hasRange = false → range.isPartial = false ∧ range.length = fileSize ∧
        range.start = 0 ∧
        (fileSize ≠ 0 → Set.Icc range.start.toNat range.last.toNat = Set.Iio fileSize.toNat)) ∧
      range.length.toNat ≤ fileSize.toNat ∧
      (fileSize.toNat < 2 ^ 63 → range.start.toInt64.toInt = range.start.toNat)) ∧
    ∀ (remaining : UInt64) (file : Bytes) (freads : List Nat), remaining ≠ 0 →
      let want := if remaining.toNat < readBufferSize then remaining.toNat else readBufferSize
      let got := (fread want file freads).1.length
      got ≤ remaining.toNat ∧ (remaining - UInt64.ofNat got).toNat = remaining.toNat - got := by
  refine ⟨?_, ?_, fun remaining file freads hne => fread_remaining hne file freads⟩
  · by_cases hr : request.hasRange = true
    · have hcovers := resolveRange_covers hr fileSize (h hr)
      cases hresolve : resolveRange request fileSize with
      | none =>
        rw [hresolve] at hcovers
        exact ⟨fun _ => ⟨hr, hcovers⟩, fun _ => rfl⟩
      | some range =>
        rw [hresolve] at hcovers
        obtain ⟨-, hpositions, hle, -⟩ := hcovers
        have hsome : range.start.toNat ∈ Set.Icc range.start.toNat range.last.toNat :=
          ⟨Nat.le_refl _, hle⟩
        refine ⟨nofun, fun hempty => ?_⟩
        rw [hpositions, hempty.2] at hsome
        cases hsome
    · have hno : request.hasRange = false := Bool.eq_false_iff.2 hr
      rw [resolveRange_whole hno]
      exact ⟨nofun, fun hempty => absurd hempty.1 hr⟩
  · intro range hresolve
    by_cases hr : request.hasRange = true
    · have hcovers := resolveRange_covers hr fileSize (h hr)
      rw [hresolve] at hcovers
      have hcovered := hcovers
      obtain ⟨-, -, hle, hlt, hlength⟩ := hcovered
      refine ⟨fun _ => hcovers, fun hno => absurd hr (Bool.eq_false_iff.1 hno), ?_, fun hsize => ?_⟩
      · omega
      · apply toInt_toInt64
        omega
    · have hno : request.hasRange = false := Bool.eq_false_iff.2 hr
      rw [resolveRange_whole hno] at hresolve
      cases hresolve
      refine ⟨fun hyes => absurd hyes hr, fun _ => ⟨rfl, rfl, rfl, fun hne => ?_⟩, Nat.le_refl _,
        fun _ => rfl⟩
      obtain ⟨hpred, hpos⟩ := toNat_pred hne
      ext i
      rw [if_neg hne, hpred, Set.mem_Icc, Set.mem_Iio, UInt64.toNat_zero]
      omega

def longSuffix : HttpRequest :=
  { HttpRequest.zero with hasRange := true, rangeIsSuffix := true, rangeStart := sizeMax }

theorem resolveRange_positions_suffix :
    Set.Icc 0 9 = requestedPositions longSuffix 10 ∩ Set.Iio 10 := by
  have hresolve : resolveRange longSuffix 10 = some ⟨0, 9, 10, true⟩ := by decide
  have hpart := ((resolveRange_positions longSuffix 10 fun _ _ => by decide).2.1 _ hresolve).1 rfl
  exact hpart.2.1

end Httpd
