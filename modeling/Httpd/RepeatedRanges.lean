import Httpd.HeaderFields
import Httpd.RangeResolution

namespace Httpd
set_option autoImplicit true

namespace RangeReading

def start? : RangeReading → Option UInt64
  | ignored => none
  | suffix count => some count
  | opened start => some start
  | cut start => some start
  | closed start _ => some start

def last? : RangeReading → Option UInt64
  | closed _ last => some last
  | _ => none

def isSuffix : RangeReading → Bool
  | suffix _ => true
  | _ => false

def isTaken : RangeReading → Bool
  | ignored => false
  | cut _ => false
  | _ => true

def write (fields : RangeFields) : RangeReading → RangeFields
  | ignored => fields
  | suffix count => { fields with hasRange := true, isSuffix := true, start := count }
  | opened start => { fields with hasRange := true, start := start }
  | cut start => { fields with hasRange := false, start := start }
  | closed start last => ⟨true, fields.isSuffix, true, start, last⟩

theorem apply_write (reading : RangeReading) (request : HttpRequest) :
    (reading.apply request).rangeFields = reading.write request.rangeFields := by
  cases reading <;> rfl

end RangeReading

def lastRead (readings : List RangeReading) : Option RangeReading :=
  (readings.filter (· ≠ .ignored)).getLast?

def rangeEnds (readings : List RangeReading) : List UInt64 := readings.filterMap RangeReading.last?

/-- The fields after some ranges: each comes from the last range that wrote to it, and no range
takes back that it is a suffix or has an end. -/
def writtenFields (readings : List RangeReading) : RangeFields where
  hasRange := (lastRead readings).any RangeReading.isTaken
  isSuffix := readings.any RangeReading.isSuffix
  endProvided := (rangeEnds readings).getLast?.isSome
  start := ((lastRead readings).bind RangeReading.start?).getD 0
  last := (rangeEnds readings).getLast?.getD 0

section Last

variable {readings : List RangeReading} {reading : RangeReading}

theorem lastRead_append (h : reading ≠ .ignored) :
    lastRead (readings ++ [reading]) = some reading := by
  have hone : [reading].filter (· ≠ .ignored) = [reading] :=
    List.filter_cons_of_pos (decide_eq_true h)
  rw [lastRead, List.filter_append, hone, List.getLast?_concat]

theorem lastRead_ignored : lastRead (readings ++ [.ignored]) = lastRead readings := by
  rw [lastRead, lastRead, List.filter_append]
  exact congrArg List.getLast? (List.append_nil _)

theorem rangeEnds_append :
    rangeEnds (readings ++ [reading]) = rangeEnds readings ++ reading.last?.toList := by
  rw [rangeEnds, List.filterMap_append]
  cases reading <;> rfl

theorem rangeEnds_getLast (h : lastRead readings = some (.closed start last)) :
    (rangeEnds readings).getLast? = some last := by
  induction readings using List.reverseRecOn with
  | nil => cases h
  | append_singleton readings reading ih =>
    rw [rangeEnds_append]
    by_cases hi : reading = .ignored
    · subst hi
      rw [lastRead_ignored] at h
      change (rangeEnds readings ++ []).getLast? = some last
      rw [List.append_nil]
      exact ih h
    · rw [lastRead_append hi, Option.some.injEq] at h
      rw [h]
      exact List.getLast?_concat

theorem mem_of_lastRead (h : lastRead readings = some reading) :
    reading ∈ readings ∧ reading ≠ .ignored := by
  obtain ⟨hm, hne⟩ := List.mem_filter.1 (List.mem_of_getLast? h)
  exact ⟨hm, of_decide_eq_true hne⟩

end Last

theorem writtenFields_append (readings : List RangeReading) (reading : RangeReading) :
    writtenFields (readings ++ [reading]) = reading.write (writtenFields readings) := by
  rw [writtenFields, rangeEnds_append, List.any_append, List.any_cons, List.any_nil, Bool.or_false]
  by_cases hi : reading = .ignored
  · subst hi
    rw [lastRead_ignored]
    simp only [RangeReading.last?, Option.toList_none, List.append_nil, RangeReading.isSuffix,
      Bool.or_false]
    rfl
  rw [lastRead_append hi]
  cases reading with
  | ignored => exact absurd rfl hi
  | suffix count =>
    simp only [RangeReading.last?, Option.toList_none, List.append_nil, RangeReading.isSuffix,
      Bool.or_true]
    rfl
  | opened start =>
    simp only [RangeReading.last?, Option.toList_none, List.append_nil, RangeReading.isSuffix,
      Bool.or_false]
    rfl
  | cut start =>
    simp only [RangeReading.last?, Option.toList_none, List.append_nil, RangeReading.isSuffix,
      Bool.or_false]
    rfl
  | closed start last =>
    simp only [RangeReading.last?, Option.toList_some, List.getLast?_concat, RangeReading.isSuffix,
      Bool.or_false]
    rfl

def rangeReadings (lines : List Bytes) : List RangeReading :=
  (fieldLines (ascii "Range") lines).map fun line => readRange (fieldValue line)

theorem parseLines_writtenFields {request : HttpRequest} (h₀ : request.rangeFields = .zero)
    (lines : List Bytes) :
    (parseLines request lines).rangeFields = writtenFields (rangeReadings lines) := by
  induction lines using List.reverseRecOn with
  | nil => exact h₀
  | append_singleton lines line ih =>
    rw [parseLines_append]
    change (parseHeaderLine line (parseLines request lines)).rangeFields = _
    rw [rangeReadings, fieldLines, List.filter_append, List.map_append]
    by_cases hr : NamesField (ascii "Range") line
    · have hone : [line].filter (fun line => NamesField (ascii "Range") line) = [line] :=
        fieldLines_cons hr []
      rw [hone, parseHeaderLine_range hr, RangeReading.apply_write, ih]
      exact (writtenFields_append _ _).symm
    · have hnone : [line].filter (fun line => NamesField (ascii "Range") line) = [] :=
        fieldLines_skip hr []
      rw [hnone, parseHeaderLine_rangeFields hr, ih, List.map_nil, List.append_nil]
      rfl

/-- The fields of a range that are compared: its end only where it has one. -/
def SameRange (fields other : RangeFields) : Prop :=
  fields.isSuffix = other.isSuffix ∧ fields.start = other.start ∧
    fields.endProvided = other.endProvided ∧ (fields.endProvided = true → fields.last = other.last)

/-- The fields of no range, or of the range that one of the lines yields by itself; a suffix of no
bytes is not asked for, and what is sent as a part of a file is one. -/
def SingleRange (request : HttpRequest) (lines : List Bytes) : Prop :=
  (request.hasRange = false ∨ ∃ line ∈ fieldLines (ascii "Range") lines,
    SameRange request.rangeFields (parseHeaderLine line .zero).rangeFields) ∧
  ¬ (request.hasRange = true ∧ request.rangeIsSuffix = true ∧ request.rangeStart = 0) ∧
  ∀ fileSize range, resolveRange request fileSize = some range → range.isPartial = true →
    range.start.toNat ≤ range.last.toNat ∧ range.last.toNat < fileSize.toNat

/-- The last range that is not ignored is cut off behind its dash, or there is none; or else it
shares the fields that it leaves alone with no other range, or just with an equal one. -/
def Unmixed (readings : List RangeReading) : Prop :=
  match lastRead readings with
  | some (.suffix _) => rangeEnds readings = []
  | some (.closed _ _) => ∀ count, .suffix count ∉ readings
  | some (.opened start) =>
    (∀ count, .suffix count ∉ readings) ∧
        (∀ last, (rangeEnds readings).getLast? = some last → .closed start last ∈ readings) ∨
      rangeEnds readings = [] ∧ .suffix start ∈ readings
  | _ => True

def Yielded (fields : RangeFields) (readings : List RangeReading) : Prop :=
  fields.hasRange = false ∨ ∃ reading ∈ readings, SameRange fields (reading.write .zero)

theorem isSuffix_false_iff {readings : List RangeReading} :
    readings.any RangeReading.isSuffix = false ↔ ∀ count, .suffix count ∉ readings := by
  rw [List.any_eq_false]
  constructor
  · intro h count hm
    exact h _ hm rfl
  · intro h reading hm hs
    cases reading with
    | suffix count => exact h count hm
    | ignored => cases hs
    | opened start => cases hs
    | cut start => cases hs
    | closed start last => cases hs

theorem SameRange.reading {fields : RangeFields} {reading : RangeReading}
    (h : SameRange fields (reading.write .zero)) :
    (fields.isSuffix = true → fields.endProvided = false ∧ reading = .suffix fields.start) ∧
      (fields.endProvided = true →
        fields.isSuffix = false ∧ reading = .closed fields.start fields.last) := by
  obtain ⟨hsuffix, hstart, hend, hlast⟩ := h
  have hno {p : Prop} (h : false = true) : p := absurd h Bool.false_ne_true
  cases reading with
  | ignored =>
    simp only [RangeReading.write, RangeFields.zero] at hsuffix hend
    rw [hsuffix, hend]
    exact ⟨hno, hno⟩
  | suffix count =>
    simp only [RangeReading.write, RangeFields.zero] at hsuffix hstart hend
    rw [hsuffix, hstart, hend]
    exact ⟨fun _ => ⟨rfl, rfl⟩, hno⟩
  | opened start =>
    simp only [RangeReading.write, RangeFields.zero] at hsuffix hend
    rw [hsuffix, hend]
    exact ⟨hno, hno⟩
  | cut start =>
    simp only [RangeReading.write, RangeFields.zero] at hsuffix hend
    rw [hsuffix, hend]
    exact ⟨hno, hno⟩
  | closed start last =>
    simp only [RangeReading.write, RangeFields.zero] at hsuffix hstart hend hlast
    rw [hsuffix, hstart, hend, hlast hend]
    exact ⟨hno, fun _ => ⟨rfl, rfl⟩⟩

section Written

variable {readings : List RangeReading}

theorem written_isSuffix : (writtenFields readings).isSuffix = false ↔
    ∀ count, .suffix count ∉ readings := isSuffix_false_iff

theorem written_noEnd : (writtenFields readings).endProvided = false ↔ rangeEnds readings = [] := by
  rw [writtenFields, ← List.getLast?_eq_none_iff]
  exact Option.isSome_eq_false_iff.trans Option.isNone_iff_eq_none

theorem written_end (h : (rangeEnds readings).getLast? = some last) :
    (writtenFields readings).endProvided = true ∧ (writtenFields readings).last = last := by
  rw [writtenFields, h]
  exact ⟨rfl, rfl⟩

theorem written_last (h : lastRead readings = some reading) :
    (writtenFields readings).hasRange = reading.isTaken ∧
      (writtenFields readings).start = reading.start?.getD 0 := by
  rw [writtenFields, h]
  exact ⟨rfl, rfl⟩

theorem yielded_suffix (h : lastRead readings = some (.suffix count)) :
    Yielded (writtenFields readings) readings ↔ rangeEnds readings = [] := by
  obtain ⟨hhas, hstart⟩ := written_last h
  have hm := (mem_of_lastRead h).1
  have hsuffix : (writtenFields readings).isSuffix = true := List.any_eq_true.2 ⟨_, hm, rfl⟩
  rw [← written_noEnd]
  constructor
  · rintro (hno | ⟨reading, _, hsame⟩)
    · rw [hhas] at hno
      cases hno
    · exact (hsame.reading.1 hsuffix).1
  · intro hend
    refine .inr ⟨_, hm, hsuffix, hstart, hend, fun he => ?_⟩
    rw [hend] at he
    cases he

theorem yielded_closed (h : lastRead readings = some (.closed start last)) :
    Yielded (writtenFields readings) readings ↔ ∀ count, .suffix count ∉ readings := by
  obtain ⟨hhas, hstart⟩ := written_last h
  obtain ⟨hend, hlast⟩ := written_end (rangeEnds_getLast h)
  rw [← written_isSuffix]
  constructor
  · rintro (hno | ⟨reading, _, hsame⟩)
    · rw [hhas] at hno
      cases hno
    · exact (hsame.reading.2 hend).1
  · intro hsuffix
    exact .inr ⟨_, (mem_of_lastRead h).1, hsuffix, hstart, hend, fun _ => hlast⟩

/-- A range without an end takes over what earlier ranges wrote, so one of them has to be equal. -/
theorem yielded_opened (h : lastRead readings = some (.opened start)) :
    Yielded (writtenFields readings) readings ↔
      (∀ count, .suffix count ∉ readings) ∧
          (∀ last, (rangeEnds readings).getLast? = some last → .closed start last ∈ readings) ∨
        rangeEnds readings = [] ∧ .suffix start ∈ readings := by
  obtain ⟨hhas, hstart⟩ := written_last h
  rw [← written_isSuffix, ← written_noEnd]
  constructor
  · rintro (hno | ⟨reading, hm, hsame⟩)
    · rw [hhas] at hno
      cases hno
    obtain ⟨hs, he⟩ := hsame.reading
    rw [hstart] at hs he
    cases hsuffix : (writtenFields readings).isSuffix with
    | true =>
      obtain ⟨hend, rfl⟩ := hs hsuffix
      exact .inr ⟨hend, hm⟩
    | false =>
      refine .inl ⟨rfl, fun last hlast => ?_⟩
      obtain ⟨hend, rfl⟩ := written_end hlast
      obtain ⟨-, rfl⟩ := he hend
      exact hm
  · rintro (⟨hsuffix, hlast⟩ | ⟨hend, hm⟩)
    · cases hends : (rangeEnds readings).getLast? with
      | none =>
        have hend : (writtenFields readings).endProvided = false :=
          written_noEnd.2 (List.getLast?_eq_none_iff.1 hends)
        refine .inr ⟨_, (mem_of_lastRead h).1, hsuffix, hstart, hend, fun he => ?_⟩
        rw [hend] at he
        cases he
      | some last =>
        obtain ⟨hend, hl⟩ := written_end hends
        exact .inr ⟨_, hlast last hends, hsuffix, hstart, hend, fun _ => hl⟩
    · have hsuffix : (writtenFields readings).isSuffix = true := List.any_eq_true.2 ⟨_, hm, rfl⟩
      refine .inr ⟨_, hm, hsuffix, hstart, hend, fun he => ?_⟩
      rw [hend] at he
      cases he

theorem yielded_iff (readings : List RangeReading) :
    Yielded (writtenFields readings) readings ↔ Unmixed readings := by
  rw [Unmixed]
  cases h : lastRead readings with
  | none =>
    have hno : (writtenFields readings).hasRange = false := by
      rw [writtenFields, h]
      rfl
    exact ⟨fun _ => trivial, fun _ => .inl hno⟩
  | some reading =>
    cases reading with
    | ignored => exact absurd rfl (mem_of_lastRead h).2
    | cut start => exact ⟨fun _ => trivial, fun _ => .inl (written_last h).1⟩
    | suffix count => exact yielded_suffix h
    | closed start last => exact yielded_closed h
    | opened start => exact yielded_opened h

end Written

theorem readRange_suffix (h : readRange value = .suffix count) : count ≠ 0 := by
  have htaken : ¬ (readRange value).Untaken := by
    rw [h]
    exact id
  obtain ⟨spec, hv, hread⟩ := exists_rangeValue htaken
  rw [hread] at htaken
  obtain ⟨form, rfl, hw, hf⟩ := exists_form htaken
  rw [hread, (readRangeSpec_form hw).1 hf] at h
  cases form with
  | closed first last => cases h
  | opened first => cases h
  | suffix digits =>
    cases h
    rw [Ne, ofNat_eq_zero_iff hf]
    exact Nat.ne_of_gt hw.2

theorem yielded_lines (fields : RangeFields) (lines : List Bytes) :
    Yielded fields (rangeReadings lines) ↔ fields.hasRange = false ∨
      ∃ line ∈ fieldLines (ascii "Range") lines,
        SameRange fields (parseHeaderLine line .zero).rangeFields := by
  have halone (line : Bytes) (hm : line ∈ fieldLines (ascii "Range") lines) :
      (parseHeaderLine line .zero).rangeFields = (readRange (fieldValue line)).write .zero := by
    rw [parseHeaderLine_range (namesField_of_mem hm).2]
    exact RangeReading.apply_write _ _
  apply or_congr_right
  rw [rangeReadings]
  constructor
  · rintro ⟨reading, hm, hsame⟩
    obtain ⟨line, hline, rfl⟩ := List.mem_map.1 hm
    exact ⟨line, hline, (halone line hline).symm ▸ hsame⟩
  · rintro ⟨line, hline, hsame⟩
    exact ⟨_, List.mem_map.2 ⟨line, hline, rfl⟩, halone line hline ▸ hsame⟩

theorem Yielded.resolves {request : HttpRequest} {lines : List Bytes}
    (h : Yielded request.rangeFields (rangeReadings lines)) :
    ¬ (request.hasRange = true ∧ request.rangeIsSuffix = true ∧ request.rangeStart = 0) ∧
    ∀ fileSize range, resolveRange request fileSize = some range → range.isPartial = true →
      range.start.toNat ≤ range.last.toNat ∧ range.last.toNat < fileSize.toNat := by
  have hsuffix : request.hasRange = true → request.rangeIsSuffix = true →
      request.rangeStart ≠ 0 := by
    intro hr hs
    rcases h with hno | ⟨reading, hm, hsame⟩
    · exact absurd hr (Bool.eq_false_iff.1 hno)
    · obtain ⟨-, rfl⟩ := hsame.reading.1 hs
      obtain ⟨line, -, hread⟩ := List.mem_map.1 hm
      exact readRange_suffix hread
  refine ⟨fun ⟨hr, hs, h₀⟩ => hsuffix hr hs h₀, fun fileSize range hresolve hpart => ?_⟩
  by_cases hr : request.hasRange = true
  · have hcovers := resolveRange_covers hr fileSize
      fun hs => Nat.pos_of_ne_zero fun h₀ => hsuffix hr hs (UInt64.toNat_inj.1 h₀)
    rw [hresolve] at hcovers
    exact ⟨hcovers.2.2.1, hcovers.2.2.2.1⟩
  · rw [resolveRange_whole (Bool.eq_false_iff.2 hr)] at hresolve
    cases hresolve
    cases hpart

/-- The range of a request is that of one of its `Range` lines exactly if its ranges are unmixed;
it then asks for no empty suffix, and the part that it yields of a file lies inside it. -/
theorem httpParseRequest_singleRange (raw requestLine : Bytes) (lines : List Bytes)
    (request : HttpRequest) (hp : httpParseRequest raw = some request)
    (hh : RequestHead raw requestLine lines) :
    SingleRange request lines ↔ Unmixed (rangeReadings lines) := by
  obtain ⟨r, rest, hl, ha⟩ := accepted_of_httpParseRequest hp
  obtain ⟨block, tail, hl', hblock⟩ := hh
  obtain ⟨-, rfl⟩ := hl.unique hl'
  rw [httpParseRequest_accepted ha hl, parseHeaders_lines, hblock.headerLines,
    Option.some.injEq] at hp
  have hzero : r.request.rangeFields = .zero := rfl
  have hfields : request.rangeFields = writtenFields (rangeReadings lines) := by
    rw [← hp]
    exact parseLines_writtenFields hzero lines
  rw [← yielded_iff, ← hfields]
  have hlines := yielded_lines request.rangeFields lines
  exact ⟨fun hs => hlines.2 hs.1, fun hy => ⟨hlines.1 hy, hy.resolves⟩⟩

def rangesHead (ranges : List Bytes) : Bytes :=
  ascii "GET /a HTTP/1.1" ++ (crlf ++ headText ranges)

theorem rangesHead_head {ranges : List Bytes} (h : ∀ line ∈ ranges, HeaderLine line) :
    RequestHead (rangesHead ranges) (ascii "GET /a HTTP/1.1") ranges := by
  have hl : ¬ crlf <:+: ascii "GET /a HTTP/1.1" := by decide
  exact ⟨headText ranges, crlf, ⟨rfl, hl⟩, rfl, h, .inl (List.prefix_refl _)⟩

def equalRanges : List Bytes := [ascii "Range: bytes=5-9", ascii "Range: bytes=5-"]

theorem httpParseRequest_singleRange_equal : ∃ request,
    httpParseRequest (rangesHead equalRanges) = some request ∧ SingleRange request equalRanges := by
  have hp : (httpParseRequest (rangesHead equalRanges)).isSome := by decide +kernel
  obtain ⟨request, hr⟩ := Option.isSome_iff_exists.1 hp
  have hlines : ∀ line ∈ equalRanges, HeaderLine line := by
    unfold HeaderLine
    decide
  have hreadings : rangeReadings equalRanges = [.closed 5 9, .opened 5] := by decide +kernel
  have hunmixed : Unmixed (rangeReadings equalRanges) := by
    rw [hreadings]
    refine .inl ⟨isSuffix_false_iff.1 (by decide), fun last hlast => ?_⟩
    cases hlast
    decide
  exact ⟨request, hr, (httpParseRequest_singleRange _ _ _ request hr
    (rangesHead_head hlines)).2 hunmixed⟩

def mixedRanges : List Bytes := [ascii "Range: bytes=-5", ascii "Range: bytes=0-"]

/-- A range from the first byte on is read as a suffix of no bytes if a suffix stands before it,
and of a file of ten bytes those from 10 to 9 are sent. -/
theorem mixedRanges_not_single : ∃ request,
    httpParseRequest (rangesHead mixedRanges) = some request ∧
      RequestHead (rangesHead mixedRanges) (ascii "GET /a HTTP/1.1") mixedRanges ∧
      ¬ SingleRange request mixedRanges ∧
      resolveRange request 10 = some ⟨10, 9, 0, true⟩ := by
  have hp : (httpParseRequest (rangesHead mixedRanges)).map (fun request => resolveRange request 10) =
      some (some ⟨10, 9, 0, true⟩) := by decide +kernel
  obtain ⟨request, hr, hresolve⟩ := Option.map_eq_some_iff.1 hp
  have hlines : ∀ line ∈ mixedRanges, HeaderLine line := by
    unfold HeaderLine
    decide
  refine ⟨request, hr, rangesHead_head hlines, fun hs => ?_, hresolve⟩
  have hbounds := (hs.2.2 10 _ hresolve rfl).1
  revert hbounds
  decide

end Httpd
