import Httpd.HeadRequests
import Httpd.HeaderFields

namespace Httpd
open Scan
set_option autoImplicit true

namespace RangeForm

/-- The first and the last byte asked for of a file of `n` bytes, if there are any. -/
def part (n : Nat) : RangeForm → Option (Nat × Nat)
  | closed first last =>
    if n = 0 ∨ n ≤ numeralValue first ∨ numeralValue last < numeralValue first then none
    else some (numeralValue first, min (numeralValue last) (n - 1))
  | opened first =>
    if n = 0 ∨ n ≤ numeralValue first then none else some (numeralValue first, n - 1)
  | suffix count => if n = 0 then none else some (n - min (numeralValue count) n, n - 1)

end RangeForm

def RangeLine (line : Bytes) (form : RangeForm) : Prop :=
  ∃ name pad unit pad', line = name ++ 58 :: (pad ++ (unit ++ form.text ++ pad')) ∧ 58 ∉ name ∧
    asciiCaseEqualBounded name (ascii "Range") = true ∧ BytesUnit unit ∧
    (∀ c ∈ pad, isSpaceOrTab c = true) ∧ ∀ c ∈ pad', isSpaceOrTab c = true

theorem RangeLine.parse {line : Bytes} {form : RangeForm} (h : RangeLine line form)
    (hw : form.WellFormed) (request : HttpRequest) :
    parseHeaderLine line request = (readRangeSpec form.text).apply request := by
  obtain ⟨name, pad, unit, pad', rfl, hcolon, hname, hu, hpad, hpad'⟩ := h
  have hbare := bare_range hu hw
  have hne : unit ++ form.text ≠ [] := List.append_ne_nil_of_right_ne_nil _ form.text_ne_nil
  have htrim : trimTrailingSpan (unit ++ form.text ++ pad') = unit ++ form.text :=
    hbare.trimTrailingSpan [] hne fun c hc => isTrimmed_of_blank (hpad' c hc)
  have hvalue : trimTrailingSpan (skipSpaces (pad ++ (unit ++ form.text ++ pad'))) =
      unit ++ form.text := by
    rw [skipSpaces, List.dropWhile_append_of_pos hpad]
    change trimTrailingSpan (skipSpaces _) = _
    rw [hbare.skipSpaces pad' hne, htrim]
  have hdrop : (name ++ 58 :: (pad ++ (unit ++ form.text ++ pad'))).drop (name.length + 1) =
      pad ++ (unit ++ form.text ++ pad') := by
    rw [← List.drop_drop, List.drop_left]
    rfl
  have hrange : RangeValue (unit ++ form.text) form.text := by
    refine ⟨[], unit, [], ?_, hu, List.forall_mem_nil _, List.forall_mem_nil _⟩
    rw [List.append_nil, List.nil_append]
  rw [← hrange.reading hw, ← parseRangeHeader_reading]
  simp only [parseHeaderLine, idxOf?_append hcolon, List.take_left, not_connection_of_range hname,
    hname, hdrop, hvalue, Bool.false_eq_true, if_false, if_true]

/-- The head of a request has one `Range` line, and this is its value. -/
def RangeHead (head : Bytes) (form : RangeForm) : Prop :=
  ∃ requestLine rest before line after, FirstLine head requestLine rest ∧
    (headerLines rest).1 = before ++ line :: after ∧ RangeLine line form ∧
    ∀ other ∈ before ++ after, ¬ NamesField (ascii "Range") other

theorem RangeHead.rangeFields {request : HttpRequest} (h : RangeHead head form)
    (hw : form.WellFormed) (hp : httpParseRequest head = some request) :
    (form.Fits → request.rangeFields = form.fields) ∧ (¬ form.Fits → request.hasRange = false) := by
  obtain ⟨requestLine, rest, before, line, after, hl, hlines, hline, hothers⟩ := h
  obtain ⟨r, rest', hl', ha⟩ := accepted_of_httpParseRequest hp
  obtain ⟨-, rfl⟩ := hl.unique hl'
  rw [httpParseRequest_accepted ha hl', parseHeaders_lines, hlines, parseLines_append,
    parseLines_cons, Option.some.injEq] at hp
  obtain ⟨hbefore, hafter⟩ := List.forall_mem_append.1 hothers
  have hzero : (parseLines r.request before).rangeFields = .zero :=
    parseLines_rangeFields hbefore r.request
  generalize parseLines r.request before = start at hp hzero
  have hfinal : request.rangeFields = (parseHeaderLine line start).rangeFields := by
    rw [← hp]
    exact parseLines_rangeFields hafter (parseHeaderLine line start)
  rw [hline.parse hw start] at hfinal
  obtain ⟨hfits, hlarge⟩ := readRangeSpec_form hw
  constructor
  · intro hf
    rw [hfinal, hfits hf]
    exact form.reading_fields hzero
  · intro hn
    have hno : start.hasRange = false := congrArg RangeFields.hasRange hzero
    exact (congrArg RangeFields.hasRange hfinal).trans ((hlarge hn).hasRange hno)

def partRange (part : Nat × Nat) : ByteRange where
  start := UInt64.ofNat part.1
  last := UInt64.ofNat part.2
  length := UInt64.ofNat (part.2 - part.1 + 1)
  isPartial := true

theorem partRange_eq {first last : Nat} (h : first ≤ last) :
    ByteRange.mk (UInt64.ofNat first) (UInt64.ofNat last)
      (UInt64.ofNat last - UInt64.ofNat first + 1) true = partRange (first, last) := by
  rw [partRange, ByteRange.mk.injEq]
  refine ⟨rfl, rfl, ?_, rfl⟩
  rw [UInt64.ofNat_add, UInt64.ofNat_sub h]
  rfl

theorem pred_eq_ofNat {size : UInt64} (h : size ≠ 0) :
    size - 1 = UInt64.ofNat (size.toNat - 1) ∧ 0 < size.toNat := by
  have hpos : 0 < size.toNat := Nat.pos_of_ne_zero fun h₀ => h (UInt64.toNat_inj.1 h₀)
  refine ⟨?_, hpos⟩
  rw [UInt64.ofNat_sub hpos, UInt64.ofNat_toNat]
  rfl

theorem RangeForm.part_zero (form : RangeForm) : form.part 0 = none := by
  cases form with
  | closed first last => rw [RangeForm.part, if_pos (.inl rfl)]
  | opened first => rw [RangeForm.part, if_pos (.inl rfl)]
  | suffix count => rw [RangeForm.part, if_pos rfl]

theorem toNat_ofNat_of_fits (h : n < 2 ^ 64) : (UInt64.ofNat n).toNat = n :=
  UInt64.toNat_ofNat_of_lt' h

section Resolve

variable {request : HttpRequest} {first last count : Bytes} {size : UInt64} (h₀ : size ≠ 0)
include h₀

theorem resolveRange_closed (ha : numeralValue first < 2 ^ 64) (hb : numeralValue last < 2 ^ 64)
    (h : request.rangeFields = (RangeForm.closed first last).fields) :
    resolveRange request size = ((RangeForm.closed first last).part size.toNat).map partRange := by
  obtain ⟨hpred, hpos⟩ := pred_eq_ofNat h₀
  have hne : size.toNat ≠ 0 := Nat.ne_of_gt hpos
  simp only [HttpRequest.rangeFields, RangeForm.fields, RangeFields.mk.injEq] at h
  obtain ⟨hhas, hsuffix, hend, hstart, hlast⟩ := h
  simp only [resolveRange, hhas, hsuffix, hend, hstart, hlast, if_neg h₀, RangeForm.part, hne,
    false_or, Bool.not_true, Bool.false_eq_true, if_false, if_true, ge_iff_le,
    UInt64.le_iff_toNat_le, UInt64.lt_iff_toNat_lt, toNat_ofNat_of_fits ha, toNat_ofNat_of_fits hb]
  generalize numeralValue first = a
  generalize numeralValue last = b
  by_cases hout : size.toNat ≤ a
  · rw [if_pos hout, if_pos (.inl hout)]
    rfl
  rw [if_neg hout]
  by_cases horder : b < a
  · rw [if_pos horder, if_pos (.inr horder)]
    rfl
  have hin : ¬ (size.toNat ≤ a ∨ b < a) := not_or.2 ⟨hout, horder⟩
  rw [if_neg horder, if_neg hin, Option.map_some]
  by_cases hclamp : size.toNat ≤ b
  · rw [if_pos hclamp, hpred, Nat.min_eq_right (Nat.le_trans (Nat.sub_le _ _) hclamp)]
    exact congrArg some (partRange_eq (Nat.le_sub_one_of_lt (Nat.not_le.1 hout)))
  · rw [if_neg hclamp, Nat.min_eq_left (Nat.le_sub_one_of_lt (Nat.not_le.1 hclamp))]
    exact congrArg some (partRange_eq (Nat.not_lt.1 horder))

theorem resolveRange_opened (ha : numeralValue first < 2 ^ 64)
    (h : request.rangeFields = (RangeForm.opened first).fields) :
    resolveRange request size = ((RangeForm.opened first).part size.toNat).map partRange := by
  obtain ⟨hpred, hpos⟩ := pred_eq_ofNat h₀
  have hne : size.toNat ≠ 0 := Nat.ne_of_gt hpos
  simp only [HttpRequest.rangeFields, RangeForm.fields, RangeFields.mk.injEq] at h
  obtain ⟨hhas, hsuffix, hend, hstart, -⟩ := h
  simp only [resolveRange, hhas, hsuffix, hend, hstart, if_neg h₀, RangeForm.part, hne, false_or,
    Bool.not_true, Bool.false_eq_true, if_false, ge_iff_le, UInt64.le_iff_toNat_le,
    UInt64.lt_iff_toNat_lt, toNat_ofNat_of_fits ha]
  generalize numeralValue first = a
  by_cases hout : size.toNat ≤ a
  · rw [if_pos hout, if_pos hout]
    rfl
  have hle : a ≤ size.toNat - 1 := Nat.le_sub_one_of_lt (Nat.not_le.1 hout)
  have hlast : (size - 1).toNat = size.toNat - 1 :=
    UInt64.toNat_sub_of_le size 1 (UInt64.le_iff_toNat_le.2 hpos)
  rw [if_neg hout, if_neg hout, hlast, if_neg (Nat.not_lt.2 hle),
    if_neg (Nat.not_le.2 (Nat.sub_lt hpos Nat.one_pos)), hpred]
  exact congrArg some (partRange_eq hle)

theorem resolveRange_suffix (hk : 1 ≤ numeralValue count) (ha : numeralValue count < 2 ^ 64)
    (h : request.rangeFields = (RangeForm.suffix count).fields) :
    resolveRange request size = ((RangeForm.suffix count).part size.toNat).map partRange := by
  obtain ⟨hpred, hpos⟩ := pred_eq_ofNat h₀
  have hne : size.toNat ≠ 0 := Nat.ne_of_gt hpos
  simp only [HttpRequest.rangeFields, RangeForm.fields, RangeFields.mk.injEq] at h
  obtain ⟨hhas, hsuffix, -, hstart, -⟩ := h
  simp only [resolveRange, hhas, hsuffix, hstart, if_neg h₀, RangeForm.part, if_neg hne,
    Bool.not_true, Bool.false_eq_true, if_false, if_true, ge_iff_le, UInt64.le_iff_toNat_le,
    toNat_ofNat_of_fits ha]
  generalize numeralValue count = k at hk ⊢
  by_cases hclamp : size.toNat ≤ k
  · rw [if_pos hclamp, Nat.min_eq_right hclamp, Nat.sub_self, hpred]
    exact congrArg some (partRange_eq (Nat.zero_le _))
  · have hle : size.toNat - k ≤ size.toNat - 1 := Nat.sub_le_sub_left hk _
    have hstart : size - UInt64.ofNat k = UInt64.ofNat (size.toNat - k) := by
      rw [UInt64.ofNat_sub (Nat.le_of_not_le hclamp), UInt64.ofNat_toNat]
    rw [if_neg hclamp, Nat.min_eq_left (Nat.le_of_not_le hclamp), hstart, hpred]
    exact congrArg some (partRange_eq hle)

end Resolve

/-- `resolve_range` finds the part that the form asks for, clamped to the file. -/
theorem resolveRange_form {form : RangeForm} {request : HttpRequest} (hw : form.WellFormed)
    (hf : form.Fits) (h : request.rangeFields = form.fields) (size : UInt64) :
    resolveRange request size = (form.part size.toNat).map partRange := by
  by_cases h₀ : size = 0
  · have hhas : request.hasRange = true := by
      cases form <;> exact congrArg RangeFields.hasRange h
    have hnone : form.part size.toNat = none := by
      rw [h₀]
      exact form.part_zero
    rw [hnone]
    simp only [resolveRange, hhas, Bool.not_true, Bool.false_eq_true, if_false, if_pos h₀,
      Option.map_none]
  · cases form with
    | closed first last => exact resolveRange_closed h₀ hf.1 hf.2 h
    | opened first => exact resolveRange_opened h₀ hf h
    | suffix count => exact resolveRange_suffix h₀ hw.2 hf h

theorem RangeForm.part_bounds {form : RangeForm} (hw : form.WellFormed)
    (h : form.part n = some (first, last)) : first ≤ last ∧ last < n := by
  cases form with
  | closed a b =>
    rw [RangeForm.part] at h
    split at h
    · cases h
    · rename_i hin
      rw [not_or, not_or] at hin
      cases h
      omega
  | opened a =>
    rw [RangeForm.part] at h
    split at h
    · cases h
    · rename_i hin
      rw [not_or] at hin
      cases h
      omega
  | suffix count =>
    have hk : 1 ≤ numeralValue count := hw.2
    rw [RangeForm.part] at h
    split at h
    · cases h
    · cases h
      omega

theorem partRange_toNat (h : first ≤ last) (hl : last < n) (hn : n < 2 ^ 64) :
    (partRange (first, last)).start.toNat = first ∧ (partRange (first, last)).last.toNat = last ∧
      (partRange (first, last)).length.toNat = last - first + 1 := by
  have hval : ∀ m, m ≤ n → (UInt64.ofNat m).toNat = m := fun m hm =>
    UInt64.toNat_ofNat_of_lt' (Nat.lt_of_le_of_lt hm hn)
  exact ⟨hval first (by omega), hval last (Nat.le_of_lt hl), hval (last - first + 1) (by omega)⟩

def messageStatus (message : Bytes) : Bytes :=
  ((message.dropWhile (· ≠ 32)).drop 1).takeWhile (· ≠ 32)

def messageBody (message : Bytes) : Option Bytes := (findHeaderEnd message).map message.drop

/-- The response that a range asks for of a file: the part it names, or the size of the file. -/
def RangeResponse (form : RangeForm) (file message : Bytes) : Prop :=
  match form.part file.length with
  | none =>
    messageStatus message = decimal 416 ∧
      messageField (ascii "Content-Range") message = some (ascii "bytes */" ++ decimal file.length)
  | some (first, last) =>
    messageStatus message = decimal 206 ∧
      messageField (ascii "Content-Range") message =
        some (ascii "bytes " ++ decimal first ++ 45 :: decimal last ++ 47 :: decimal file.length) ∧
      messageField (ascii "Content-Length") message = some (decimal (last - first + 1)) ∧
      messageBody message = some ((file.drop first).take (last - first + 1))

def WholeResponse (file message : Bytes) : Prop :=
  messageStatus message = decimal 200 ∧
    messageField (ascii "Content-Length") message = some (decimal file.length) ∧
    messageBody message = some file

theorem messageStatus_headerText (request : Option HttpRequest) (status : Nat) (reason : Bytes)
    (fields : List (Bytes × Bytes)) (body : Bytes) :
    messageStatus (headerText request status reason fields ++ body) = decimal status := by
  have hversion : 32 ∉ responseVersion request := by
    unfold responseVersion
    split
    · split <;> decide
    · decide
  have hspace : 32 ∉ decimal status := fun h => absurd (decimal_digits h).1 (by decide)
  simp only [messageStatus, headerText, headText_cons, List.append_assoc, List.cons_append,
    dropWhile_append_stop hversion, List.drop_succ_cons, List.drop_zero, takeWhile_append_stop hspace]

theorem messageBody_headerText {fields : List (Bytes × Bytes)} (hr : cr ∉ reason)
    (hf : ∀ f ∈ fields, CleanField f) (body : Bytes) :
    messageBody (headerText request status reason fields ++ body) = some body := by
  rw [messageBody, findHeaderEnd_headerText hr hf, Option.map_some, List.drop_left]

theorem Answer.Announces.message {answer : Answer} {reason : Bytes}
    {fields : List (Bytes × Bytes)} (h : answer.Announces keepAlive request reason fields)
    (body : Bytes) :
    messageStatus (answer.head ++ body) = decimal answer.status ∧
      messageBody (answer.head ++ body) = some body ∧
      ∀ name value, 58 ∉ name → fields.lookup name = some value →
        messageField name (answer.head ++ body) = some value := by
  have hclean : ∀ f ∈ fields, CleanField f := fun f hf => (h.plain f hf).clean
  rw [h.head]
  exact ⟨messageStatus_headerText _ _ _ _ _, messageBody_headerText h.reason.1 hclean body,
    fun name value hn hv => messageField_headerText h.reason.1 hclean hn hv body⟩

section FileAnswer

variable {os : Os} {request : HttpRequest} {info : FileInfo} {file : Bytes}

theorem fileAnswer_part {form : RangeForm} (keepAlive : Bool) (hw : form.WellFormed)
    (hf : form.Fits) (hrange : request.rangeFields = form.fields)
    (hm : PlainValue info.mimeType) (hopen : os.fopen info.resolvedPath = some file)
    (hsize : info.size.toNat = file.length)
    (hseek : ∀ offset, offset.toNat < file.length → os.fseeko offset = true) :
    RangeResponse form file ((fileAnswer os request info keepAlive).head ++
      (fileAnswer os request info keepAlive).body.bytes) := by
  have hresolve := resolveRange_form hw hf hrange info.size
  rw [RangeResponse, ← hsize]
  cases hpart : form.part info.size.toNat with
  | none =>
    rw [hpart, Option.map_none] at hresolve
    have hanswer : fileAnswer os request info keepAlive =
        rangeNotSatisfiableAnswer request info.size keepAlive := by
      simp only [fileAnswer, hopen, hresolve]
    have ha := rangeNotSatisfiableAnswer_announces request info.size keepAlive
    rw [hanswer]
    obtain ⟨hstatus, _, hfield⟩ := ha.message (Body.bytes _)
    exact ⟨hstatus, hfield _ _ (by decide) rfl⟩
  | some part =>
    obtain ⟨first, last⟩ := part
    obtain ⟨hle, hlast⟩ := RangeForm.part_bounds hw hpart
    obtain ⟨hstart, hend, hlength⟩ := partRange_toNat hle hlast info.size.toNat_lt
    have hpartial : (partRange (first, last)).isPartial = true := rfl
    rw [hpart, Option.map_some] at hresolve
    simp only
    rw [← hlength]
    generalize partRange (first, last) = range at *
    subst hstart hend
    have hinside : os.fseeko range.start = true := by
      apply hseek
      rw [← hsize]
      exact Nat.lt_of_le_of_lt hle hlast
    have hanswer : fileAnswer os request info keepAlive =
        rangeAnswer os request info keepAlive file range := by
      simp only [fileAnswer, hopen, hresolve, hinside, Bool.not_true, Bool.false_eq_true, and_false,
        if_false]
    obtain ⟨reason, ha⟩ := rangeAnswer_announces os hm hresolve keepAlive file
    rw [hanswer]
    obtain ⟨hstatus, hbody, hfield⟩ := ha.message (Body.bytes _)
    have hfields : fileFields info range keepAlive = _ := if_pos hpartial
    rw [hfields] at hfield
    refine ⟨hstatus.trans ?_, hfield _ _ (by decide) rfl, hfield _ _ (by decide) rfl,
      hbody.trans ?_⟩
    · rw [rangeAnswer, if_pos hpartial]
    · simp only [rangeAnswer, if_pos hpartial]
      rfl

theorem fileAnswer_whole (keepAlive : Bool) (hrange : request.hasRange = false)
    (hm : PlainValue info.mimeType) (hopen : os.fopen info.resolvedPath = some file)
    (hsize : info.size.toNat = file.length) :
    let message := (fileAnswer os request info keepAlive).head ++
      (fileAnswer os request info keepAlive).body.bytes
    WholeResponse file message ∧
      messageField (ascii "Content-Type") message = some info.mimeType := by
  have hresolve : resolveRange request info.size =
      some ⟨0, if info.size = 0 then 0 else info.size - 1, info.size, false⟩ := by
    simp only [resolveRange, hrange, Bool.not_false, if_true]
  have hanswer : fileAnswer os request info keepAlive = rangeAnswer os request info keepAlive file
      ⟨0, if info.size = 0 then 0 else info.size - 1, info.size, false⟩ := by
    simp only [fileAnswer, hopen, hresolve, Bool.false_eq_true, false_and, if_false]
  obtain ⟨reason, ha⟩ := rangeAnswer_announces os hm hresolve keepAlive file
  rw [hanswer]
  obtain ⟨hstatus, hbody, hfield⟩ := ha.message (Body.bytes _)
  refine ⟨⟨hstatus, ?_, ?_⟩, hfield _ _ (by decide) rfl⟩
  · apply hfield _ _ (by decide)
    rw [← hsize]
    rfl
  · rw [hbody]
    exact congrArg some (List.take_of_length_le (Nat.le_of_eq hsize.symm))

end FileAnswer

/-- A `GET` of a regular file with one range whose numbers fit `size_t` gets the part that the
range names, or learns the size of the file; a range with a larger number is not regarded. -/
theorem rangeRequest_response (c : Connection) (k : Nat) (s : ReadState)
    (outcomes : List SendOutcome) (request : HttpRequest) (requestLine head : Bytes)
    (form : RangeForm) (info : FileInfo) (file : Bytes)
    (hr : (readNextRequest s).outcome = .request request requestLine head)
    (hget : request.method = .get) (hhead : RangeHead head form) (hw : form.WellFormed)
    (hinfo : fileStatPath (c.os k) c.docRoot request.path.str = .ok info)
    (hkind : info.kind = .regular) (hopen : (c.os k).fopen info.resolvedPath = some file)
    (hsize : info.size.toNat = file.length)
    (hseek : ∀ offset, offset.toNat < file.length → (c.os k).fseeko offset = true)
    (h : Reliable outcomes) :
    (form.Fits → RangeResponse form file (wire (clientPass c k s outcomes).1.events)) ∧
      (¬ form.Fits → WholeResponse file (wire (clientPass c k s outcomes).1.events)) := by
  have hm : request.method ≠ .unsupported := by
    rw [hget]
    nofun
  have hbody : (!sendBody (some request)) = false := by
    rw [headOnly_iff, hget]
    rfl
  have hanswer : answer (c.os k) c.docRoot request (httpShouldKeepAlive request) =
      fileAnswer (c.os k) request info (httpShouldKeepAlive request) := by
    simp only [answer, if_neg hm, hinfo, hkind]
  have hsound := answer_sound (c.os k) c.docRoot request (httpShouldKeepAlive request)
  have hthere := fileAnswer_available (c.os k) request info (httpShouldKeepAlive request)
    fun other hother => by
      rw [hopen] at hother
      cases hother
      exact Nat.le_of_eq hsize
  rw [hanswer] at hsound
  have hpass := clientPass_request c k outcomes hr
  simp only [hbody, hanswer] at hpass
  have hb : false = true ∨ (fileAnswer (c.os k) request info
      (httpShouldKeepAlive request)).body.Available := .inr hthere
  obtain ⟨_, hwire, _⟩ := hsound.full hb h
  rw [if_neg Bool.false_ne_true] at hwire
  obtain ⟨hfits, hlarge⟩ := hhead.rangeFields hw (readNextRequest_head hr).2.1
  have hmime := fileStatPath_mimeType hinfo
  rw [hpass, wire_append, wire_of_receives (readNextRequest_events s), List.nil_append, hwire]
  exact ⟨fun hf => fileAnswer_part _ hw hf (hfits hf) hmime hopen hsize hseek,
    fun hn => (fileAnswer_whole _ (hlarge hn) hmime hopen hsize).1⟩

def rangeHead (form : RangeForm) : Bytes :=
  getPage.bytes ++ (crlf ++ (ascii "Range: bytes=" ++ form.text ++ (crlf ++ crlf)))

theorem rangeHead_form {form : RangeForm}
    (hlines : (headerLines (ascii "Range: bytes=" ++ form.text ++ (crlf ++ crlf))).1 =
      [ascii "Range: bytes=" ++ form.text]) : RangeHead (rangeHead form) form := by
  have hline : RangeLine (ascii "Range: bytes=" ++ form.text) form := by
    have hunit : BytesUnit (ascii "bytes=") := Eq.refl true
    refine ⟨ascii "Range", [32], ascii "bytes=", [], ?_, by decide, by decide, hunit,
      List.forall_mem_singleton.2 rfl, nofun⟩
    rw [List.append_nil]
    rfl
  exact ⟨getPage.bytes, _, [], _, [], ⟨rfl, by decide⟩, hlines, hline, nofun⟩

theorem rangeRequest_response_page :
    RangeResponse (.suffix (ascii "99")) (ascii "static") (wire (clientPass pageConnection 0
      (.initial [.data 71 ((rangeHead (.suffix (ascii "99"))).drop 1)]) [.took 20]).1.events) := by
  have htaken : (readNextRequest (.initial
      [.data 71 ((rangeHead (.suffix (ascii "99"))).drop 1)])).outcome.consumedBytes =
        rangeHead (.suffix (ascii "99")) := by decide +kernel
  obtain ⟨request, requestLine, hr⟩ := readNextRequest_taken (by decide) htaken
  have hparse := (readNextRequest_head hr).2.1
  have hmethod : (httpParseRequest (rangeHead (.suffix (ascii "99")))).map HttpRequest.method =
      some .get := by decide +kernel
  have hpath : (httpParseRequest (rangeHead (.suffix (ascii "99")))).map (·.path.str) =
      some (ascii "/index.html") := by decide +kernel
  rw [hparse, Option.map_some, Option.some.injEq] at hmethod hpath
  have hinfo : fileStatPath pageOs (ascii "/srv/www") (ascii "/index.html") =
      .ok ⟨ascii "/srv/www/index.html", .regular, 6, ascii "text/html"⟩ := by decide +kernel
  rw [← hpath] at hinfo
  have hw : RangeForm.WellFormed (.suffix (ascii "99")) := by
    refine ⟨⟨?_, ?_⟩, ?_⟩ <;> decide +kernel
  exact (rangeRequest_response pageConnection 0 _ [.took 20] request requestLine _
    (.suffix (ascii "99")) _ (ascii "static") hr hmethod (rangeHead_form (by decide +kernel)) hw hinfo
    rfl (by decide) (by decide) (fun _ _ => rfl)
    (fun o ho => .inl ⟨20, List.mem_singleton.1 ho⟩)).1 (by decide : numeralValue _ < 2 ^ 64)

/-- A range that ends at `2 ^ 64` is in the page for its first six bytes; the answer is the page. -/
theorem largeRange_not_clamped :
    let form : RangeForm := .closed (ascii "0") (ascii "18446744073709551616")
    let message := wire (clientPass pageConnection 0
      (.initial [.data 71 ((rangeHead form).drop 1)]) []).1.events
    RangeHead (rangeHead form) form ∧ form.WellFormed ∧
      (readNextRequest (.initial [.data 71 ((rangeHead form).drop 1)])).outcome.consumedBytes =
        rangeHead form ∧
      form.part (ascii "static").length = some (0, 5) ∧ messageStatus message = decimal 200 ∧
      ¬ RangeResponse form (ascii "static") message := by
  intro form message
  have hpart : form.part (ascii "static").length = some (0, 5) := by decide +kernel
  have hstatus : messageStatus message = decimal 200 := by decide +kernel
  refine ⟨rangeHead_form (by decide +kernel), ?_, by decide +kernel, hpart, hstatus, ?_⟩
  · refine ⟨⟨?_, ?_⟩, ⟨?_, ?_⟩⟩ <;> decide +kernel
  · intro h
    rw [RangeResponse, hpart, hstatus] at h
    exact absurd h.1 (by decide)

end Httpd
