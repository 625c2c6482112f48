import Httpd.RangeHeader
import Httpd.RequestLanguage

namespace Httpd
open Scan
set_option autoImplicit true

theorem FirstLine.unique (h : FirstLine raw line rest) (h' : FirstLine raw line' rest') :
    line = line' ∧ rest = rest' := by
  have hlen : line.length = line'.length := Option.some.inj (h.findCrlf.symm.trans h'.findCrlf)
  have hbytes := h.bytes.symm.trans h'.bytes
  obtain ⟨hline, hrest⟩ := List.append_inj hbytes hlen
  exact ⟨hline, List.append_cancel_left hrest⟩

/-- The first line of a request and its header lines. -/
def RequestHead (raw requestLine : Bytes) (lines : List Bytes) : Prop :=
  ∃ block tail, FirstLine raw requestLine block ∧ HeaderBlock block lines tail

/-- Whatever has a line ended by CRLF begins with such a head. -/
theorem exists_requestHead {raw : Bytes} (h : crlf <:+: raw) :
    ∃ requestLine lines, RequestHead raw requestLine lines := by
  obtain ⟨i, hi⟩ := exists_firstOccurrence h
  obtain ⟨lines, tail, hblock⟩ := exists_headerBlock (raw.drop (i + 2))
  exact ⟨raw.take i, lines, _, tail, firstLine_of_findCrlf hi, hblock⟩

def parseLines (request : HttpRequest) (lines : List Bytes) : HttpRequest :=
  lines.foldl (fun request line => parseHeaderLine line request) request

theorem parseLines_cons (request : HttpRequest) (line : Bytes) (lines : List Bytes) :
    parseLines request (line :: lines) = parseLines (parseHeaderLine line request) lines := rfl

theorem parseLines_append (request : HttpRequest) (lines lines' : List Bytes) :
    parseLines request (lines ++ lines') = parseLines (parseLines request lines) lines' :=
  List.foldl_append

theorem parseHeaders_lines (headers : Bytes) (request : HttpRequest) :
    parseHeaders headers request = parseLines request (headerLines headers).1 :=
  parseHeaders_foldl headers request

/-- A header line of this name, which ends at the first colon of the line. -/
def NamesField (name line : Bytes) : Prop :=
  ∃ colon, line.idxOf? 58 = some colon ∧ asciiCaseEqualBounded (line.take colon) name = true

instance (name : Bytes) : DecidablePred (NamesField name) := fun line =>
  decidable_of_iff
    ((line.idxOf? 58).any (fun colon => asciiCaseEqualBounded (line.take colon) name) = true)
    (Option.any_eq_true _ _)

def fieldLines (name : Bytes) (lines : List Bytes) : List Bytes :=
  lines.filter fun line => NamesField name line

theorem fieldLines_cons {name line : Bytes} (h : NamesField name line) (lines : List Bytes) :
    fieldLines name (line :: lines) = line :: fieldLines name lines :=
  List.filter_cons_of_pos (decide_eq_true h)

theorem fieldLines_skip {name line : Bytes} (h : ¬ NamesField name line) (lines : List Bytes) :
    fieldLines name (line :: lines) = fieldLines name lines :=
  List.filter_cons_of_neg fun ht => h (of_decide_eq_true ht)

theorem namesField_of_mem {name line : Bytes} {lines : List Bytes}
    (h : line ∈ fieldLines name lines) : line ∈ lines ∧ NamesField name line :=
  ⟨(List.mem_filter.1 h).1, of_decide_eq_true (List.mem_filter.1 h).2⟩

def fieldValue (line : Bytes) : Bytes :=
  trimTrailingSpan (skipSpaces (line.drop ((line.idxOf? 58).getD line.length + 1)))

theorem not_connection_of_range {name : Bytes}
    (h : asciiCaseEqualBounded name (ascii "Range") = true) :
    asciiCaseEqualBounded name (ascii "Connection") = false := by
  have hlen := asciiCaseEqualBounded_length h
  apply if_pos
  rw [hlen]
  decide

theorem not_range_of_connection {line : Bytes} (h : NamesField (ascii "Connection") line) :
    ¬ NamesField (ascii "Range") line := by
  rintro ⟨colon, hcolon, hrange⟩
  obtain ⟨colon', hcolon', hconnection⟩ := h
  cases hcolon.symm.trans hcolon'
  rw [not_connection_of_range hrange] at hconnection
  cases hconnection

theorem parseHeaderLine_connection {line : Bytes} (h : NamesField (ascii "Connection") line)
    (request : HttpRequest) : parseHeaderLine line request =
      { request with connection := request.connection.copyBounded (fieldValue line) } := by
  obtain ⟨colon, hcolon, hname⟩ := h
  simp only [parseHeaderLine, fieldValue, hcolon, hname, if_true, Option.getD_some]

theorem parseHeaderLine_range {line : Bytes} (h : NamesField (ascii "Range") line)
    (request : HttpRequest) :
    parseHeaderLine line request = (readRange (fieldValue line)).apply request := by
  obtain ⟨colon, hcolon, hname⟩ := h
  simp only [parseHeaderLine, fieldValue, hcolon, not_connection_of_range hname, hname,
    Bool.false_eq_true, if_false, if_true, Option.getD_some, parseRangeHeader_reading]

theorem parseHeaderLine_other {line : Bytes} (hc : ¬ NamesField (ascii "Connection") line)
    (hr : ¬ NamesField (ascii "Range") line) (request : HttpRequest) :
    parseHeaderLine line request = request := by
  rw [parseHeaderLine]
  cases hcolon : line.idxOf? 58 with
  | none => rfl
  | some colon =>
    have hconnection : ¬ asciiCaseEqualBounded (line.take colon) (ascii "Connection") = true :=
      fun hname => hc ⟨colon, hcolon, hname⟩
    have hrange : ¬ asciiCaseEqualBounded (line.take colon) (ascii "Range") = true :=
      fun hname => hr ⟨colon, hcolon, hname⟩
    simp only [if_neg hconnection, if_neg hrange]

theorem parseHeaderLine_rangeFields {line : Bytes} (h : ¬ NamesField (ascii "Range") line)
    (request : HttpRequest) : (parseHeaderLine line request).rangeFields = request.rangeFields := by
  by_cases hc : NamesField (ascii "Connection") line
  · rw [parseHeaderLine_connection hc]
    rfl
  · rw [parseHeaderLine_other hc h]

theorem parseLines_rangeFields {lines : List Bytes}
    (h : ∀ line ∈ lines, ¬ NamesField (ascii "Range") line) (request : HttpRequest) :
    (parseLines request lines).rangeFields = request.rangeFields := by
  induction lines generalizing request with
  | nil => rfl
  | cons line lines ih =>
    obtain ⟨hline, hlines⟩ := List.forall_mem_cons.1 h
    rw [parseLines_cons, ih hlines, parseHeaderLine_rangeFields hline]

/-- The two recognised headers write to different fields. -/
theorem parseHeaderLine_comm {line line' : Bytes} (hc : NamesField (ascii "Connection") line)
    (hr : NamesField (ascii "Range") line') (request : HttpRequest) :
    parseHeaderLine line' (parseHeaderLine line request) =
      parseHeaderLine line (parseHeaderLine line' request) := by
  rw [parseHeaderLine_connection hc, parseHeaderLine_connection hc, parseHeaderLine_range hr,
    parseHeaderLine_range hr]
  cases readRange (fieldValue line') <;> rfl

theorem parseLines_comm {lines : List Bytes} {line' : Bytes}
    (hc : ∀ line ∈ lines, NamesField (ascii "Connection") line)
    (hr : NamesField (ascii "Range") line') (request : HttpRequest) :
    parseHeaderLine line' (parseLines request lines) =
      parseLines (parseHeaderLine line' request) lines := by
  induction lines generalizing request with
  | nil => rfl
  | cons line lines ih =>
    obtain ⟨hline, hlines⟩ := List.forall_mem_cons.1 hc
    rw [parseLines_cons, parseLines_cons, ih hlines, parseHeaderLine_comm hline hr]

/-- A block does what its `Connection` lines do and then what its `Range` lines do. -/
theorem parseLines_fields (request : HttpRequest) (lines : List Bytes) :
    parseLines request lines =
      parseLines (parseLines request (fieldLines (ascii "Connection") lines))
        (fieldLines (ascii "Range") lines) := by
  induction lines generalizing request with
  | nil => rfl
  | cons line lines ih =>
    rw [parseLines_cons, ih]
    by_cases hc : NamesField (ascii "Connection") line
    · have hr := not_range_of_connection hc
      rw [fieldLines_cons hc, fieldLines_skip hr, parseLines_cons]
    rw [fieldLines_skip hc]
    by_cases hr : NamesField (ascii "Range") line
    · have hall : ∀ other ∈ fieldLines (ascii "Connection") lines,
          NamesField (ascii "Connection") other := fun _ hm => (namesField_of_mem hm).2
      rw [fieldLines_cons hr, parseLines_cons, parseLines_comm hall hr]
    · rw [fieldLines_skip hr, parseHeaderLine_other hc hr]

end Httpd
