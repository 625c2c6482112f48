import Httpd.ParseOutcome
import Httpd.ScannerMemory

namespace Httpd
open CheckedMemory Scan
set_option autoImplicit true

/-- A request as memory: arrays of bytes, which may hold anything. -/
structure RequestMemory where
  methodText : Bytes
  path : Bytes
  versionText : Bytes
  connection : Bytes
  method : HttpMethod
  version : HttpVersion
  keepAliveRequested : Bool
  hasRange : Bool
  rangeIsSuffix : Bool
  rangeEndProvided : Bool
  rangeStart : UInt64
  rangeEnd : UInt64
  deriving DecidableEq

def HttpRequest.memory (request : HttpRequest) : RequestMemory where
  methodText := request.methodText.bytes
  path := request.path.bytes
  versionText := request.versionText.bytes
  connection := request.connection.bytes
  method := request.method
  version := request.version
  keepAliveRequested := request.keepAliveRequested
  hasRange := request.hasRange
  rangeIsSuffix := request.rangeIsSuffix
  rangeEndProvided := request.rangeEndProvided
  rangeStart := request.rangeStart
  rangeEnd := request.rangeEnd

/-- What `parse_range_header` does behind the unit. -/
def parseRangeSpecChecked (raw : Bytes) (rangeSpec valueEnd : Nat) (request : RequestMemory) :
    Checked RequestMemory := do
  let specLen ← sub valueEnd rangeSpec
  let comma ← memchr raw 44 specLen rangeSpec
  if comma.isSome then .ok request
  else do
    let specLen ← sub valueEnd rangeSpec
    let dash ← memchr raw 45 specLen rangeSpec
    match dash with
    | none => .ok request
    | some dash =>
      let afterDash ← pointer raw (dash + 1)
      if dash = rangeSpec then do
        let parsed ← parseSizeTokenChecked raw afterDash valueEnd
        match parsed with
        | none => .ok request
        | some parsed =>
          if parsed = 0 then .ok request
          else .ok { request with hasRange := true, rangeIsSuffix := true, rangeStart := parsed }
      else do
        let parsed ← parseSizeTokenChecked raw rangeSpec dash
        match parsed with
        | none => .ok request
        | some parsed =>
          let request : RequestMemory := { request with hasRange := true, rangeStart := parsed }
          if afterDash = valueEnd then .ok request
          else do
            let parsed ← parseSizeTokenChecked raw afterDash valueEnd
            match parsed with
            | none => .ok { request with hasRange := false }
            | some parsed => .ok { request with rangeEndProvided := true, rangeEnd := parsed }

def parseRangeHeaderChecked (raw : Bytes) (value valueLen : Nat) (request : RequestMemory) :
    Checked RequestMemory := do
  let valueStop ← pointer raw (value + valueLen)
  let valueEnd ← trimTrailingSpanChecked raw value valueStop
  let value ← skipSpacesChecked raw value valueEnd
  let remaining ← sub valueEnd value
  if remaining < 6 then .ok request
  else do
    let unit ← asciiCaseEqualBoundedChecked raw value 6 (ascii "bytes=")
    if !unit then .ok request
    else do
      let rangeSpec ← pointer raw (value + 6)
      if rangeSpec ≥ valueEnd then .ok request
      else parseRangeSpecChecked raw rangeSpec valueEnd request

/-- What `parse_headers` does with a line once its end is found. -/
def parseHeaderLineChecked (raw : Bytes) (line lineEnd lineLen : Nat) (request : RequestMemory) :
    Checked RequestMemory := do
  let colon ← memchr raw 58 lineLen line
  match colon with
  | none => .ok request
  | some colon =>
    let afterColon ← pointer raw (colon + 1)
    let value ← skipSpacesChecked raw afterColon lineEnd
    let valueEnd ← trimTrailingSpanChecked raw value lineEnd
    let nameLen ← sub colon line
    let isConnection ← asciiCaseEqualBoundedChecked raw line nameLen (ascii "Connection")
    if isConnection then do
      let valueLen ← sub valueEnd value
      let connection ←
        copyBoundedChecked raw request.connection httpConnectionTextMax value valueLen
      .ok { request with connection := connection }
    else do
      let nameLen ← sub colon line
      let isRange ← asciiCaseEqualBoundedChecked raw line nameLen (ascii "Range")
      if isRange then do
        let valueLen ← sub valueEnd value
        parseRangeHeaderChecked raw value valueLen request
      else .ok request

def parseHeadersChecked (raw : Bytes) (headers headersLen : Nat) :
    Nat → Nat → RequestMemory → Checked RequestMemory
  | 0, _, _ => .error .endless
  | fuel + 1, offset, request =>
    if offset < headersLen then do
      let line ← pointer raw (headers + offset)
      let remaining ← sub headersLen offset
      let lineEnd ← findCrlfChecked raw line remaining
      match lineEnd with
      | none => .ok request
      | some lineEnd =>
        let lineLen ← sub lineEnd line
        if lineLen = 0 then .ok request
        else do
          let request ← parseHeaderLineChecked raw line lineEnd lineLen request
          parseHeadersChecked raw headers headersLen fuel (offset + lineLen + 2) request
    else .ok request

def parseMethodChecked (methodText : Bytes) : Checked HttpMethod := do
  let isGet ← strcmpChecked methodText (ascii "GET")
  if isGet then .ok .get
  else do
    let isHead ← strcmpChecked methodText (ascii "HEAD")
    if isHead then .ok .head else .ok .unsupported

def parseVersionChecked (versionText : Bytes) : Checked HttpVersion := do
  let is10 ← strcmpChecked versionText (ascii "HTTP/1.0")
  if is10 then .ok .http10
  else do
    let is11 ← strcmpChecked versionText (ascii "HTTP/1.1")
    if is11 then .ok .http11 else .ok .unknown

def keepAliveChecked (request : RequestMemory) : Checked RequestMemory :=
  if request.version = .http11 then do
    let close ← asciiCaseEqualChecked request.connection (ascii "close")
    .ok { request with keepAliveRequested := !close }
  else do
    let keepAlive ← asciiCaseEqualChecked request.connection (ascii "keep-alive")
    .ok { request with keepAliveRequested := keepAlive }

def pathLenChecked (targetStart targetLen : Nat) : Option Nat → Checked Nat
  | none => .ok targetLen
  | some queryStart => sub queryStart targetStart

/-- What `http_parse_request` does once it has found the two spaces of the request line. -/
def parseRequestLineChecked (raw : Bytes) (lineEnd firstSpace secondSpace : Nat)
    (request : RequestMemory) : Checked (HttpParseResult × RequestMemory) := do
  let methodLen ← sub firstSpace 0
  let afterTarget ← sub lineEnd secondSpace
  let versionLen ← sub afterTarget 1
  if methodLen = 0 ∨ versionLen = 0 then .ok (.badRequest, request)
  else do
    let targetStart ← pointer raw (firstSpace + 1)
    let afterSpace ← sub secondSpace firstSpace
    let targetLen ← sub afterSpace 1
    let queryStart ← memchr raw 63 targetLen targetStart
    let pathLen ← pathLenChecked targetStart targetLen queryStart
    if pathLen = 0 then .ok (.badRequest, request)
    else do
      let methodText ← copyBoundedChecked raw request.methodText httpMethodTextMax 0 methodLen
      let path ← copyBoundedChecked raw request.path httpPathMax targetStart pathLen
      let versionStart ← pointer raw (secondSpace + 1)
      let versionText ←
        copyBoundedChecked raw request.versionText httpVersionTextMax versionStart versionLen
      let method ← parseMethodChecked methodText
      let version ← parseVersionChecked versionText
      let request : RequestMemory := { request with
        methodText := methodText
        path := path
        versionText := versionText
        method := method
        version := version }
      if request.version = .unknown then .ok (.badRequest, request)
      else do
        let headers ← pointer raw (lineEnd + 2)
        let afterLine ← sub raw.length lineEnd
        let headersLen ← sub afterLine 2
        let request ← parseHeadersChecked raw headers headersLen (headersLen + 1) 0 request
        let request ← keepAliveChecked request
        .ok (.ok, request)

/-- `http_parse_request` on the bytes that it is given and nothing behind them. -/
def httpParseRequestChecked (raw : Bytes) (request : RequestMemory) :
    Checked (HttpParseResult × RequestMemory) :=
  if raw.length = 0 then .ok (.badRequest, request)
  else do
    -- `memset` overwrites whatever the memory held
    let request := HttpRequest.zero.memory
    let lineEnd ← findCrlfChecked raw 0 raw.length
    match lineEnd with
    | none => .ok (.badRequest, request)
    | some lineEnd =>
      let requestLineLen ← sub lineEnd 0
      if requestLineLen ≥ raw.length then .ok (.badRequest, request)
      else do
        let firstSpace ← memchr raw 32 requestLineLen 0
        match firstSpace with
        | none => .ok (.badRequest, request)
        | some firstSpace =>
          let afterMethod ← pointer raw (firstSpace + 1)
          let passed ← sub afterMethod 0
          let remaining ← sub requestLineLen passed
          let secondSpace ← memchr raw 32 remaining afterMethod
          match secondSpace with
          | none => .ok (.badRequest, request)
          | some secondSpace =>
            if secondSpace = afterMethod then .ok (.badRequest, request)
            else parseRequestLineChecked raw lineEnd firstSpace secondSpace request

section Headers

variable {raw : Bytes}

theorem parseRangeSpecChecked_ok {rangeSpec valueEnd : Nat} (h : rangeSpec ≤ valueEnd)
    (hs : valueEnd ≤ raw.length) (request : HttpRequest) :
    parseRangeSpecChecked raw rangeSpec valueEnd request.memory =
      .ok ((readRangeSpec (span raw rangeSpec valueEnd)).apply request).memory := by
  rw [parseRangeSpecChecked, readRangeSpec, sub_ok h, ok_bind, memchr_span h hs, ok_bind,
    Option.isSome_map]
  by_cases hcomma : 44 ∈ span raw rangeSpec valueEnd
  · rw [if_pos hcomma, if_pos (List.isSome_idxOf?.2 hcomma)]
    rfl
  rw [if_neg hcomma, if_neg fun h => hcomma (List.isSome_idxOf?.1 h), ok_bind, memchr_span h hs,
    ok_bind]
  cases hdash : (span raw rangeSpec valueEnd).idxOf? 45 with
  | none => rfl
  | some dash =>
    have hlt := idxOf?_span hs hdash
    have hafter : pointer raw (rangeSpec + dash + 1) = .ok (rangeSpec + dash + 1) :=
      pointer_ok (Nat.le_trans hlt hs)
    simp only [Option.map_some]
    rw [hafter, ok_bind, parseSizeTokenChecked_ok hs]
    cases dash with
    | zero =>
      rw [if_pos (Nat.add_zero rangeSpec), ok_bind]
      simp only [span_drop, Nat.add_zero]
      cases parseSizeToken (span raw (rangeSpec + 1) valueEnd) with
      | none => rfl
      | some count =>
        by_cases h₀ : count = 0
        · simp only [if_pos h₀]
          rfl
        · simp only [if_neg h₀]
          rfl
    | succ dash =>
      have hne : ¬ rangeSpec + (dash + 1) = rangeSpec := by omega
      have hend : rangeSpec + (dash + 1) + 1 = valueEnd ↔
          span raw (rangeSpec + (dash + 1) + 1) valueEnd = [] := by
        rw [← List.length_eq_zero_iff, span_length _ hs]
        omega
      rw [if_neg hne, parseSizeTokenChecked_ok (by omega), ok_bind]
      simp only [span_take (dash + 1) (Nat.le_of_lt hlt), span_drop]
      cases parseSizeToken (span raw rangeSpec (rangeSpec + (dash + 1))) with
      | none => rfl
      | some start =>
        simp only [hend, ← Nat.add_assoc rangeSpec (dash + 1) 1]
        by_cases hempty : span raw (rangeSpec + (dash + 1) + 1) valueEnd = []
        · rw [if_pos hempty, if_pos hempty]
          rfl
        · rw [if_neg hempty, if_neg hempty, ok_bind]
          cases parseSizeToken (span raw (rangeSpec + (dash + 1) + 1) valueEnd) <;> rfl

theorem parseRangeHeaderChecked_ok {value valueLen : Nat} (hs : value + valueLen ≤ raw.length)
    (request : HttpRequest) :
    parseRangeHeaderChecked raw value valueLen request.memory =
      .ok (parseRangeHeader (span raw value (value + valueLen)) request).memory := by
  obtain ⟨valueEnd, hend, hle, hstop, htrim⟩ :=
    trimTrailingSpanChecked_ok (Nat.le_add_right value valueLen) hs
  have hes : valueEnd ≤ raw.length := Nat.le_trans hstop hs
  obtain ⟨p, hp, -, hpe, hskip⟩ := skipSpacesChecked_ok hle hes
  rw [parseRangeHeader_reading, readRange, ← htrim, ← hskip, parseRangeHeaderChecked,
    pointer_ok hs, ok_bind, hend, ok_bind, hp, ok_bind, sub_ok hpe, ok_bind]
  by_cases hshort : valueEnd - p < 6
  · have hunit : ¬ BytesUnit ((span raw p valueEnd).take 6) := by
      intro h
      have hlen := h.length
      rw [List.length_take, span_length p hes] at hlen
      omega
    rw [if_pos hshort, if_neg hunit]
    rfl
  have hsix : p + 6 ≤ valueEnd := by omega
  rw [if_neg hshort, asciiCaseEqualBoundedChecked_ok (Nat.le_trans hsix hes), ok_bind,
    span_take 6 hsix, span_drop]
  by_cases hunit : BytesUnit (span raw p (p + 6))
  · rw [if_pos hunit, if_neg (by rw [hunit]; exact Bool.false_ne_true),
      pointer_ok (Nat.le_trans hsix hes), ok_bind]
    by_cases hempty : p + 6 ≥ valueEnd
    · rw [if_pos hempty, span_nil hempty]
      rfl
    · rw [if_neg hempty, parseRangeSpecChecked_ok hsix hes]
  · rw [if_neg hunit, if_pos (by rw [Bool.not_eq_true']; exact eq_false_of_ne_true hunit)]
    rfl

theorem parseHeaderLineChecked_ok {line lineEnd : Nat} (h : line ≤ lineEnd)
    (hs : lineEnd ≤ raw.length) (request : HttpRequest) :
    parseHeaderLineChecked raw line lineEnd (lineEnd - line) request.memory =
      .ok (parseHeaderLine (span raw line lineEnd) request).memory := by
  rw [parseHeaderLineChecked, parseHeaderLine, memchr_span h hs, ok_bind]
  cases hcolon : (span raw line lineEnd).idxOf? 58 with
  | none => rfl
  | some colon =>
    have hlt : line + (colon + 1) ≤ lineEnd := idxOf?_span hs hcolon
    have hafter : pointer raw (line + colon + 1) = .ok (line + (colon + 1)) :=
      pointer_ok (Nat.le_trans hlt hs)
    have hname : sub (line + colon) line = .ok colon := by
      rw [sub_ok (Nat.le_add_right line colon), Nat.add_sub_cancel_left]
    have hcompare (expected : Bytes) : asciiCaseEqualBoundedChecked raw line colon expected =
        .ok (asciiCaseEqualBounded ((span raw line lineEnd).take colon) expected) := by
      rw [asciiCaseEqualBoundedChecked_ok (by omega), span_take colon (Nat.le_of_succ_le hlt)]
    obtain ⟨value, hvalue, hle, hvs, hskip⟩ := skipSpacesChecked_ok hlt hs
    obtain ⟨valueEnd, hend, hve, hes, htrim⟩ := trimTrailingSpanChecked_ok hvs hs
    have hlen : value + (valueEnd - value) = valueEnd := by omega
    have hvalueEnd : value + (valueEnd - value) ≤ raw.length := by omega
    simp only [Option.map_some]
    rw [hafter, ok_bind, hvalue, ok_bind, hend, ok_bind, hname, ok_bind, hcompare, ok_bind,
      sub_ok hve, span_drop, ← hskip, ← htrim]
    by_cases hconnection : asciiCaseEqualBounded ((span raw line lineEnd).take colon)
        (ascii "Connection") = true
    · have hcopy : copyBoundedChecked raw request.memory.connection httpConnectionTextMax value
          (valueEnd - value) = .ok (request.connection.copyBounded (span raw value valueEnd)).bytes := by
        rw [← hlen, Nat.add_sub_cancel_left]
        exact copyBoundedChecked_ok request.connection hvalueEnd
      rw [if_pos hconnection, if_pos hconnection, ok_bind, hcopy]
      rfl
    rw [if_neg hconnection, if_neg hconnection, ok_bind, hcompare, ok_bind]
    by_cases hrange : asciiCaseEqualBounded ((span raw line lineEnd).take colon)
        (ascii "Range") = true
    · rw [if_pos hrange, if_pos hrange, ok_bind, parseRangeHeaderChecked_ok hvalueEnd, hlen]
    · rw [if_neg hrange, if_neg hrange]

theorem parseHeadersChecked_loop {headers headersLen : Nat}
    (hs : headers + headersLen ≤ raw.length) {offset fuel : Nat} (ho : offset ≤ headersLen)
    (hf : headersLen < fuel + offset) (request : HttpRequest) :
    parseHeadersChecked raw headers headersLen fuel offset request.memory =
      .ok (parseHeadersLoop fuel (span raw (headers + offset) (headers + headersLen))
        request).memory := by
  induction fuel generalizing offset request with
  | zero => exact absurd hf (by omega)
  | succ fuel ih =>
    rw [parseHeadersChecked, parseHeadersLoop]
    by_cases hmore : offset < headersLen
    · have hline : headers + offset ≤ raw.length := by omega
      have hrest : headers + offset + (headersLen - offset) = headers + headersLen := by omega
      have hfind := findCrlfChecked_ok (hrest.symm ▸ hs)
      rw [hrest] at hfind
      rw [if_pos hmore, pointer_ok hline, ok_bind, sub_ok ho, ok_bind, hfind, ok_bind]
      cases hcrlf : findCrlf (span raw (headers + offset) (headers + headersLen)) with
      | none => rfl
      | some lineLen =>
        -- the two bytes of the line end lie inside the headers as well
        have hbound := firstOccurrence_bound hcrlf
        simp only [crlf, List.length_cons, List.length_nil, span_length _ hs] at hbound
        simp only [Option.map_some]
        rw [sub_ok (Nat.le_add_right _ lineLen), Nat.add_sub_cancel_left, ok_bind]
        cases lineLen with
        | zero => rfl
        | succ lineLen =>
          have hend : headers + offset + (lineLen + 1) ≤ raw.length := by omega
          have hlen : headers + offset + (lineLen + 1) - (headers + offset) = lineLen + 1 :=
            Nat.add_sub_cancel_left _ _
          have hnext : headers + (offset + (lineLen + 1) + 2) =
              headers + offset + (lineLen + 1 + 2) := by omega
          have hparsed := parseHeaderLineChecked_ok (Nat.le_add_right _ (lineLen + 1)) hend request
          rw [hlen] at hparsed
          have htake : headers + offset + (lineLen + 1) ≤ headers + headersLen := by omega
          rw [if_neg (Nat.succ_ne_zero lineLen), hparsed, ok_bind, ih (by omega) (by omega), hnext]
          simp only [span_take (lineLen + 1) htake, span_drop]
    · have hnone : span raw (headers + offset) (headers + headersLen) = [] :=
        span_nil (Nat.add_le_add_left (Nat.not_lt.1 hmore) headers)
      rw [if_neg hmore, hnone]
      rfl

theorem parseHeadersChecked_ok (headers : Nat) {headersLen : Nat}
    (hs : headers + headersLen ≤ raw.length) (request : HttpRequest) :
    parseHeadersChecked raw headers headersLen (headersLen + 1) 0 request.memory =
      .ok (parseHeaders (span raw headers (headers + headersLen)) request).memory := by
  have hlen : (span raw headers (headers + headersLen)).length ≤ headersLen + 1 := by
    rw [span_length headers hs, Nat.add_sub_cancel_left]
    exact Nat.le_succ headersLen
  rw [parseHeadersChecked_loop hs (Nat.zero_le _) (Nat.lt_succ_self _), parseHeaders,
    parseHeadersLoop_fuel (Nat.le_refl _) hlen]
  rfl

end Headers

theorem parseMethodChecked_ok (methodText : CharArray size) :
    parseMethodChecked methodText.bytes = .ok (parseMethod methodText.str) := by
  rw [parseMethodChecked, parseMethod, strcmpChecked_ok _ (by decide), ok_bind]
  by_cases hget : methodText.str = ascii "GET"
  · rw [if_pos hget, if_pos (decide_eq_true hget)]
  rw [if_neg hget, if_neg fun h => hget (of_decide_eq_true h), strcmpChecked_ok _ (by decide),
    ok_bind]
  by_cases hhead : methodText.str = ascii "HEAD"
  · rw [if_pos hhead, if_pos (decide_eq_true hhead)]
  · rw [if_neg hhead, if_neg fun h => hhead (of_decide_eq_true h)]

theorem parseVersionChecked_ok (versionText : CharArray size) :
    parseVersionChecked versionText.bytes = .ok (parseVersion versionText.str) := by
  rw [parseVersionChecked, parseVersion, strcmpChecked_ok _ (by decide), ok_bind]
  by_cases h10 : versionText.str = ascii "HTTP/1.0"
  · rw [if_pos h10, if_pos (decide_eq_true h10)]
  rw [if_neg h10, if_neg fun h => h10 (of_decide_eq_true h), strcmpChecked_ok _ (by decide),
    ok_bind]
  by_cases h11 : versionText.str = ascii "HTTP/1.1"
  · rw [if_pos h11, if_pos (decide_eq_true h11)]
  · rw [if_neg h11, if_neg fun h => h11 (of_decide_eq_true h)]

theorem keepAliveChecked_ok (request : HttpRequest) :
    keepAliveChecked request.memory = .ok request.withKeepAlive.memory := by
  have hclose : asciiCaseEqualChecked request.memory.connection (ascii "close") =
      .ok (asciiCaseEqual request.connection.str (ascii "close")) :=
    asciiCaseEqualChecked_ok request.connection (by decide)
  have hkeep : asciiCaseEqualChecked request.memory.connection (ascii "keep-alive") =
      .ok (asciiCaseEqual request.connection.str (ascii "keep-alive")) :=
    asciiCaseEqualChecked_ok request.connection (by decide)
  rw [keepAliveChecked, HttpRequest.withKeepAlive, hclose, hkeep]
  change (if request.version = .http11 then _ else _) = _
  by_cases hversion : request.version = .http11
  · rw [if_pos hversion, if_pos hversion]
    rfl
  · rw [if_neg hversion, if_neg hversion]
    rfl

def RequestLine.outcome (r : RequestLine) (headers : Bytes) : HttpParseResult × HttpRequest :=
  if r.method = [] ∨ r.version = [] then (.badRequest, .zero)
  else if r.path = [] then (.badRequest, .zero)
  else if r.request.version = .unknown then (.badRequest, r.request)
  else (.ok, (parseHeaders headers r.request).withKeepAlive)

section RequestLine

variable {raw : Bytes} {lineEnd firstSpace secondSpace : Nat} {r : RequestLine}

structure RequestLine.StandsAt (r : RequestLine) (raw : Bytes)
    (lineEnd firstSpace secondSpace : Nat) : Prop where
  method : span raw 0 firstSpace = r.method
  target : span raw (firstSpace + 1) secondSpace = r.target
  version : span raw (secondSpace + 1) lineEnd = r.version
  first : firstSpace < secondSpace
  second : secondSpace < lineEnd
  line : lineEnd + 2 ≤ raw.length

namespace RequestLine.StandsAt

theorem method_length (h : r.StandsAt raw lineEnd firstSpace secondSpace) :
    r.method.length = firstSpace := by
  have hs : firstSpace ≤ raw.length := by
    have := h.first
    have := h.second
    have := h.line
    omega
  rw [← h.method, span_length _ hs]
  rfl

theorem target_length (h : r.StandsAt raw lineEnd firstSpace secondSpace) :
    r.target.length = secondSpace - firstSpace - 1 := by
  have hs : secondSpace ≤ raw.length := by
    have := h.second
    have := h.line
    omega
  rw [← h.target, span_length _ hs, Nat.sub_sub]

theorem version_length (h : r.StandsAt raw lineEnd firstSpace secondSpace) :
    r.version.length = lineEnd - secondSpace - 1 := by
  rw [← h.version, span_length _ (Nat.le_of_add_right_le h.line), Nat.sub_sub]

theorem path_span (h : r.StandsAt raw lineEnd firstSpace secondSpace) :
    firstSpace + 1 + r.path.length ≤ secondSpace ∧
      span raw (firstSpace + 1) (firstSpace + 1 + r.path.length) = r.path := by
  have hpre : r.path <+: r.target := List.takeWhile_prefix _
  have hlen := hpre.length_le
  have hbound : firstSpace + 1 + r.path.length ≤ secondSpace := by
    have := h.first
    rw [h.target_length] at hlen
    omega
  refine ⟨hbound, ?_⟩
  rw [← span_take _ hbound, h.target]
  exact (List.prefix_iff_eq_take.1 hpre).symm

end RequestLine.StandsAt

theorem pathLenChecked_ok (r : RequestLine) (start : Nat) :
    pathLenChecked start r.target.length ((r.target.idxOf? 63).map (start + ·)) =
      .ok r.path.length := by
  rw [RequestLine.path, ← idxOf?_takeWhile]
  cases hquery : r.target.idxOf? 63 with
  | none =>
    rw [Option.getD_none, List.take_length]
    rfl
  | some k =>
    obtain ⟨hk, -⟩ := List.idxOf?_eq_some_iff.1 hquery
    rw [Option.getD_some, List.length_take, Nat.min_eq_left (Nat.le_of_lt hk)]
    exact (sub_ok (Nat.le_add_right start k)).trans
      (congrArg Except.ok (Nat.add_sub_cancel_left start k))

theorem RequestLine.StandsAt.copies (h : r.StandsAt raw lineEnd firstSpace secondSpace)
    (methodText : CharArray n) (path : CharArray m) (versionText : CharArray k) :
    copyBoundedChecked raw methodText.bytes n 0 firstSpace =
        .ok (methodText.copyBounded r.method).bytes ∧
      copyBoundedChecked raw path.bytes m (firstSpace + 1) r.path.length =
        .ok (path.copyBounded r.path).bytes ∧
      copyBoundedChecked raw versionText.bytes k (secondSpace + 1) (lineEnd - secondSpace - 1) =
        .ok (versionText.copyBounded r.version).bytes := by
  have hfirst := h.first
  have hsecond := h.second
  have hline := h.line
  obtain ⟨hpathEnd, hpath⟩ := h.path_span
  have hstop : secondSpace + 1 + (lineEnd - secondSpace - 1) = lineEnd := by omega
  refine ⟨?_, ?_, ?_⟩
  · rw [copyBoundedChecked_ok methodText (by omega), Nat.zero_add, h.method]
  · rw [copyBoundedChecked_ok path (by omega), hpath]
  · rw [copyBoundedChecked_ok versionText (by omega), hstop, h.version]

theorem parseRequestLineChecked_ok (h : r.StandsAt raw lineEnd firstSpace secondSpace) :
    parseRequestLineChecked raw lineEnd firstSpace secondSpace HttpRequest.zero.memory =
      .ok ((r.outcome (span raw (lineEnd + 2) raw.length)).map id HttpRequest.memory) := by
  have hfirst := h.first
  have hsecond := h.second
  have hline := h.line
  have hmethod : sub firstSpace 0 = .ok firstSpace := sub_ok (Nat.zero_le _)
  have hafterTarget : 1 ≤ lineEnd - secondSpace := Nat.sub_pos_of_lt hsecond
  have hafterSpace : 1 ≤ secondSpace - firstSpace := Nat.sub_pos_of_lt hfirst
  have hempty : firstSpace = 0 ∨ lineEnd - secondSpace - 1 = 0 ↔ r.method = [] ∨ r.version = [] := by
    rw [← List.length_eq_zero_iff, ← List.length_eq_zero_iff, h.method_length, h.version_length]
  rw [parseRequestLineChecked, RequestLine.outcome, hmethod, ok_bind,
    sub_ok (Nat.le_of_lt hsecond), ok_bind, sub_ok hafterTarget, ok_bind]
  by_cases hne : r.method = [] ∨ r.version = []
  · rw [if_pos (hempty.2 hne), if_pos hne]
    rfl
  have hquery : memchr raw 63 (secondSpace - firstSpace - 1) (firstSpace + 1) =
      .ok ((r.target.idxOf? 63).map (firstSpace + 1 + ·)) := by
    rw [Nat.sub_sub, memchr_span hfirst (by omega), h.target]
  have hlen := pathLenChecked_ok r (firstSpace + 1)
  rw [h.target_length] at hlen
  rw [if_neg fun hn => hne (hempty.1 hn), if_neg hne, pointer_ok (by omega), ok_bind,
    sub_ok (Nat.le_of_lt hfirst), ok_bind, sub_ok hafterSpace, ok_bind, hquery, ok_bind, hlen,
    ok_bind]
  by_cases hpathne : r.path = []
  · rw [if_pos (List.length_eq_zero_iff.2 hpathne), if_pos hpathne]
    rfl
  obtain ⟨hcopyMethod, hcopyPath, hcopyVersion⟩ := h.copies HttpRequest.zero.methodText
    HttpRequest.zero.path HttpRequest.zero.versionText
  have hheaders : lineEnd + 2 + (raw.length - lineEnd - 2) = raw.length := by omega
  have hheadersLen : 2 ≤ raw.length - lineEnd := Nat.le_sub_of_add_le' hline
  rw [if_neg fun hn => hpathne (List.length_eq_zero_iff.1 hn), if_neg hpathne]
  apply (bind_of_ok hcopyMethod _).trans
  apply (bind_of_ok hcopyPath _).trans
  apply (bind_of_ok (pointer_ok (by omega)) _).trans
  apply (bind_of_ok hcopyVersion _).trans
  apply (bind_of_ok (parseMethodChecked_ok r.request.methodText) _).trans
  apply (bind_of_ok (parseVersionChecked_ok r.request.versionText) _).trans
  change (if r.request.version = .unknown then
    (Except.ok (HttpParseResult.badRequest, r.request.memory) : Checked _) else _) = _
  by_cases hversion : r.request.version = .unknown
  · rw [if_pos hversion, if_pos hversion]
    rfl
  rw [if_neg hversion, if_neg hversion, pointer_ok hline, ok_bind, sub_ok (by omega), ok_bind,
    sub_ok hheadersLen, ok_bind]
  have hparsed := parseHeadersChecked_ok (lineEnd + 2) (Nat.le_of_eq hheaders) r.request
  rw [hheaders] at hparsed
  apply (bind_of_ok hparsed _).trans
  exact bind_of_ok (keepAliveChecked_ok _) _

theorem httpParseOutcome_line {targetLen : Nat} (hraw : raw ≠ [])
    (hfind : findCrlf raw = some lineEnd)
    (hspace : (raw.take lineEnd).idxOf? 32 = some firstSpace)
    (hnext : ((raw.take lineEnd).drop (firstSpace + 1)).idxOf? 32 = some targetLen)
    (ht : targetLen ≠ 0)
    (h : r.StandsAt raw lineEnd firstSpace (firstSpace + 1 + targetLen)) (request : HttpRequest) :
    httpParseOutcome raw request = r.outcome (raw.drop (lineEnd + 2)) := by
  have hsecond := h.second
  have hmethod : (raw.take lineEnd).take firstSpace = r.method := by
    rw [← h.method, List.take_take, Nat.min_eq_left (by omega)]
    rfl
  have htarget : ((raw.take lineEnd).drop (firstSpace + 1)).take targetLen = r.target :=
    (span_take targetLen (Nat.le_of_lt hsecond)).trans h.target
  have hversion : ((raw.take lineEnd).drop (firstSpace + 1)).drop (targetLen + 1) = r.version :=
    (span_drop (targetLen + 1)).trans h.version
  have hlen : r.target.length = targetLen := by
    rw [h.target_length]
    omega
  have hpath : r.target.take ((r.target.idxOf? 63).getD targetLen) = r.path := by
    rw [← hlen]
    exact idxOf?_takeWhile r.target 63
  have hempty : firstSpace = 0 ↔ r.method = [] := by
    rw [← List.length_eq_zero_iff, h.method_length]
  have hpathEmpty : (r.target.idxOf? 63).getD targetLen = 0 ↔ r.path = [] := by
    have hne : r.target ≠ [] := List.ne_nil_of_length_pos (hlen ▸ Nat.pos_of_ne_zero ht)
    rw [← hpath, List.take_eq_nil_iff]
    exact (or_iff_left hne).symm
  rw [httpParseOutcome, if_neg hraw]
  simp only [hfind, hspace, hnext, if_neg ht, hmethod, htarget, hversion, hpath, hempty, hpathEmpty]
  rfl

end RequestLine

structure RequestMemory.Terminated (request : RequestMemory) : Prop where
  methodText : request.methodText.length = httpMethodTextMax ∧ 0 ∈ request.methodText
  path : request.path.length = httpPathMax ∧ 0 ∈ request.path
  versionText : request.versionText.length = httpVersionTextMax ∧ 0 ∈ request.versionText
  connection : request.connection.length = httpConnectionTextMax ∧ 0 ∈ request.connection

theorem HttpRequest.memory_terminated (request : HttpRequest) : request.memory.Terminated where
  methodText := ⟨request.methodText.length_eq, request.methodText.terminated⟩
  path := ⟨request.path.length_eq, request.path.terminated⟩
  versionText := ⟨request.versionText.length_eq, request.versionText.terminated⟩
  connection := ⟨request.connection.length_eq, request.connection.terminated⟩

theorem httpParseRequestChecked_ok {raw : Bytes} (h : raw ≠ []) (before : RequestMemory)
    (request : HttpRequest) :
    httpParseRequestChecked raw before =
      .ok ((httpParseOutcome raw request).map id HttpRequest.memory) := by
  have hpos : ¬ raw.length = 0 := fun h₀ => h (List.length_eq_zero_iff.1 h₀)
  have hfind : findCrlfChecked raw 0 raw.length = .ok ((findCrlf raw).map (0 + ·)) := by
    rw [findCrlfChecked_ok (Nat.le_of_eq (Nat.zero_add _)), Nat.zero_add, span_whole]
  rw [httpParseRequestChecked, if_neg hpos]
  simp only [hfind, ok_bind]
  cases hcrlf : findCrlf raw with
  | none =>
    rw [httpParseOutcome, if_neg h, hcrlf]
    rfl
  | some lineEnd =>
    have hbound : lineEnd + 2 ≤ raw.length := firstOccurrence_bound hcrlf
    have hend : lineEnd ≤ raw.length := Nat.le_of_add_right_le hbound
    have hspace : memchr raw 32 lineEnd 0 = .ok (((raw.take lineEnd).idxOf? 32).map (0 + ·)) :=
      memchr_span (Nat.zero_le lineEnd) hend 32
    have hlen : sub lineEnd 0 = .ok lineEnd := sub_ok (Nat.zero_le lineEnd)
    have hinside : ¬ lineEnd ≥ raw.length := by omega
    simp only [Option.map_some, Nat.zero_add, hlen, ok_bind, if_neg hinside, hspace]
    cases hfirst : (raw.take lineEnd).idxOf? 32 with
    | none =>
      rw [httpParseOutcome, if_neg h, hcrlf]
      simp only [hfirst]
      rfl
    | some firstSpace =>
      have hf : firstSpace + 1 ≤ lineEnd := by
        have hlt : 0 + firstSpace < lineEnd := idxOf?_span hend hfirst
        omega
      have hpassed : sub (firstSpace + 1) 0 = .ok (firstSpace + 1) := sub_ok (Nat.zero_le _)
      have hnext : memchr raw 32 (lineEnd - (firstSpace + 1)) (firstSpace + 1) =
          .ok ((((raw.take lineEnd).drop (firstSpace + 1)).idxOf? 32).map (firstSpace + 1 + ·)) :=
        memchr_span hf hend 32
      simp only [Option.map_some, pointer_ok (Nat.le_trans hf hend), hpassed, ok_bind, sub_ok hf,
        hnext]
      cases hsecond : ((raw.take lineEnd).drop (firstSpace + 1)).idxOf? 32 with
      | none =>
        rw [httpParseOutcome, if_neg h, hcrlf]
        simp only [hfirst, hsecond]
        rfl
      | some targetLen =>
        have hs : firstSpace + 1 + targetLen < lineEnd := idxOf?_span hend hsecond
        simp only [Option.map_some, Nat.add_eq_left]
        by_cases ht : targetLen = 0
        · rw [httpParseOutcome, if_neg h, hcrlf]
          simp only [hfirst, hsecond, if_pos ht]
          rfl
        · have hstands : (RequestLine.mk _ _ _).StandsAt raw lineEnd firstSpace
              (firstSpace + 1 + targetLen) := ⟨rfl, rfl, rfl, by omega, hs, hbound⟩
          have hheaders : span raw (lineEnd + 2) raw.length = raw.drop (lineEnd + 2) := by
            rw [span, List.take_length]
          rw [if_neg ht, parseRequestLineChecked_ok hstands, hheaders,
            httpParseOutcome_line h hcrlf hfirst hsecond ht hstands]

/-- The parser reads inside the bytes it is given, writes inside the arrays of the request, never
subtracts below zero, and leaves every array terminated, whatever the bytes are and whatever the
memory of the request held before. -/
theorem httpParseRequestChecked_safe {raw : Bytes} (h : raw ≠ []) (before : RequestMemory) :
    ∃ result request, httpParseRequestChecked raw before = .ok (result, request) ∧
      request.Terminated ∧ ∀ left,
        (httpParseOutcome raw left).map id HttpRequest.memory = (result, request) := by
  refine ⟨_, _, httpParseRequestChecked_ok h before .zero, HttpRequest.memory_terminated _, ?_⟩
  intro left
  have hleft : httpParseOutcome raw left = httpParseOutcome raw .zero := by
    rw [httpParseOutcome, httpParseOutcome, if_neg h, if_neg h]
  rw [hleft]
  rfl

/-- The last byte is the separator at every level: of the line, of the value and of the range. -/
theorem httpParseRequestChecked_safe_edges :
    ∃ result request, httpParseRequestChecked (ascii "GET / HTTP/1.1\r\nRange: bytes=-\r\n \r")
        { HttpRequest.zero.memory with path := List.replicate 1024 255 } = .ok (result, request) ∧
      request.Terminated ∧ ∀ left,
        (httpParseOutcome (ascii "GET / HTTP/1.1\r\nRange: bytes=-\r\n \r") left).map id
          HttpRequest.memory = (result, request) :=
  httpParseRequestChecked_safe (by decide) _

end Httpd
