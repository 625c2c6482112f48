import Httpd.HeaderFields

namespace Httpd
set_option autoImplicit true

/-- A text that is too long for its field is in no case taken for one that fits with room. -/
theorem asciiCaseEqual_copyBounded (dest : CharArray size) (src : Bytes) {text : Bytes}
    (h : text.length < size - 1) :
    asciiCaseEqual (dest.copyBounded src).str text = true ↔
      (cstr src).map toLower = text.map toLower := by
  rw [asciiCaseEqual_iff, CharArray.str_copyBounded_cstr, List.map_take]
  apply take_eq_iff
  rw [List.length_map]
  exact h

def connectionValue (lines : List Bytes) : Bytes :=
  ((fieldLines (ascii "Connection") lines).getLast?.map fieldValue).getD []

theorem connectionValue_last {line : Bytes} (h : NamesField (ascii "Connection") line)
    (lines : List Bytes) : connectionValue (lines ++ [line]) = fieldValue line := by
  have hone : fieldLines (ascii "Connection") [line] = [line] := fieldLines_cons h []
  rw [fieldLines] at hone
  rw [connectionValue, fieldLines, List.filter_append, hone, List.getLast?_concat]
  rfl

theorem connectionValue_skip {line : Bytes} (h : ¬ NamesField (ascii "Connection") line)
    (lines : List Bytes) : connectionValue (lines ++ [line]) = connectionValue lines := by
  have hnone : fieldLines (ascii "Connection") [line] = [] := fieldLines_skip h []
  rw [fieldLines] at hnone
  rw [connectionValue, connectionValue, fieldLines, fieldLines, List.filter_append, hnone,
    List.append_nil]

theorem parseHeaderLine_keepsConnection {line : Bytes}
    (h : ¬ NamesField (ascii "Connection") line) (request : HttpRequest) :
    (parseHeaderLine line request).connection = request.connection := by
  by_cases hr : NamesField (ascii "Range") line
  · rw [parseHeaderLine_range hr]
    cases readRange (fieldValue line) <;> rfl
  · rw [parseHeaderLine_other h hr]

/-- The last `Connection` line is the one that is compared, whatever it was copied over. -/
theorem parseLines_connection {request : HttpRequest}
    (h₀ : request.connection = HttpRequest.zero.connection) (lines : List Bytes) {text : Bytes}
    (h : text.length < httpConnectionTextMax - 1) :
    asciiCaseEqual (parseLines request lines).connection.str text = true ↔
      (cstr (connectionValue lines)).map toLower = text.map toLower := by
  induction lines using List.reverseRecOn with
  | nil =>
    have hzero : (parseLines request []).connection.str = [] := by
      change request.connection.str = []
      rw [h₀]
      rfl
    rw [hzero]
    exact asciiCaseEqual_iff [] text
  | append_singleton lines line ih =>
    rw [parseLines_append, parseLines_cons]
    change asciiCaseEqual (parseHeaderLine line (parseLines request lines)).connection.str text =
      true ↔ _
    by_cases hc : NamesField (ascii "Connection") line
    · rw [parseHeaderLine_connection hc, connectionValue_last hc]
      exact asciiCaseEqual_copyBounded _ _ h
    · rw [parseHeaderLine_keepsConnection hc, connectionValue_skip hc]
      exact ih

/-- Whether a connection is kept is decided by the version and the last `Connection` line. -/
theorem httpParseRequest_keepAlive (raw requestLine : Bytes) (lines : List Bytes)
    (request : HttpRequest) (hp : httpParseRequest raw = some request)
    (hh : RequestHead raw requestLine lines) :
    (request.version = .http10 ∨ request.version = .http11) ∧
      (request.version = .http11 → (httpShouldKeepAlive request = false ↔
        (cstr (connectionValue lines)).map toLower = ascii "close")) ∧
      (request.version = .http10 → (httpShouldKeepAlive request = true ↔
        (cstr (connectionValue lines)).map toLower = ascii "keep-alive")) := by
  obtain ⟨r, rest, hl, ha⟩ := accepted_of_httpParseRequest hp
  obtain ⟨block, tail, hl', hblock⟩ := hh
  obtain ⟨-, rfl⟩ := hl.unique hl'
  have hfields := ha.lineFields hl hp
  simp only [HttpRequest.lineFields, Prod.mk.injEq] at hfields
  obtain ⟨-, -, -, -, hversion⟩ := hfields
  rw [httpParseRequest_accepted ha hl, parseHeaders_lines, hblock.headerLines,
    Option.some.injEq] at hp
  have hclose : (ascii "close").length < httpConnectionTextMax - 1 := by decide
  have hkeep : (ascii "keep-alive").length < httpConnectionTextMax - 1 := by decide
  have hzero : r.request.connection = HttpRequest.zero.connection := rfl
  have hclosed := parseLines_connection hzero lines hclose
  have hkept := parseLines_connection hzero lines hkeep
  generalize parseLines r.request lines = parsed at hp hclosed hkept
  subst hp
  refine ⟨?_, fun h11 => ?_, fun h10 => ?_⟩
  · rw [hversion, r.request_http10, r.request_http11]
    exact ha.version
  · have hv : parsed.version = .http11 := h11
    rw [httpShouldKeepAlive, HttpRequest.withKeepAlive, hv, if_pos rfl, Bool.not_eq_false']
    exact hclosed
  · have hv : parsed.version = .http10 := h10
    rw [httpShouldKeepAlive, HttpRequest.withKeepAlive, hv]
    exact hkept

def closedConnection : Bytes :=
  ascii "GET /a HTTP/1.1\r\nConnection: keep-alive\r\nCONNECTION:\tClose \r\n\r\n"

theorem httpParseRequest_keepAlive_last : ∃ request,
    httpParseRequest closedConnection = some request ∧ httpShouldKeepAlive request = false := by
  have hp : (httpParseRequest closedConnection).map HttpRequest.version = some .http11 := by
    decide +kernel
  obtain ⟨request, hr, hversion⟩ := Option.map_eq_some_iff.1 hp
  have hl : ¬ crlf <:+: ascii "GET /a HTTP/1.1" := by decide
  have hlines : ∀ line ∈ [ascii "Connection: keep-alive", ascii "CONNECTION:\tClose "],
      HeaderLine line := by
    unfold HeaderLine
    decide
  have hhead : RequestHead closedConnection (ascii "GET /a HTTP/1.1")
      [ascii "Connection: keep-alive", ascii "CONNECTION:\tClose "] :=
    ⟨_, crlf, ⟨rfl, hl⟩, rfl, hlines, .inl (List.prefix_refl _)⟩
  have hkept := httpParseRequest_keepAlive _ _ _ request hr hhead
  exact ⟨request, hr, (hkept.2.1 hversion).2 (by decide)⟩

end Httpd
