import Httpd.HeaderFields

namespace Httpd
set_option autoImplicit true

inductive HttpParseResult where
  | ok
  | badRequest
  deriving DecidableEq

/-- `http_parse_request` with what it leaves in the request, also where it refuses the bytes. -/
def httpParseOutcome (raw : Bytes) (request : HttpRequest) : HttpParseResult × HttpRequest :=
  if raw = [] then (.badRequest, request)
  else
    let request := HttpRequest.zero
    match findCrlf raw with
    | none => (.badRequest, request)
    | some requestLineLen =>
      let line := raw.take requestLineLen
      match line.idxOf? 32 with
      | none => (.badRequest, request)
      | some firstSpace =>
        let afterMethod := line.drop (firstSpace + 1)
        match afterMethod.idxOf? 32 with
        | none => (.badRequest, request)
        | some targetLen =>
          let versionBytes := afterMethod.drop (targetLen + 1)
          if targetLen = 0 then (.badRequest, request)
          else if firstSpace = 0 ∨ versionBytes = [] then (.badRequest, request)
          else
            let target := afterMethod.take targetLen
            let pathLen := (target.idxOf? 63).getD targetLen
            if pathLen = 0 then (.badRequest, request)
            else
              let request : HttpRequest := { request with
                methodText := request.methodText.copyBounded (line.take firstSpace)
                path := request.path.copyBounded (target.take pathLen)
                versionText := request.versionText.copyBounded versionBytes }
              let request : HttpRequest := { request with
                method := parseMethod request.methodText.str
                version := parseVersion request.versionText.str }
              if request.version = .unknown then (.badRequest, request)
              else (.ok, (parseHeaders (raw.drop (requestLineLen + 2)) request).withKeepAlive)

theorem httpParseRequest_outcome (raw : Bytes) (request : HttpRequest) :
    httpParseRequest raw =
      if (httpParseOutcome raw request).1 = .ok then some (httpParseOutcome raw request).2
      else none := by
  rw [httpParseOutcome]
  by_cases hempty : raw = []
  · rw [if_pos hempty, hempty]
    rfl
  rw [if_neg hempty, httpParseRequest]
  cases findCrlf raw with
  | none => rfl
  | some requestLineLen =>
    simp only
    generalize raw.take requestLineLen = line
    cases line.idxOf? 32 with
    | none => rfl
    | some firstSpace =>
      simp only
      generalize line.drop (firstSpace + 1) = afterMethod
      cases afterMethod.idxOf? 32 with
      | none => rfl
      | some targetLen =>
        simp only
        by_cases ht : targetLen = 0
        · rw [if_pos ht, if_pos ht]
          rfl
        rw [if_neg ht, if_neg ht]
        by_cases hv : firstSpace = 0 ∨ afterMethod.drop (targetLen + 1) = []
        · rw [if_pos hv, if_pos hv]
          rfl
        rw [if_neg hv, if_neg hv]
        by_cases hp : ((afterMethod.take targetLen).idxOf? 63).getD targetLen = 0
        · rw [if_pos hp, if_pos hp]
          rfl
        rw [if_neg hp, if_neg hp]
        split
        · rfl
        · rfl

/-- What is parsed depends on the request line, on the `Connection` lines and on the `Range` lines
alone: other lines, the places and the order in which the two stand, and what follows the block
have no effect on the result or on any field, so that the server goes on with the same request or
with none. -/
theorem httpParseOutcome_headers (raw raw' requestLine : Bytes) (lines lines' : List Bytes)
    (h : RequestHead raw requestLine lines) (h' : RequestHead raw' requestLine lines')
    (hconnection : fieldLines (ascii "Connection") lines = fieldLines (ascii "Connection") lines')
    (hrange : fieldLines (ascii "Range") lines = fieldLines (ascii "Range") lines')
    (request request' : HttpRequest) :
    httpParseOutcome raw request = httpParseOutcome raw' request' ∧
      httpParseRequest raw = httpParseRequest raw' := by
  obtain ⟨block, tail, hl, hblock⟩ := h
  obtain ⟨block', tail', hl', hblock'⟩ := h'
  have hheaders : parseHeaders block = parseHeaders block' := by
    funext request
    rw [parseHeaders_lines, parseHeaders_lines, hblock.headerLines, hblock'.headerLines,
      parseLines_fields, hconnection, hrange, ← parseLines_fields]
  have hcut {raw block : Bytes} (hl : FirstLine raw requestLine block) :
      raw ≠ [] ∧ findCrlf raw = some requestLine.length ∧
        raw.take requestLine.length = requestLine ∧ raw.drop (requestLine.length + 2) = block := by
    refine ⟨?_, hl.findCrlf, ?_, ?_⟩
    · rw [hl.bytes]
      exact List.append_ne_nil_of_right_ne_nil _ (List.cons_ne_nil _ _)
    · rw [hl.bytes, List.take_left]
    · rw [hl.bytes, ← List.drop_drop, List.drop_left]
      rfl
  obtain ⟨hne, hfind, htake, hdrop⟩ := hcut hl
  obtain ⟨hne', hfind', htake', hdrop'⟩ := hcut hl'
  have hsame : httpParseOutcome raw request = httpParseOutcome raw' request' := by
    simp only [httpParseOutcome, if_neg hne, if_neg hne', hfind, hfind', htake, htake', hdrop,
      hdrop', hheaders]
  refine ⟨hsame, ?_⟩
  rw [httpParseRequest_outcome raw request, httpParseRequest_outcome raw' request', hsame]

/-- The same request with another line before its `Connection` line, the `Range` line elsewhere,
and a byte behind the empty line, parsed over what another request left. -/
theorem httpParseOutcome_headers_moved :
    httpParseOutcome
        (ascii "GET /a HTTP/1.1\r\nRange: bytes=1-\r\nConnection: close\r\n\r\n") .zero =
      httpParseOutcome
        (ascii "GET /a HTTP/1.1\r\n\n\r\r\nConnection: close\r\nRange: bytes=1-\r\n\r\nx")
        { HttpRequest.zero with keepAliveRequested := true } := by
  have hl : ¬ crlf <:+: ascii "GET /a HTTP/1.1" := by decide
  have hline : ∀ line ∈ [ascii "\n\r", ascii "Connection: close", ascii "Range: bytes=1-"],
      HeaderLine line := by
    unfold HeaderLine
    decide
  refine (httpParseOutcome_headers _ _ (ascii "GET /a HTTP/1.1")
    [ascii "Range: bytes=1-", ascii "Connection: close"]
    [ascii "\n\r", ascii "Connection: close", ascii "Range: bytes=1-"] ?_ ?_ ?_ ?_ _ _).1
  · refine ⟨_, crlf, ⟨rfl, hl⟩, rfl, fun line hm => hline line ?_, .inl (List.prefix_refl _)⟩
    revert hm
    simp only [List.mem_cons, List.not_mem_nil, or_false]
    rintro (h | h)
    · exact .inr (.inr h)
    · exact .inr (.inl h)
  · exact ⟨_, crlf ++ ascii "x", ⟨rfl, hl⟩, rfl, hline, .inl (List.prefix_append _ _)⟩
  · decide
  · decide

end Httpd
