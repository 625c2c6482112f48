import Httpd.Pipelining
import Httpd.RangeRequests
import Httpd.ResponseReader

namespace Httpd
open Scan
set_option autoImplicit true

/-- A head that asks by `GET` for all of what a target names. -/
structure AsksWhole (head target : Bytes) : Prop where
  line : ∃ version fields, (version = ascii "HTTP/1.0" ∨ version = ascii "HTTP/1.1") ∧
    FirstLine head (RequestLine.bytes ⟨ascii "GET", target, version⟩) fields ∧
    ∀ line ∈ (headerLines fields).1, ¬ NamesField (ascii "Range") line
  ends : findHeaderEnd head = some head.length
  fits : head.length ≤ readBufferSize

structure PlainTarget (target : Bytes) : Prop where
  ne_nil : target ≠ []
  no_null : 0 ∉ target
  no_break : cr ∉ target
  no_space : 32 ∉ target
  no_query : 63 ∉ target
  fits : target.length < httpPathMax

/-- A client asks for all of what a target names, and this is what comes back. -/
def Fetches (os : Os) (docRoot target message : Bytes) : Prop :=
  ∃ c : Connection, c.docRoot = docRoot ∧ (∀ k, c.os k = os) ∧ .failed ∉ c.arrivals ∧
    Reliable c.outcomes ∧ AsksWhole (streamOf c.arrivals) target ∧ message = wire c.trace

theorem takeWhile_of_notMem {ch : UInt8} {bytes : Bytes} (h : ch ∉ bytes) :
    bytes.takeWhile (· ≠ ch) = bytes := by
  apply List.takeWhile_eq_self_iff.2
  intro c hc
  rw [decide_eq_true_eq]
  exact fun he => h (he ▸ hc)

theorem PlainTarget.accepted (ht : PlainTarget target)
    (hv : version = ascii "HTTP/1.0" ∨ version = ascii "HTTP/1.1") :
    RequestLine.Accepted ⟨ascii "GET", target, version⟩ := by
  have hmethod : ascii "GET" ≠ [] ∧ 32 ∉ ascii "GET" := by decide
  have hold : cstr (ascii "HTTP/1.0") = ascii "HTTP/1.0" := by decide
  have hnew : cstr (ascii "HTTP/1.1") = ascii "HTTP/1.1" := by decide
  constructor
  · exact ⟨hmethod.1, hmethod.2, ht.ne_nil, ht.no_space⟩
  · exact fun hq => ht.no_query (List.mem_of_mem_head? hq)
  · rcases hv with rfl | rfl
    · exact .inl hold
    · exact .inr hnew

theorem PlainTarget.request (ht : PlainTarget target)
    (hv : version = ascii "HTTP/1.0" ∨ version = ascii "HTTP/1.1")
    (hl : FirstLine head (RequestLine.bytes ⟨ascii "GET", target, version⟩) fields) :
    ∃ request, httpParseRequest head = some request ∧ request.method = .get ∧
      request.path.str = target := by
  have ha := ht.accepted hv
  have hparse := httpParseRequest_accepted ha hl
  have hfields := ha.lineFields hl hparse
  simp only [HttpRequest.lineFields, Prod.mk.injEq] at hfields
  obtain ⟨_, hpath, _, hmethod, _⟩ := hfields
  have hwhole : RequestLine.path ⟨ascii "GET", target, version⟩ = target :=
    takeWhile_of_notMem ht.no_query
  refine ⟨_, hparse, ?_, ?_⟩
  · rw [hmethod]
    exact (RequestLine.request_get _).2 rfl
  · apply hpath.trans
    apply (CharArray.str_copyBounded_cstr _ _).trans
    rw [hwhole, cstr_eq_of_notMem ht.no_null]
    exact List.take_of_length_le (Nat.le_pred_of_lt ht.fits)

theorem AsksWhole.request (h : AsksWhole head target) (ht : PlainTarget target) :
    ∃ request, httpParseRequest head = some request ∧ request.method = .get ∧
      request.path.str = target ∧ request.hasRange = false := by
  obtain ⟨version, fields, hv, hl, hlines⟩ := h.line
  obtain ⟨request, hparse, hmethod, hpath⟩ := ht.request hv hl
  refine ⟨request, hparse, hmethod, hpath, ?_⟩
  rw [httpParseRequest_accepted (ht.accepted hv) hl, Option.some.injEq] at hparse
  rw [← hparse, parseHeaders_lines]
  have hrange := parseLines_rangeFields hlines
    (RequestLine.request ⟨ascii "GET", target, version⟩)
  exact congrArg RangeFields.hasRange hrange

theorem frame_single (h : findHeaderEnd head = some head.length) (hl : head.length ≤ readBufferSize)
    (hp : httpParseRequest head = some request) :
    frame head = .request request (extractRequestLine head requestLineSize) head [] := by
  have hframe := frame_head h hl hp []
  rw [List.append_nil] at hframe
  exact hframe

theorem clientLoop_silent {c : Connection} {s : ReadState} (hu : s.unread = [])
    (hf : .failed ∉ s.arrivals) (fuel k : Nat) (outcomes : List SendOutcome) :
    wire ((clientLoop c fuel k s outcomes).flatMap Turn.events) = [] := by
  cases fuel with
  | zero => rfl
  | succ fuel =>
    have hfollows := readNextRequest_follows s hf
    rw [hu] at hfollows
    have ho : (readNextRequest s).outcome = .eof := by
      cases hfollows with
      | eof ho => exact ho
    simp only [clientLoop, clientPass, ho, List.flatMap_singleton]
    exact wire_of_receives (readNextRequest_events s)

theorem trace_reply {c : Connection} (hf : .failed ∉ c.arrivals)
    (hframe : frame (streamOf c.arrivals) = .request request requestLine head []) :
    wire c.trace = wire ((answer (c.os 0) c.docRoot request (httpShouldKeepAlive request)).reply
      (!sendBody (some request)) c.outcomes).run.events := by
  have hwire : wire c.trace = wire ((handleClient c).flatMap Turn.events) := by
    rw [Connection.trace, wire_append]
    exact List.append_nil _
  have hfollows := readNextRequest_follows (.initial c.arrivals) hf
  rw [ReadState.unread_initial, hframe] at hfollows
  obtain ⟨ho, hu, hleft⟩ : (readNextRequest (.initial c.arrivals)).outcome =
      .request request requestLine head ∧
        (readNextRequest (.initial c.arrivals)).state.unread = [] ∧
        .failed ∉ (readNextRequest (.initial c.arrivals)).state.arrivals := by
    cases hfollows with
    | request ho hu hleft => exact ⟨ho, hu, hleft⟩
  rw [hwire, handleClient, clientLoop, clientPass_request c 0 c.outcomes ho]
  generalize (answer (c.os 0) c.docRoot request (httpShouldKeepAlive request)).reply
    (!sendBody (some request)) c.outcomes = reply
  have hfirst : wire ((readNextRequest (.initial c.arrivals)).events ++ reply.run.events) =
      wire reply.run.events := by
    rw [wire_append, wire_of_receives (readNextRequest_events _), List.nil_append]
  cases hgoes : reply.run.ok && httpShouldKeepAlive request with
  | false => exact (congrArg wire (List.flatMap_singleton ..)).trans hfirst
  | true =>
    simp only [if_true, List.flatMap_cons]
    rw [wire_append, hfirst, clientLoop_silent hu hleft, List.append_nil]

theorem not_headOnly {request : HttpRequest} (h : request.method = .get) :
    (!sendBody (some request)) = false := by
  rw [headOnly_iff, h]
  rfl

/-- What comes back is the answer to the request that the head stands for. -/
theorem Fetches.answered (h : Fetches os docRoot target message) (ht : PlainTarget target)
    (hfiles : os.FilesSteady) :
    ∃ request, request.method = .get ∧ request.path.str = target ∧ request.hasRange = false ∧
      message = (answer os docRoot request (httpShouldKeepAlive request)).text false := by
  obtain ⟨c, rfl, hos, hf, hr, hasks, rfl⟩ := h
  obtain ⟨request, hparse, hmethod, hpath, hrange⟩ := hasks.request ht
  refine ⟨request, hmethod, hpath, hrange, ?_⟩
  have hthere := answer_available os hfiles c.docRoot request (httpShouldKeepAlive request)
  have hsound := answer_sound os c.docRoot request (httpShouldKeepAlive request)
  rw [trace_reply hf (frame_single hasks.ends hasks.fits hparse), hos 0, not_headOnly hmethod]
  exact (hsound.full (.inr hthere) hr).2.1

theorem exists_fetches (os : Os) (docRoot : Bytes) (ht : PlainTarget target) :
    ∃ message, Fetches os docRoot target message := by
  let line : Bytes := RequestLine.bytes ⟨ascii "GET", target, ascii "HTTP/1.1"⟩
  let c : Connection := ⟨docRoot, [], fun _ => os, [.data 71 (headText [line]).tail], []⟩
  have hstream : streamOf c.arrivals = headText [line] := by
    change _ ++ [] = _
    rw [List.append_nil]
    rfl
  have hcr : cr ∉ line := by
    have hmethod : cr ∉ ascii "GET" ∧ cr ≠ 32 ∧ cr ∉ ascii "HTTP/1.1" := by decide
    simp only [line, RequestLine.bytes, List.mem_append, List.mem_cons, not_or]
    exact ⟨hmethod.1, hmethod.2.1, ht.no_break, hmethod.2.1, hmethod.2.2⟩
  have hlength : line.length = target.length + 13 := by
    simp only [line, RequestLine.bytes, List.length_append, List.length_cons]
    change 3 + (target.length + (8 + 1) + 1) = _
    omega
  refine ⟨wire c.trace, c, rfl, fun _ => rfl, ?_, List.forall_mem_nil _, ?_, rfl⟩
  · exact List.not_mem_cons_of_ne_of_not_mem Arrival.noConfusion List.not_mem_nil
  · rw [hstream]
    constructor
    · refine ⟨ascii "HTTP/1.1", crlf, .inr rfl, ⟨?_, ?_⟩, by decide⟩
      · rw [headText_cons, List.append_assoc]
        rfl
      · intro hi
        exact hcr (hi.subset List.mem_cons_self)
    · have hend := findHeaderEnd_headText ⟨List.cons_ne_nil _ _, hcr⟩ (List.forall_mem_nil _) []
      rw [List.append_nil] at hend
      exact hend
    · have hfits := ht.fits
      rw [headText_cons, List.length_append, List.length_append, hlength]
      change target.length + 13 + 2 + 2 ≤ 8192
      change target.length < 1024 at hfits
      omega

end Httpd
