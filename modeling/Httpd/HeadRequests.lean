import Httpd.Delivery
import Httpd.RequestLanguage
import Httpd.ResponseSequence

namespace Httpd
open Scan
set_option autoImplicit true

def HttpRequest.asked (request : HttpRequest) (methodText : CharArray httpMethodTextMax)
    (method : HttpMethod) : HttpRequest :=
  { request with methodText := methodText, method := method }

section Asked

variable (methodText : CharArray httpMethodTextMax) (method : HttpMethod) (request : HttpRequest)

theorem parseRangeHeader_asked (value : Bytes) :
    parseRangeHeader value (request.asked methodText method) =
      (parseRangeHeader value request).asked methodText method := by
  simp only [parseRangeHeader]
  repeat' split
  all_goals rfl

theorem parseHeaderLine_asked (line : Bytes) :
    parseHeaderLine line (request.asked methodText method) =
      (parseHeaderLine line request).asked methodText method := by
  simp only [parseHeaderLine]
  split
  · rfl
  · split
    · rfl
    · split
      · exact parseRangeHeader_asked methodText method request _
      · rfl

theorem parseHeaders_asked (headers : Bytes) :
    parseHeaders headers (request.asked methodText method) =
      (parseHeaders headers request).asked methodText method := by
  rw [parseHeaders_foldl, parseHeaders_foldl]
  induction (headerLines headers).1 generalizing request with
  | nil => rfl
  | cons line lines ih =>
    rw [List.foldl_cons, List.foldl_cons, parseHeaderLine_asked]
    exact ih (parseHeaderLine line request)

end Asked

namespace RequestLine

def withHead (r : RequestLine) : RequestLine := { r with method := ascii "HEAD" }

theorem Accepted.withHead {r : RequestLine} (h : r.Accepted) : r.withHead.Accepted := {
  method_ne := (by decide : ascii "HEAD" ≠ [])
  method_space := (by decide : 32 ∉ ascii "HEAD")
  target_ne := h.target_ne
  target_space := h.target_space
  path := h.path
  version := h.version }

theorem bytes_withHead {r : RequestLine} (h : ¬ crlf <:+: r.bytes) :
    ¬ crlf <:+: r.withHead.bytes := by
  intro hi
  have hcr : cr ∉ ascii "HEAD" ++ [32] := by decide
  have hsplit : r.withHead.bytes = (ascii "HEAD" ++ [32]) ++ (r.target ++ 32 :: r.version) := rfl
  obtain ⟨i, hfound⟩ := exists_firstOccurrence hi
  rw [hsplit, crlf, firstOccurrence_skip hcr] at hfound
  obtain ⟨j, hj, _⟩ := Option.map_eq_some_iff.1 hfound
  obtain ⟨u, v, hrest, _⟩ := firstOccurrence_spec hj
  have hinside : crlf <:+: r.target ++ 32 :: r.version := ⟨u, v, hrest.symm⟩
  have hsuffix : r.target ++ 32 :: r.version <:+ r.bytes :=
    ⟨r.method ++ [32], by rw [List.append_assoc]; rfl⟩
  exact h (hinside.trans hsuffix.isInfix)

end RequestLine

theorem FirstLine.withHead {r : RequestLine} (h : FirstLine raw r.bytes rest) :
    FirstLine (r.withHead.bytes ++ (crlf ++ rest)) r.withHead.bytes rest :=
  ⟨rfl, RequestLine.bytes_withHead h.first⟩

/-- Two heads that differ in the method alone: the one says GET and the other HEAD. -/
def HeadVariant (head headOnly : Bytes) : Prop :=
  ∃ (r : RequestLine) (rest : Bytes), FirstLine head r.bytes rest ∧ r.Separated ∧
    cstr r.method = ascii "GET" ∧ headOnly = r.withHead.bytes ++ (crlf ++ rest)

theorem HeadVariant.httpParseRequest {request : HttpRequest} (h : HeadVariant head headOnly)
    (hp : httpParseRequest head = some request) :
    request.method = .get ∧
      ∃ methodText, httpParseRequest headOnly = some (request.asked methodText .head) := by
  obtain ⟨r, rest, hl, hs, hget, rfl⟩ := h
  have ha := hs.accepted hl hp
  have hfields := ha.lineFields hl hp
  simp only [HttpRequest.lineFields, Prod.mk.injEq] at hfields
  obtain ⟨-, -, -, hmethod, -⟩ := hfields
  refine ⟨hmethod.trans (r.request_get.2 hget), r.withHead.request.methodText, ?_⟩
  have hhead : r.withHead.request = r.request.asked r.withHead.request.methodText .head := by
    have htext : cstr (ascii "HEAD") = ascii "HEAD" := by decide
    have hm : r.withHead.request.method = .head := r.withHead.request_head.2 htext
    rw [← hm]
    rfl
  rw [httpParseRequest_accepted ha hl, Option.some.injEq] at hp
  rw [httpParseRequest_accepted ha.withHead hl.withHead, hhead, parseHeaders_asked, ← hp]
  rfl

theorem HeadVariant.ends (h : HeadVariant head headOnly)
    (he : findHeaderEnd head = some head.length) :
    findHeaderEnd headOnly = some headOnly.length := by
  obtain ⟨r, rest, hl, hs, -, rfl⟩ := h
  let shared : Bytes := r.target ++ 32 :: r.version ++ (crlf ++ rest)
  have hhead : head = (r.method ++ [32]) ++ shared := by
    rw [hl.bytes, RequestLine.bytes]
    simp only [shared, List.append_assoc, List.cons_append, List.nil_append]
  have hheadOnly : r.withHead.bytes ++ (crlf ++ rest) = (ascii "HEAD" ++ [32]) ++ shared := by
    simp only [RequestLine.bytes, RequestLine.withHead, shared, List.append_assoc,
      List.cons_append, List.nil_append]
  have hlong : 4 ≤ shared.length := by
    have htarget := List.length_pos_iff.2 hs.target_ne
    simp only [shared, crlf, List.length_append, List.length_cons]
    omega
  have hcr : cr ∉ ascii "HEAD" ++ [32] := by decide
  obtain ⟨i, hi, hlen⟩ := Option.map_eq_some_iff.1 he
  have hbehind : i = (shared.length - 4) + (r.method ++ [32]).length := by
    rw [hhead, List.length_append] at hlen
    omega
  rw [hhead, hbehind] at hi
  have hshared := firstOccurrence_drop hi
  rw [hheadOnly, findHeaderEnd, crlf, List.cons_append, firstOccurrence_skip hcr]
  change (Option.map _ (firstOccurrence (crlf ++ crlf) shared)).map _ = _
  have hsum : ((ascii "HEAD" ++ [32]) ++ shared).length =
      (ascii "HEAD" ++ [32]).length + shared.length := List.length_append
  rw [hshared, hsum]
  simp only [Option.map_some, Option.some.injEq]
  omega

theorem HeadVariant.read {s : ReadState} (h : HeadVariant head headOnly)
    (he : findHeaderEnd head = some head.length) (hl : headOnly.length ≤ readBufferSize)
    (hp : Httpd.httpParseRequest headOnly = some request) (hs : s.unread = headOnly ++ rest)
    (hf : .failed ∉ s.arrivals) :
    (readNextRequest s).outcome =
      .request request (extractRequestLine headOnly requestLineSize) headOnly := by
  have hfollows := readNextRequest_follows s hf
  rw [hs, frame_head (h.ends he) hl hp] at hfollows
  cases hfollows with
  | request ho _ _ => exact ho

/-- What is chosen as an answer does not depend on which of the supported methods asks for it. -/
theorem answer_asked (os : Os) (docRoot : Bytes) {request : HttpRequest}
    (hm : request.method ≠ .unsupported) (hm' : method ≠ .unsupported)
    (methodText : CharArray httpMethodTextMax) (keepAlive : Bool) :
    answer os docRoot (request.asked methodText method) keepAlive =
      answer os docRoot request keepAlive := by
  have hasked : (request.asked methodText method).method ≠ .unsupported := hm'
  rw [answer, answer, if_neg hm, if_neg hasked]
  rfl

def answerStatuses : List Nat := [200, 206, 403, 404, 416, 500]

theorem fileAnswer_status (os : Os) (request : HttpRequest) (info : FileInfo) (keepAlive : Bool) :
    (fileAnswer os request info keepAlive).status ∈ answerStatuses := by
  unfold fileAnswer
  split
  · exact List.mem_of_elem_eq_true rfl
  · split
    · exact List.mem_of_elem_eq_true rfl
    · split
      · exact List.mem_of_elem_eq_true rfl
      · change (if _ then 206 else 200) ∈ answerStatuses
        split <;> exact List.mem_of_elem_eq_true rfl

theorem answer_status (os : Os) (docRoot : Bytes) {request : HttpRequest}
    (hm : request.method ≠ .unsupported) (keepAlive : Bool) :
    (answer os docRoot request keepAlive).status ∈ answerStatuses := by
  rw [answer, if_neg hm]
  split
  · rename_i failure _
    cases failure <;> exact List.mem_of_elem_eq_true rfl
  · split
    · unfold directoryAnswer
      split <;> exact List.mem_of_elem_eq_true rfl
    · exact fileAnswer_status os request _ keepAlive

theorem Answer.Sound.full {answer : Answer} (hs : answer.Sound keepAlive)
    (hb : headOnly = true ∨ answer.body.Available) (h : Reliable outcomes) :
    (answer.reply headOnly outcomes).run.ok = true ∧
      wire (answer.reply headOnly outcomes).run.events =
        answer.head ++ (if headOnly then [] else answer.body.bytes) ∧
      (answer.reply headOnly outcomes).result =
        ⟨answer.status, if headOnly then 0 else answer.body.length⟩ := by
  have hok := (hs.steady hb h).1
  refine ⟨hok, ?_, if_pos hok⟩
  rw [(hs.reply_sends headOnly outcomes).full hok]
  cases headOnly with
  | true => rfl
  | false => rw [if_neg Bool.false_ne_true, if_neg Bool.false_ne_true,
      Body.padded_eq (hb.resolve_left Bool.false_ne_true)]

theorem Answer.Sound.findHeaderEnd {answer : Answer} (h : answer.Sound keepAlive) (body : Bytes) :
    findHeaderEnd (answer.head ++ body) = some answer.head.length := by
  obtain ⟨request, reason, fields, ha⟩ := h
  rw [ha.head]
  exact findHeaderEnd_headerText ha.reason.1 (fun f hf => (ha.plain f hf).clean) body

theorem clientPass_request (c : Connection) (k : Nat) {s : ReadState} (outcomes : List SendOutcome)
    (h : (readNextRequest s).outcome = .request request requestLine head) :
    let keepGoing := httpShouldKeepAlive request
    let reply :=
      (answer (c.os k) c.docRoot request keepGoing).reply (!sendBody (some request)) outcomes
    clientPass c k s outcomes =
      (⟨.request request requestLine head, (readNextRequest s).events ++ reply.run.events,
          reply.run.ok,
          if reply.run.ok then some ⟨c.clientIp, requestLine, reply.result⟩ else none⟩,
        if reply.run.ok && keepGoing then some ((readNextRequest s).state, reply.run.rest)
        else none) := by
  simp only [clientPass, h, respond_eq]

/-- A request that asks for the head only gets what `GET` gets, up to the body, if its own head
still fits the read buffer. It is read and accepted, both passes choose the same status and the same
head, the one for `HEAD` sends that head and nothing more, and the connection is kept after both or
after neither. -/
theorem clientPass_headVariant (c : Connection) (k : Nat) (s s' : ReadState)
    (outcomes outcomes' : List SendOutcome) (request : HttpRequest)
    (requestLine head head' rest : Bytes)
    (hr : (readNextRequest s).outcome = .request request requestLine head)
    (hv : HeadVariant head head') (hl : head'.length ≤ readBufferSize)
    (hs' : s'.unread = head' ++ rest) (hf' : .failed ∉ s'.arrivals)
    (h : Reliable outcomes) (h' : Reliable outcomes') (hfiles : (c.os k).FilesSteady) :
    ∃ (request' : HttpRequest) (requestLine' : Bytes),
      (clientPass c k s' outcomes').1.read = .request request' requestLine' head' ∧
      ∃ status ∈ answerStatuses, ∃ (block body : Bytes) (bodyBytes : UInt64),
        (clientPass c k s outcomes).1.log = some ⟨c.clientIp, requestLine, ⟨status, bodyBytes⟩⟩ ∧
        (clientPass c k s' outcomes').1.log = some ⟨c.clientIp, requestLine', ⟨status, 0⟩⟩ ∧
        (∀ rest, findHeaderEnd (block ++ rest) = some block.length) ∧
        wire (clientPass c k s outcomes).1.events = block ++ body ∧
        wire (clientPass c k s' outcomes').1.events = block ∧
        (clientPass c k s' outcomes').2.isSome = (clientPass c k s outcomes).2.isSome := by
  obtain ⟨hget, methodText, hp⟩ := hv.httpParseRequest (readNextRequest_head hr).2.1
  have hr' := hv.read (readNextRequest_ends hr) hl hp hs' hf'
  have hm : request.method ≠ .unsupported := by
    rw [hget]
    nofun
  have hbody : (!sendBody (some request)) = false := by
    rw [headOnly_iff, hget]
    rfl
  have hnoBody : (!sendBody (some (request.asked methodText .head))) = true := headOnly_iff _
  have hkeep : httpShouldKeepAlive (request.asked methodText .head) = httpShouldKeepAlive request :=
    rfl
  have hm' : HttpMethod.head ≠ .unsupported := nofun
  have hanswer := answer_asked (c.os k) c.docRoot hm hm' methodText
    (httpShouldKeepAlive request)
  have hsound := answer_sound (c.os k) c.docRoot request (httpShouldKeepAlive request)
  have hthere := answer_available (c.os k) hfiles c.docRoot request (httpShouldKeepAlive request)
  have hstatus := answer_status (c.os k) c.docRoot hm (httpShouldKeepAlive request)
  have hpass := clientPass_request c k outcomes hr
  have hpass' := clientPass_request c k outcomes' hr'
  simp only [hbody, hnoBody, hkeep, hanswer] at hpass hpass'
  generalize answer (c.os k) c.docRoot request (httpShouldKeepAlive request) = a at *
  have hb : false = true ∨ a.body.Available := .inr hthere
  have hb' : true = true ∨ a.body.Available := .inl rfl
  obtain ⟨hok, hwire, hresult⟩ := hsound.full hb h
  obtain ⟨hok', hwire', hresult'⟩ := hsound.full hb' h'
  refine ⟨_, _, by rw [hpass'], a.status, hstatus, a.head, a.body.bytes, a.body.length, ?_, ?_, ?_,
    ?_, ?_, ?_⟩
  · rw [hpass, hok, hresult]
    rfl
  · rw [hpass', hok', hresult']
    rfl
  · exact hsound.findHeaderEnd
  · rw [hpass, wire_append, wire_of_receives (readNextRequest_events s), hwire]
    rfl
  · rw [hpass', wire_append, wire_of_receives (readNextRequest_events s'), hwire']
    exact List.append_nil _
  · rw [hpass, hpass', hok, hok']
    cases httpShouldKeepAlive request <;> rfl

theorem pageOs_filesSteady : pageOs.FilesSteady := by
  intro path st file hstat hmode hopen
  simp only [pageOs] at hstat hopen
  split at hopen
  · rename_i hp
    have hne : path ≠ ascii "/srv/www" := by
      rw [hp]
      decide
    rw [if_neg hne, if_pos hp] at hstat
    cases hstat
    cases hopen
    decide
  · cases hopen

theorem readNextRequest_taken {s : ReadState} (hne : head ≠ [])
    (h : (readNextRequest s).outcome.consumedBytes = head) :
    ∃ request requestLine, (readNextRequest s).outcome = .request request requestLine head := by
  cases ho : (readNextRequest s).outcome with
  | request request requestLine taken =>
    rw [ho] at h
    cases h
    exact ⟨request, requestLine, rfl⟩
  | eof =>
    rw [ho] at h
    exact absurd h.symm hne
  | bad =>
    rw [ho] at h
    exact absurd h.symm hne

def pageConnection : Connection where
  docRoot := ascii "/srv/www"
  clientIp := ascii "-"
  os _ := pageOs
  arrivals := []
  outcomes := []

def getPage : RequestLine := ⟨ascii "GET", ascii "/index.html", ascii "HTTP/1.1"⟩

theorem clientPass_headVariant_page :
    ∃ block : Bytes, findHeaderEnd block = some block.length ∧
      wire (clientPass pageConnection 0
        (.initial [.data 72 (ascii "EAD /index.html HTTP/1.1\r\n\r\n")]) []).1.events = block := by
  have hget : (readNextRequest (.initial
      [.data 71 (ascii "ET /index.html HTTP/1.1\r\n\r\n")])).outcome.consumedBytes =
        ascii "GET /index.html HTTP/1.1\r\n\r\n" := by decide +kernel
  obtain ⟨request, requestLine, hr⟩ := readNextRequest_taken (by decide) hget
  have hfirst : FirstLine (ascii "GET /index.html HTTP/1.1\r\n\r\n") getPage.bytes crlf :=
    ⟨by decide, by decide⟩
  have hv : HeadVariant (ascii "GET /index.html HTTP/1.1\r\n\r\n")
      (ascii "HEAD /index.html HTTP/1.1\r\n\r\n") :=
    ⟨getPage, crlf, hfirst, ⟨by decide, by decide, by decide, by decide⟩, by decide, by decide⟩
  obtain ⟨_, _, _, _, _, block, body, _, _, _, hend, _, hwire, _⟩ := clientPass_headVariant
    pageConnection 0 _ (.initial [.data 72 (ascii "EAD /index.html HTTP/1.1\r\n\r\n")]) [.took 20] []
    _ _ _ _ [] hr hv (by decide) (by decide) (by decide)
    (fun o ho => .inl ⟨20, List.mem_singleton.1 ho⟩) (List.forall_mem_nil _) pageOs_filesSteady
  have hwhole := hend []
  rw [List.append_nil] at hwhole
  exact ⟨block, hwhole, hwire⟩

/-- The claim that `HEAD` changes nothing but the body, made for every request that is accepted. -/
def HeadChangesBody : Prop :=
  ∀ (c : Connection) (k : Nat) (s s' : ReadState) (outcomes outcomes' : List SendOutcome)
    (request : HttpRequest) (requestLine head head' rest : Bytes),
    (readNextRequest s).outcome = .request request requestLine head → HeadVariant head head' →
    s'.unread = head' ++ rest → .failed ∉ s'.arrivals → Reliable outcomes → Reliable outcomes' →
    (c.os k).FilesSteady →
    ∃ (requestLine' : Bytes) (status : Nat) (bodyBytes : UInt64),
      (clientPass c k s outcomes).1.log = some ⟨c.clientIp, requestLine, ⟨status, bodyBytes⟩⟩ ∧
      (clientPass c k s' outcomes').1.log = some ⟨c.clientIp, requestLine', ⟨status, 0⟩⟩

theorem headText_single (line : Bytes) : headText [line] = line ++ (crlf ++ crlf) := by
  rw [headText_cons, List.append_assoc]
  rfl

theorem RequestLine.head_length {r : RequestLine} (hmethod : r.method.length = m)
    (htarget : r.target.length = n) (hversion : r.version.length = k) :
    (headText [r.bytes]).length = m + n + k + 6 := by
  have hcrlf : crlf.length = 2 := rfl
  rw [headText_single]
  simp only [RequestLine.bytes, List.length_append, List.length_cons]
  omega

/-- With `HEAD` in place of `GET` the read buffer may be full before the head is, and the request is
refused with a body. -/
theorem RequestLine.Accepted.not_headChangesBody {r : RequestLine} (ha : r.Accepted)
    (hget : cstr r.method = ascii "GET") (hcr : cr ∉ r.bytes)
    (hfits : (headText [r.bytes]).length ≤ readBufferSize)
    (hlong : readBufferSize < (r.withHead.bytes ++ (crlf ++ crlf)).length) : ¬ HeadChangesBody := by
  intro h
  have hl : FirstLine (headText [r.bytes]) r.bytes crlf :=
    ⟨headText_single _, fun hi => hcr (hi.subset List.mem_cons_self)⟩
  have hv : HeadVariant (headText [r.bytes]) (r.withHead.bytes ++ (crlf ++ crlf)) :=
    ⟨r, crlf, hl, ha.toSeparated, hget, rfl⟩
  have hne : r.bytes ≠ [] := List.append_ne_nil_of_left_ne_nil ha.method_ne _
  have hend : findHeaderEnd (headText [r.bytes]) = some (headText [r.bytes]).length := by
    have hany := findHeaderEnd_headText ⟨hne, hcr⟩ (List.forall_mem_nil _) []
    rw [List.append_nil] at hany
    exact hany
  have hframe := frame_head hend hfits (httpParseRequest_accepted ha hl) []
  obtain ⟨line, hframe'⟩ := frame_longHead (hv.ends hend) hlong []
  rw [List.append_nil] at hframe hframe'
  let s : ReadState := .initial ((headText [r.bytes]).map fun b => .data b [])
  let s' : ReadState := .initial ((r.withHead.bytes ++ (crlf ++ crlf)).map fun b => .data b [])
  have hs : s.unread = headText [r.bytes] := streamOf_single _
  have hs' : s'.unread = r.withHead.bytes ++ (crlf ++ crlf) := streamOf_single _
  have hfollows := readNextRequest_follows s (single_notFailed _)
  have hfollows' := readNextRequest_follows s' (single_notFailed _)
  rw [hs, hframe] at hfollows
  rw [hs', hframe'] at hfollows'
  have hbad : (readNextRequest s').outcome = .bad := by
    cases hfollows' with
    | bad ho _ => exact ho
  cases hfollows with
  | request ho _ _ =>
    obtain ⟨requestLine', status, bodyBytes, _, hlog⟩ := h pageConnection 0 s s' [] [] _ _ _ _ [] ho
      hv (hs'.trans (List.append_nil _).symm) (single_notFailed _) (List.forall_mem_nil _)
      (List.forall_mem_nil _) pageOs_filesSteady
    have hbody : (sendSimpleResponse none 400 (ascii "Bad Request\n") false []).result.bodyBytes =
        12 := by decide +kernel
    simp only [clientPass, hbad, Option.some.injEq, LogEntry.mk.injEq] at hlog
    rw [hlog.2.2] at hbody
    cases hbody

def longestGet : RequestLine where
  method := ascii "GET"
  target := 47 :: List.replicate 8174 97
  version := ascii "HTTP/1.1"

theorem longestGet_accepted : longestGet.Accepted where
  method_ne := by decide
  method_space := by decide
  target_ne := List.cons_ne_nil _ _
  target_space := by
    intro h
    obtain h | h := List.mem_cons.1 h
    · cases h
    · cases List.eq_of_mem_replicate h
  path := by decide
  version := by decide

theorem longestGet_noBreak : cr ∉ longestGet.bytes := by
  have hparts : cr ∉ ascii "GET" ∧ cr ∉ 32 :: ascii "HTTP/1.1" ∧ cr ≠ 32 ∧ cr ≠ 47 ∧ cr ≠ 97 := by
    decide
  obtain ⟨hmethod, hversion, hspace, hslash, hletter⟩ := hparts
  simp only [longestGet, RequestLine.bytes, List.mem_append, List.mem_cons, not_or]
  refine ⟨hmethod, hspace, ⟨hslash, fun h => hletter (List.eq_of_mem_replicate h)⟩, ?_⟩
  exact not_or.1 (mt List.mem_cons.2 hversion)

theorem longestGet_length :
    (headText [longestGet.bytes]).length = readBufferSize ∧
      (longestGet.withHead.bytes ++ (crlf ++ crlf)).length = readBufferSize + 1 := by
  have htarget : longestGet.target.length = 8175 := by
    rw [longestGet, List.length_cons, List.length_replicate]
  have hversion : longestGet.version.length = 8 := rfl
  have hget : longestGet.method.length = 3 := rfl
  have hhead : longestGet.withHead.method.length = 4 := rfl
  rw [← headText_single]
  exact ⟨RequestLine.head_length hget htarget hversion,
    RequestLine.head_length hhead htarget hversion⟩

/-- A `GET` whose head takes up the whole read buffer. -/
theorem longestGet_headVariant : ¬ HeadChangesBody := by
  obtain ⟨hfits, hlong⟩ := longestGet_length
  apply longestGet_accepted.not_headChangesBody (by decide) longestGet_noBreak
  · exact Nat.le_of_eq hfits
  · rw [hlong]
    exact Nat.lt_succ_self _

end Httpd
