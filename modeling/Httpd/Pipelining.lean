import Httpd.Delivery
import Httpd.ResponseSequence

namespace Httpd
open Scan
set_option autoImplicit true

def splitLines : Nat → Bytes → List Bytes
  | 0, _ => []
  | fuel + 1, text =>
    match findCrlf text with
    | none => []
    | some lineLen => text.take lineLen :: splitLines fuel (text.drop (lineLen + 2))

def announcedBy (line : Bytes) : Option Nat :=
  if asciiCaseEqualBounded (line.takeWhile (· ≠ 58)) (ascii "Content-Length") then
    some (((line.dropWhile (· ≠ 58)).filter isDigit).foldl (fun n c => 10 * n + (c - 48).toNat) 0)
  else none

def announcedLength (head : Bytes) : Nat :=
  (((splitLines head.length head).drop 1).findSome? announcedBy).getD 0

/-- A request as a client sends it: a head up to its empty line, and the body it announces. -/
structure RequestMessage where
  head : Bytes
  body : Bytes
  head_ends : findHeaderEnd head = some head.length
  body_length : body.length = announcedLength head

namespace RequestMessage

def bytes (m : RequestMessage) : Bytes := m.head ++ m.body

def outcome (m : RequestMessage) : ReadOutcome :=
  if m.head.length ≤ readBufferSize then
    match httpParseRequest m.head with
    | some request => .request request (extractRequestLine m.head requestLineSize) m.head
    | none => .bad
  else .bad

def keptAlive (m : RequestMessage) : Bool :=
  match m.outcome with
  | .request request _ _ => httpShouldKeepAlive request
  | _ => false

theorem outcome_ne_eof (m : RequestMessage) : m.outcome ≠ .eof := by
  unfold outcome
  split
  · split <;> nofun
  · nofun

theorem follows (m : RequestMessage) {rest : Bytes} {r : ReadResult}
    (h : Follows r (frame (m.head ++ rest))) :
    r.outcome = m.outcome ∧ (m.keptAlive = true → r.state.unread = rest ∧
      .failed ∉ r.state.arrivals) := by
  have refused : ∀ {requestLine : Bytes}, m.outcome = .bad → Follows r (.bad requestLine) →
      r.outcome = m.outcome ∧ (m.keptAlive = true → r.state.unread = rest ∧
        .failed ∉ r.state.arrivals) := by
    intro requestLine ho h
    cases h with
    | bad hr _ =>
      refine ⟨hr.trans ho.symm, ?_⟩
      rw [keptAlive, ho]
      intro hk
      cases hk
  by_cases hl : m.head.length ≤ readBufferSize
  · cases hp : httpParseRequest m.head with
    | none =>
      have ho : m.outcome = .bad := by simp only [outcome, if_pos hl, hp]
      obtain ⟨requestLine, hframe⟩ := frame_refusedHead m.head_ends hl hp rest
      rw [hframe] at h
      exact refused ho h
    | some request =>
      have ho : m.outcome = .request request (extractRequestLine m.head requestLineSize) m.head := by
        simp only [outcome, if_pos hl, hp]
      rw [frame_head m.head_ends hl hp] at h
      cases h with
      | request hr hu hf => exact ⟨hr.trans ho.symm, fun _ => ⟨hu, hf⟩⟩
  · obtain ⟨requestLine, hframe⟩ := frame_longHead m.head_ends (Nat.lt_of_not_le hl) rest
    rw [hframe] at h
    exact refused (if_neg hl) h

end RequestMessage

def Turn.Serves (turn : Turn) (m : RequestMessage) : Prop :=
  turn.read = m.outcome ∧ ∃ keepAlive, turn.Answers keepAlive

/-- The turns serve the messages one by one, and stop only at the end of the stream, at a
response cut short, or at a message that is not kept alive. -/
inductive Serves : List Turn → List RequestMessage → Prop where
  | ended (hr : turn.read = .eof) (hw : wire turn.events = []) : Serves [turn] []
  | cut (ht : turn.Serves m) (hc : turn.complete = false) : Serves [turn] (m :: messages)
  | closed (ht : turn.Serves m) (hk : m.keptAlive = false) : Serves [turn] (m :: messages)
  | more (ht : turn.Serves m) (hc : turn.complete = true) (hk : m.keptAlive = true)
      (h : Serves turns messages) : Serves (turn :: turns) (m :: messages)

def answered : List RequestMessage → List RequestMessage
  | [] => []
  | m :: messages => if m.keptAlive then m :: answered messages else [m]

theorem clientLoop_serves {s : ReadState} {messages : List RequestMessage}
    (h : s.unread.length < fuel) (hstream : s.unread = messages.flatMap RequestMessage.bytes)
    (hfailed : .failed ∉ s.arrivals)
    (hbody : ∀ m ∈ messages, m.keptAlive = true → m.body = []) :
    Serves (clientLoop c fuel k s outcomes) messages := by
  induction fuel generalizing k s outcomes messages with
  | zero => cases h
  | succ fuel ih =>
    have hp := clientPass_cases c k s outcomes
    have hread := clientPass_read c k s outcomes
    have hfollows := readNextRequest_follows s hfailed
    rw [clientLoop]
    generalize clientPass c k s outcomes = pass at hp hread ⊢
    cases messages with
    | nil =>
      rw [hstream] at hfollows
      have ho : (readNextRequest s).outcome = .eof := by
        cases hfollows with
        | eof ho => exact ho
      rw [ho] at hread
      cases hp with
      | ended hr hc hw => exact .ended hr hw
      | refused hr ha =>
        rw [hr] at hread
        cases hread
      | stopped hr ha hu hs =>
        rw [hr] at hread
        cases hread
      | continued hr ha hc hk hs hu hl =>
        rw [hr] at hread
        cases hread
    | cons m messages =>
      rw [hstream, List.flatMap_cons, RequestMessage.bytes, List.append_assoc] at hfollows
      obtain ⟨ho, hrest⟩ := m.follows hfollows
      rw [ho] at hread
      cases hp with
      | ended hr hc hw =>
        rw [hr] at hread
        exact absurd hread.symm m.outcome_ne_eof
      | refused hr ha =>
        refine .closed ⟨hread, _, ha⟩ ?_
        rw [RequestMessage.keptAlive, ← hread, hr]
      | stopped hr ha hu hs =>
        rcases hs with hs | hs
        · exact .cut ⟨hread, _, ha⟩ hs
        · refine .closed ⟨hread, _, ha⟩ ?_
          rw [RequestMessage.keptAlive, ← hread, hr]
          exact hs
      | continued hr ha hc hk hs hu hl =>
        have hkept : m.keptAlive = true := by
          rw [RequestMessage.keptAlive, ← hread, hr]
          exact hk
        obtain ⟨hu', hf'⟩ := hrest hkept
        rw [← hs] at hu' hf'
        rw [hbody m List.mem_cons_self hkept, List.nil_append] at hu'
        exact .more ⟨hread, _, ha⟩ hc hkept (ih (by omega) hu' hf'
          fun m' hm' => hbody m' (List.mem_cons_of_mem _ hm'))

theorem clientPass_steady (h : Reliable outcomes) (c : Connection) (k : Nat)
    (hfiles : (c.os k).FilesSteady) (s : ReadState) :
    ((clientPass c k s outcomes).1.read ≠ .eof →
        (clientPass c k s outcomes).1.complete = true) ∧
      ∀ next, (clientPass c k s outcomes).2 = some next → Reliable next.2 := by
  simp only [clientPass]
  cases (readNextRequest s).outcome with
  | eof =>
    refine ⟨fun hne => absurd rfl hne, ?_⟩
    intro next hn
    cases hn
  | bad =>
    have hs : (sendSimpleResponse none 400 (ascii "Bad Request\n") false outcomes).run.Steady :=
      sendSimpleResponse_steady h none (by decide) (by decide) false
    refine ⟨fun _ => hs.1, ?_⟩
    intro next hn
    cases hn
  | request request requestLine head =>
    have hs := respond_steady h (c.os k) hfiles c.docRoot request (httpShouldKeepAlive request)
    refine ⟨fun _ => hs.1, fun next hn => ?_⟩
    simp only at hn
    split at hn
    · cases hn
      exact hs.2
    · cases hn

theorem clientLoop_complete (h : Reliable outcomes) (hfiles : ∀ k, (c.os k).FilesSteady) :
    ∀ turn ∈ clientLoop c fuel k s outcomes, turn.read ≠ .eof → turn.complete = true := by
  induction fuel generalizing k s outcomes with
  | zero => exact List.forall_mem_nil _
  | succ fuel ih =>
    obtain ⟨hc, hn⟩ := clientPass_steady h c k (hfiles k) s
    rw [clientLoop]
    generalize clientPass c k s outcomes = pass at hc hn ⊢
    obtain ⟨turn, next⟩ := pass
    intro turn' hm
    cases next with
    | none =>
      rw [List.mem_singleton.1 hm]
      exact hc
    | some next =>
      rcases List.mem_cons.1 hm with hm | hm
      · rw [hm]
        exact hc
      · exact ih (hn next rfl) turn' hm

theorem Turn.Serves.response {turn : Turn} (h : turn.Serves m) (hc : turn.complete = true) :
    IsResponse m.outcome.headOnly (wire turn.events) := by
  obtain ⟨hread, _, message, hm, _, hfull, _⟩ := h
  rw [hfull hc, ← hread]
  exact hm

theorem Serves.responses (h : Serves turns messages)
    (hc : ∀ turn ∈ turns, turn.read ≠ .eof → turn.complete = true) :
    ∃ responses, wire (turns.flatMap Turn.events) = responses.flatten ∧
      List.Forall₂ (fun response m => IsResponse m.outcome.headOnly response) responses
        (answered messages) := by
  induction h with
  | ended hr hw =>
    refine ⟨[], ?_, .nil⟩
    rw [List.flatMap_singleton, hw]
    rfl
  | cut ht hcut =>
    have := hc _ List.mem_cons_self (by rw [ht.1]; exact RequestMessage.outcome_ne_eof _)
    rw [hcut] at this
    cases this
  | @closed turn m messages ht hk =>
    have hcomplete := hc _ List.mem_cons_self (by rw [ht.1]; exact m.outcome_ne_eof)
    refine ⟨[wire turn.events], ?_, ?_⟩
    · rw [List.flatMap_singleton, List.flatten_singleton]
    · rw [answered, hk, if_neg Bool.false_ne_true]
      exact .cons (ht.response hcomplete) .nil
  | @more turns messages turn m ht hcomplete hk h ih =>
    obtain ⟨responses, hw, hall⟩ := ih fun turn hm => hc turn (List.mem_cons_of_mem _ hm)
    refine ⟨wire turn.events :: responses, ?_, ?_⟩
    · rw [List.flatMap_cons, wire_append, hw, List.flatten_cons]
    · rw [answered, hk, if_pos rfl]
      exact .cons (ht.response hcomplete) hall

/-- A stream of requests of which none that is kept alive has a body is served one response to
a request, in order, up to the first that is not kept alive, however it is delivered: only
heads are read as heads, and if no send fails and no file shrinks every response is whole. -/
theorem handleClient_serves (c : Connection) (messages : List RequestMessage)
    (hstream : streamOf c.arrivals = messages.flatMap RequestMessage.bytes)
    (hfailed : .failed ∉ c.arrivals)
    (hbody : ∀ m ∈ messages, m.keptAlive = true → m.body = []) :
    Serves (handleClient c) messages ∧
      (Reliable c.outcomes → (∀ k, (c.os k).FilesSteady) →
        ∃ responses, wire c.trace = responses.flatten ∧
          List.Forall₂ (fun response m => IsResponse m.outcome.headOnly response) responses
            (answered messages)) := by
  have hs : Serves (handleClient c) messages :=
    clientLoop_serves (by rw [ReadState.unread_initial]; exact Nat.lt_succ_self _)
      (by rw [ReadState.unread_initial, hstream]) hfailed hbody
  refine ⟨hs, fun hsends hfiles => ?_⟩
  obtain ⟨responses, hw, hall⟩ := hs.responses (clientLoop_complete hsends hfiles)
  refine ⟨responses, ?_, hall⟩
  rw [Connection.trace, wire_append, hw]
  exact List.append_nil _

def headRequest : RequestMessage where
  head := ascii "HEAD / HTTP/1.1\r\n\r\n"
  body := []
  head_ends := by decide +kernel
  body_length := by decide +kernel

def lastPost : RequestMessage where
  head := ascii "POST / HTTP/1.0\r\nContent-Length: 3\r\n\r\n"
  body := ascii "a=b"
  head_ends := by decide +kernel
  body_length := by decide +kernel

def pipelinedConnection : Connection where
  docRoot := ascii "/srv/www"
  clientIp := ascii "-"
  os _ := pageOs
  arrivals := [.data 72 (ascii "EAD / HTTP/1.1\r\n\r"), .interrupted,
    .data 10 (ascii "POST / HTTP/1.0\r\nContent-Length: 3\r\n\r\na=b")]
  outcomes := [.took 10, .interrupted]

theorem handleClient_serves_pipelined :
    Serves (handleClient pipelinedConnection) [headRequest, lastPost] :=
  (handleClient_serves pipelinedConnection [headRequest, lastPost] (by decide +kernel)
    (by decide +kernel) (by decide +kernel)).1

def postRequest : RequestMessage where
  head := ascii "POST / HTTP/1.1\r\nContent-Length: 28\r\n\r\n"
  body := ascii "GET /index.html HTTP/1.1\r\n\r\n"
  head_ends := by decide +kernel
  body_length := by decide +kernel

def postConnection : Connection where
  docRoot := ascii "/srv/www"
  clientIp := ascii "-"
  os _ := pageOs
  arrivals := [.data 80 (ascii "OST / HTTP/1.1\r\nContent-Length: 28\r\n\r\n"),
    .data 71 (ascii "ET /index.html HTTP/1.1\r\n\r\n")]
  outcomes := []

/-- The body of the one request on the stream is read as the head of another and answered. -/
theorem postConnection_not_served :
    streamOf postConnection.arrivals = [postRequest].flatMap RequestMessage.bytes ∧
      (handleClient postConnection).map (fun turn => (turn.read.consumedBytes, turn.complete)) =
        [(postRequest.head, true), (postRequest.body, true), ([], false)] ∧
      ¬ Serves (handleClient postConnection) [postRequest] := by
  have hrun : (handleClient postConnection).map
      (fun turn => (turn.read.consumedBytes, turn.complete)) =
        [(postRequest.head, true), (postRequest.body, true), ([], false)] := by decide +kernel
  refine ⟨by decide +kernel, hrun, fun hs => ?_⟩
  have hlen : (handleClient postConnection).length = 3 := by
    rw [← List.length_map, hrun]
    rfl
  generalize handleClient postConnection = turns at hlen hs
  cases hs with
  | cut ht hc => cases hlen
  | closed ht hk => cases hlen
  | more ht hc hk h =>
    cases h with
    | ended hr hw => cases hlen

end Httpd
