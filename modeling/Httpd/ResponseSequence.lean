import Httpd.ClientLoop

namespace Httpd
set_option autoImplicit true

theorem wire_of_receives (h : ∀ e ∈ events, SocketEvent.isReceive e = true) : wire events = [] := by
  apply List.flatMap_eq_nil_iff.2
  intro e he
  cases e with
  | sent chunk => cases h _ he
  | _ => rfl

def Turn.Answers (turn : Turn) (keepAlive : Bool) : Prop :=
  ∃ message, IsResponse turn.read.headOnly message ∧
    messageField (ascii "Connection") message = some (connectionText keepAlive) ∧
    (turn.complete = true → wire turn.events = message) ∧
    (turn.complete = false → ∃ b rest, wire turn.events ++ b :: rest = message)

theorem Reply.Answers.turn {reply : Reply} {read : ReadOutcome}
    (h : reply.Answers read.headOnly keepAlive)
    (he : ∀ e ∈ events, SocketEvent.isReceive e = true) :
    Turn.Answers ⟨read, events ++ reply.run.events, reply.run.ok, log⟩ keepAlive := by
  obtain ⟨message, hs, hm, hf⟩ := h
  have hw : wire (events ++ reply.run.events) = wire reply.run.events := by
    rw [wire_append, wire_of_receives he, List.nil_append]
  exact ⟨message, hm, hf, fun hc => hw.trans (hs.full hc),
    fun hc => hw.symm ▸ hs.cut hc⟩

theorem Reply.Answers.sends {reply : Reply} (h : reply.Answers headOnly keepAlive) :
    ∀ e ∈ reply.run.events, e.isSend = true := by
  obtain ⟨_, hs, _, _⟩ := h
  exact hs.sends

/-- The bytes on the wire are one response for every turn that has anything to answer; only
the last may be cut short, and nothing follows it then. -/
inductive Answered : List Turn → Bytes → Prop where
  | ended (hr : turn.read = .eof) (hw : wire turn.events = []) : Answered [turn] []
  | cut (hr : turn.read ≠ .eof) (hm : IsResponse turn.read.headOnly message)
      (hw : wire turn.events ++ b :: rest = message) : Answered [turn] (wire turn.events)
  | last (hr : turn.read ≠ .eof) (hm : IsResponse turn.read.headOnly message)
      (hw : wire turn.events = message) : Answered [turn] message
  | more (hr : turn.read ≠ .eof) (hm : IsResponse turn.read.headOnly message)
      (hw : wire turn.events = message) (ht : Answered turns later) :
      Answered (turn :: turns) (message ++ later)

theorem Turn.Answers.answered_one {turn : Turn} (h : turn.Answers keepAlive)
    (hr : turn.read ≠ .eof) : Answered [turn] (wire turn.events) := by
  obtain ⟨message, hm, _, hfull, hcut⟩ := h
  cases hc : turn.complete with
  | true =>
    rw [hfull hc]
    exact .last hr hm (hfull hc)
  | false =>
    obtain ⟨b, rest, hw⟩ := hcut hc
    exact .cut hr hm hw

theorem Turn.Answers.answered_more {turn : Turn} (h : turn.Answers keepAlive)
    (hr : turn.read ≠ .eof) (hc : turn.complete = true) (ht : Answered turns later) :
    Answered (turn :: turns) (wire turn.events ++ later) := by
  obtain ⟨message, hm, _, hfull, _⟩ := h
  rw [hfull hc]
  exact .more hr hm (hfull hc) ht

inductive PassCases (c : Connection) (k : Nat) (s : ReadState) :
    Turn × Option (ReadState × List SendOutcome) → Prop where
  | ended (hr : turn.read = .eof) (hc : turn.complete = false) (hw : wire turn.events = []) :
      PassCases c k s (turn, none)
  | refused (hr : turn.read = .bad) (ha : turn.Answers false) : PassCases c k s (turn, none)
  | stopped {turn : Turn} {request : HttpRequest} {requestLine head : Bytes}
      (hr : turn.read = .request request requestLine head)
      (ha : turn.Answers (httpShouldKeepAlive request && !fallsBack (c.os k) c.docRoot request))
      (hu : head <+: s.unread)
      (hs : turn.complete = false ∨ httpShouldKeepAlive request = false) :
      PassCases c k s (turn, none)
  | continued {turn : Turn} {request : HttpRequest} {requestLine head : Bytes}
      {s' : ReadState} {outcomes : List SendOutcome}
      (hr : turn.read = .request request requestLine head)
      (ha : turn.Answers (!fallsBack (c.os k) c.docRoot request)) (hc : turn.complete = true)
      (hk : httpShouldKeepAlive request = true) (hs : s' = (readNextRequest s).state)
      (hu : head ++ s'.unread = s.unread) (hl : s'.unread.length < s.unread.length) :
      PassCases c k s (turn, some (s', outcomes))

theorem badRequest_answers (outcomes : List SendOutcome) :
    (sendSimpleResponse none 400 (ascii "Bad Request\n") false outcomes).Answers
      (ReadOutcome.headOnly .bad) false :=
  sendSimpleResponse_answers none (by decide) (by decide) false outcomes

theorem clientPass_cases (c : Connection) (k : Nat) (s : ReadState) (outcomes : List SendOutcome) :
    PassCases c k s (clientPass c k s outcomes) := by
  have he := readNextRequest_events s
  simp only [clientPass]
  cases ho : (readNextRequest s).outcome with
  | eof => exact .ended rfl rfl (wire_of_receives he)
  | bad => exact .refused rfl ((badRequest_answers outcomes).turn he)
  | request request requestLine head =>
    obtain ⟨hu, hl⟩ := readNextRequest_shortens ho
    have hr := respond_answers (c.os k) c.docRoot request (httpShouldKeepAlive request) outcomes
    simp only
    by_cases hgo : ((respond (c.os k) c.docRoot request (httpShouldKeepAlive request)
        outcomes).run.ok && httpShouldKeepAlive request) = true
    · rw [if_pos hgo]
      obtain ⟨hok, hk⟩ := Bool.and_eq_true_iff.1 hgo
      have hkeep : (httpShouldKeepAlive request && !fallsBack (c.os k) c.docRoot request) =
          !fallsBack (c.os k) c.docRoot request := by rw [hk, Bool.true_and]
      exact .continued rfl (hkeep ▸ hr.turn he) hok hk rfl hu hl
    · rw [if_neg hgo]
      rw [Bool.not_eq_true, Bool.and_eq_false_iff] at hgo
      exact .stopped rfl (hr.turn he) ⟨_, hu⟩ hgo

theorem clientPass_read (c : Connection) (k : Nat) (s : ReadState) (outcomes : List SendOutcome) :
    (clientPass c k s outcomes).1.read = (readNextRequest s).outcome := by
  simp only [clientPass]
  cases (readNextRequest s).outcome <;> rfl

theorem clientPass_events (c : Connection) (k : Nat) (s : ReadState) (outcomes : List SendOutcome) :
    ∀ e ∈ (clientPass c k s outcomes).1.events, e.isReceive = true ∨ e.isSend = true := by
  have hcalls : ∀ {events : List SocketEvent}, (∀ e ∈ events, e.isSend = true) →
      ∀ e ∈ (readNextRequest s).events ++ events, e.isReceive = true ∨ e.isSend = true := by
    intro events hs e he
    exact (List.mem_append.1 he).imp (readNextRequest_events s e) (hs e)
  simp only [clientPass]
  cases ho : (readNextRequest s).outcome with
  | eof => exact fun e he => .inl (readNextRequest_events s e he)
  | bad => exact hcalls (badRequest_answers outcomes).sends
  | request request requestLine head => exact hcalls (respond_answers _ _ request _ outcomes).sends

theorem clientLoop_answered {s : ReadState} (h : s.unread.length < fuel) :
    Answered (clientLoop c fuel k s outcomes)
      (wire ((clientLoop c fuel k s outcomes).flatMap Turn.events)) := by
  induction fuel generalizing k s outcomes with
  | zero => cases h
  | succ fuel ih =>
    have hp := clientPass_cases c k s outcomes
    rw [clientLoop]
    revert hp
    generalize clientPass c k s outcomes = pass
    intro hp
    cases hp with
    | ended hr hc hw =>
      rw [List.flatMap_singleton, hw]
      exact .ended hr hw
    | refused hr ha =>
      rw [List.flatMap_singleton]
      exact ha.answered_one (by rw [hr]; nofun)
    | stopped hr ha hu hs =>
      rw [List.flatMap_singleton]
      exact ha.answered_one (by rw [hr]; nofun)
    | continued hr ha hc hk hs hu hl =>
      rw [List.flatMap_cons, wire_append]
      exact ha.answered_more (by rw [hr]; nofun) hc (ih (by omega))

theorem clientLoop_events (h : turn ∈ clientLoop c fuel k s outcomes) :
    ∀ e ∈ turn.events, e.isReceive = true ∨ e.isSend = true := by
  induction fuel generalizing k s outcomes with
  | zero => cases h
  | succ fuel ih =>
    have he := clientPass_events c k s outcomes
    rw [clientLoop] at h
    revert he h
    generalize clientPass c k s outcomes = pass
    obtain ⟨first, next⟩ := pass
    intro h he
    cases next with
    | none =>
      rw [List.mem_singleton.1 h]
      exact he
    | some next =>
      rcases List.mem_cons.1 h with h | h
      · rw [h]
        exact he
      · exact ih h

theorem clientLoop_consumed {s : ReadState} :
    ((clientLoop c fuel k s outcomes).flatMap fun t => t.read.consumedBytes) <+: s.unread := by
  induction fuel generalizing k s outcomes with
  | zero => exact List.nil_prefix
  | succ fuel ih =>
    have hp := clientPass_cases c k s outcomes
    rw [clientLoop]
    revert hp
    generalize clientPass c k s outcomes = pass
    intro hp
    cases hp with
    | ended hr hc hw =>
      rw [List.flatMap_singleton, hr]
      exact List.nil_prefix
    | refused hr ha =>
      rw [List.flatMap_singleton, hr]
      exact List.nil_prefix
    | stopped hr ha hu hs =>
      rw [List.flatMap_singleton, hr]
      exact hu
    | continued hr ha hc hk hs hu hl =>
      rw [List.flatMap_cons, hr, ← hu]
      exact (List.prefix_append_right_inj _).2 ih

/-- Whatever its system calls answer, a connection carries whole responses, one for each request
taken and in their order, of which only the last may be cut short; then it is closed, once. -/
theorem handleClient_answered (c : Connection) :
    Answered (handleClient c) (wire c.trace) ∧
      ((handleClient c).flatMap fun t => t.read.consumedBytes) <+: streamOf c.arrivals ∧
      ∃ before, c.trace = before ++ [.closed] ∧ .closed ∉ before := by
  refine ⟨?_, ?_, (handleClient c).flatMap Turn.events, rfl, ?_⟩
  · rw [Connection.trace, wire_append]
    change Answered _ (_ ++ [])
    rw [List.append_nil]
    exact clientLoop_answered (by rw [ReadState.unread_initial]; exact Nat.lt_succ_self _)
  · rw [← ReadState.unread_initial]
    exact clientLoop_consumed
  · intro h
    obtain ⟨turn, ht, he⟩ := List.mem_flatMap.1 h
    rcases clientLoop_events ht _ he with h | h <;> cases h

end Httpd
