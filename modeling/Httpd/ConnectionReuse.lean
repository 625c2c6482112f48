import Httpd.Pipelining
import Httpd.ResponseReader

namespace Httpd
set_option autoImplicit true

/-- A connection on which a client sends one message and nothing else, to a server that finds the
files as they are in pass `k`. -/
def Connection.alone (c : Connection) (k : Nat) (m : RequestMessage) : Connection where
  docRoot := c.docRoot
  clientIp := c.clientIp
  os _ := c.os k
  arrivals := m.bytes.map fun b => .data b []
  outcomes := []

def Connection.answers (c : Connection) : Nat → List RequestMessage → List Bytes
  | _, [] => []
  | k, m :: messages =>
    c.response k m.outcome :: if m.keptAlive then c.answers (k + 1) messages else []

theorem clientLoop_response (c : Connection) {turn : Turn}
    (h : (clientLoop c fuel k s outcomes)[i]? = some turn) :
    (turn.complete = true → wire turn.events = c.response (k + i) turn.read) ∧
      (turn.read = .eof → wire turn.events = []) := by
  induction fuel generalizing k s outcomes i with
  | zero => cases h
  | succ fuel ih =>
    have hpass := clientPass_wire c k s outcomes
    rw [clientLoop] at h
    generalize clientPass c k s outcomes = pass at hpass h
    have hfirst : (pass.1.complete = true → wire pass.1.events = c.response k pass.1.read) ∧
        (pass.1.read = .eof → wire pass.1.events = []) := by
      cases hpass with
      | ended hr hc hw => exact ⟨fun h => absurd (hc.symm.trans h) Bool.false_ne_true, fun _ => hw⟩
      | whole hr hc hw hm =>
        refine ⟨fun _ => hw, fun he => ?_⟩
        rw [he] at hr
        cases hr
      | cut hr hc hne hm =>
        refine ⟨fun h => absurd (hc.symm.trans h) Bool.false_ne_true, fun he => ?_⟩
        rw [he] at hr
        cases hr
    obtain ⟨first, next⟩ := pass
    cases next with
    | none =>
      cases i with
      | zero =>
        cases h
        exact hfirst
      | succ i => cases h
    | some next =>
      cases i with
      | zero =>
        cases h
        exact hfirst
      | succ i =>
        have hlater := ih h
        rw [Nat.add_assoc, Nat.add_comm 1 i] at hlater
        exact hlater

theorem served_wire {c : Connection} (h : Serves turns messages)
    (hw : ∀ (i : Nat) turn, turns[i]? = some turn →
      (turn.complete = true → wire turn.events = c.response (k + i) turn.read) ∧
        (turn.read = .eof → wire turn.events = []))
    (hc : ∀ turn ∈ turns, turn.read ≠ .eof → turn.complete = true) :
    wire (turns.flatMap Turn.events) = (c.answers k messages).flatten := by
  have hserved : ∀ {turn : Turn} {m : RequestMessage}, turn.Serves m → turn.read ≠ .eof :=
    fun ht he => RequestMessage.outcome_ne_eof _ (ht.1.symm.trans he)
  induction h generalizing k with
  | ended hr hn =>
    rw [List.flatMap_singleton, hn]
    rfl
  | @cut turn m messages ht hn =>
    have hall := hc turn List.mem_cons_self (hserved ht)
    rw [hn] at hall
    cases hall
  | @closed turn m messages ht hk =>
    have hfirst := (hw 0 turn rfl).1 (hc turn List.mem_cons_self (hserved ht))
    rw [List.flatMap_singleton, hfirst, ht.1, Connection.answers, hk]
    exact (List.append_nil _).symm
  | @more turns messages turn m ht hcomplete hk _ ih =>
    have hlater := ih (k := k + 1)
      (fun i turn' hi => by
        rw [Nat.add_assoc, Nat.add_comm 1 i]
        exact hw (i + 1) turn' hi)
      fun turn' hm => hc turn' (List.mem_cons_of_mem _ hm)
    rw [List.flatMap_cons, wire_append, (hw 0 turn rfl).1 hcomplete, ht.1, hlater,
      Connection.answers, hk, if_pos rfl]
    rfl

theorem trace_answers {c : Connection} {messages : List RequestMessage}
    (hstream : streamOf c.arrivals = messages.flatMap RequestMessage.bytes)
    (hfailed : .failed ∉ c.arrivals) (hbody : ∀ m ∈ messages, m.keptAlive = true → m.body = [])
    (hr : Reliable c.outcomes) (hfiles : ∀ k, (c.os k).FilesSteady) :
    wire c.trace = (c.answers 0 messages).flatten := by
  have hwire : wire c.trace = wire ((handleClient c).flatMap Turn.events) := by
    rw [Connection.trace, wire_append]
    exact List.append_nil _
  have hunread : (ReadState.initial c.arrivals).unread = streamOf c.arrivals :=
    ReadState.unread_initial c.arrivals
  rw [hwire]
  apply served_wire
  · apply clientLoop_serves _ (hunread.trans hstream) hfailed hbody
    rw [hunread]
    exact Nat.lt_succ_self _
  · exact fun i turn hi => clientLoop_response c hi
  · exact clientLoop_complete hr hfiles

theorem trace_alone (c : Connection) (k : Nat) (m : RequestMessage)
    (hbody : m.keptAlive = true → m.body = []) (hfiles : (c.os k).FilesSteady) :
    wire (c.alone k m).trace = c.response k m.outcome := by
  have hstream : streamOf (c.alone k m).arrivals = [m].flatMap RequestMessage.bytes := by
    rw [List.flatMap_singleton]
    exact streamOf_single m.bytes
  have hfailed : .failed ∉ (c.alone k m).arrivals := single_notFailed m.bytes
  have hall := trace_answers hstream hfailed (List.forall_mem_singleton.2 hbody)
    (List.forall_mem_nil _) fun _ => hfiles
  have hone : (c.alone k m).answers 0 [m] = [c.response k m.outcome] := by
    rw [Connection.answers]
    split <;> rfl
  rw [hall, hone]
  exact List.append_nil _

theorem answers_alone (c : Connection) (k : Nat) {messages : List RequestMessage}
    (hbody : ∀ m ∈ messages, m.keptAlive = true → m.body = [])
    (hfiles : ∀ k, (c.os k).FilesSteady) :
    c.answers k messages =
      ((answered messages).zipIdx k).map fun p => wire (c.alone p.2 p.1).trace := by
  induction messages generalizing k with
  | nil => rfl
  | cons m messages ih =>
    obtain ⟨hm, hmessages⟩ := List.forall_mem_cons.1 hbody
    rw [Connection.answers, answered, ih (k + 1) hmessages, ← trace_alone c k m hm (hfiles k)]
    cases m.keptAlive <;> rfl

/-- To keep a connection and to send requests ahead on it changes nothing but the number of
connections: each message up to the first that is not kept alive is answered, byte for byte, as it
is on a connection of its own, whatever the pieces in which the messages arrive. -/
theorem handleClient_reuse (c : Connection) (messages : List RequestMessage)
    (hstream : streamOf c.arrivals = messages.flatMap RequestMessage.bytes)
    (hfailed : .failed ∉ c.arrivals) (hbody : ∀ m ∈ messages, m.keptAlive = true → m.body = [])
    (hr : Reliable c.outcomes) (hfiles : ∀ k, (c.os k).FilesSteady) :
    wire c.trace = (answered messages).zipIdx.flatMap fun p => wire (c.alone p.2 p.1).trace := by
  rw [trace_answers hstream hfailed hbody hr hfiles, answers_alone c 0 hbody hfiles,
    List.flatMap_def]

theorem handleClient_reuse_pipelined : wire pipelinedConnection.trace =
    wire (pipelinedConnection.alone 0 headRequest).trace ++
      wire (pipelinedConnection.alone 1 lastPost).trace := by
  have hkept : headRequest.keptAlive = true ∧ lastPost.keptAlive = false := by decide +kernel
  have hreliable : Reliable pipelinedConnection.outcomes := by
    intro outcome ho
    rcases List.mem_cons.1 ho with rfl | ho
    · exact .inl ⟨10, rfl⟩
    · exact .inr (List.mem_singleton.1 ho)
  have hall := handleClient_reuse pipelinedConnection [headRequest, lastPost] (by decide +kernel)
    (by decide +kernel) (by decide +kernel) hreliable fun _ => pageOs_filesSteady
  have hboth : answered [headRequest, lastPost] = [headRequest, lastPost] := by
    simp only [answered, hkept.1, hkept.2, if_true, Bool.false_eq_true, if_false]
  have hplaces : [headRequest, lastPost].zipIdx = [(headRequest, 0), (lastPost, 1)] := rfl
  rw [hall, hboth, hplaces, List.flatMap_cons, List.flatMap_singleton]

end Httpd
