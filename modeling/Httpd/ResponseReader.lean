import Httpd.AccessLog
import Httpd.Lib.Framing
import Httpd.Numerals

namespace Httpd
open Framing
set_option autoImplicit true

/-- The size of the response that a stream starts with, as its head announces it to a client that
knows whether it has asked for the body. -/
def responseSize (headOnly : Bool) (stream : Bytes) : Option Nat :=
  (findHeaderEnd stream).bind fun headLength =>
    (headerField (ascii "Content-Length") (stream.take headLength)).map fun digits =>
      headLength + if headOnly then 0 else numeralValue digits

theorem responseSize_eq {stream : Bytes} (hend : findHeaderEnd stream = some headLength)
    (hlength : headerField (ascii "Content-Length") (stream.take headLength) = some (decimal n)) :
    responseSize headOnly stream = some (headLength + if headOnly then 0 else n) := by
  rw [responseSize, hend, Option.bind_some, hlength, Option.map_some, numeralValue_decimal]

theorem isResponse_framed (h : IsResponse headOnly message) :
    Framed responseSize headOnly message := by
  obtain ⟨_, headLength, n, hend, hfield, hsize⟩ := h
  rw [messageField, hend, Option.bind_some] at hfield
  have hle := (findHeaderEnd_le hend).2
  constructor
  · intro later
    have hhead : (message ++ later).take headLength = message.take headLength :=
      List.take_append_of_le_length hle
    rw [← hhead] at hfield
    rw [responseSize_eq (findHeaderEnd_append later hend) hfield, hsize]
  · rintro part size ⟨later, rfl⟩ hpart
    rw [responseSize] at hpart
    cases hfound : findHeaderEnd part with
    | none =>
      rw [hfound] at hpart
      cases hpart
    | some found =>
      have hsame := findHeaderEnd_append later hfound
      rw [hend, Option.some.injEq] at hsame
      subst hsame
      have hhead : (part ++ later).take headLength = part.take headLength :=
        List.take_append_of_le_length (findHeaderEnd_le hfound).2
      rw [hhead] at hfield
      rw [← responseSize, responseSize_eq hfound hfield, Option.some.injEq] at hpart
      rw [hsize, ← hpart]

theorem readMessages_nil (keys : List Bool) : readMessages responseSize keys [] = ([], []) := by
  cases keys <;> rfl

def Answer.text (answer : Answer) (headOnly : Bool) : Bytes :=
  answer.head ++ if headOnly then [] else answer.body.bytes

def Connection.response (c : Connection) (k : Nat) (read : ReadOutcome) : Bytes :=
  match read with
  | .eof => []
  | .bad => badRequestAnswer.text false
  | .request request _ _ =>
    (answer (c.os k) c.docRoot request (httpShouldKeepAlive request)).text read.headOnly

def Connection.responses (c : Connection) : Nat → List Turn → List Bytes
  | _, [] => []
  | k, turn :: turns =>
    if turn.complete then c.response k turn.read :: c.responses (k + 1) turns
    else c.responses (k + 1) turns

def unfinished (turns : List Turn) : Bytes :=
  (turns.filter fun turn => !turn.complete).flatMap fun turn => wire turn.events

/-- Which responses come without a body, in the order in which the server took the requests: those
to an accepted `HEAD`. A `HEAD` that is refused is answered with a body. -/
def asked (turns : List Turn) : List Bool := (takenTurns turns).map fun turn => turn.read.headOnly

theorem Answer.Sound.sent {answer : Answer} {headOnly : Bool} (h : answer.Sound keepAlive)
    (hok : (answer.reply headOnly outcomes).run.ok = true) :
    wire (answer.reply headOnly outcomes).run.events = answer.text headOnly := by
  obtain ⟨hbody, _⟩ := (h.succeeds headOnly outcomes).1 hok
  rw [(h.reply_sends headOnly outcomes).full hok, Answer.text]
  cases headOnly with
  | true => rfl
  | false => rw [Body.padded_eq (hbody.resolve_left Bool.false_ne_true)]

theorem Answer.Sound.wire_cases {answer : Answer} (h : answer.Sound keepAlive) (headOnly : Bool)
    (outcomes : List SendOutcome) :
    let run := (answer.reply headOnly outcomes).run
    (run.ok = true ∧ wire run.events = answer.text headOnly ∧
        Framed responseSize headOnly (answer.text headOnly)) ∨
      (run.ok = false ∧
        ∃ later, later ≠ [] ∧ Framed responseSize headOnly (wire run.events ++ later)) := by
  intro run
  obtain ⟨message, hsends, hresponse, _⟩ := h.answers headOnly outcomes
  have hframed := isResponse_framed hresponse
  cases hok : run.ok with
  | true =>
    have htext := h.sent hok
    have hsame : message = answer.text headOnly := (hsends.full hok).symm.trans htext
    rw [hsame] at hframed
    exact .inl ⟨rfl, htext, hframed⟩
  | false =>
    obtain ⟨b, rest, hcut⟩ := hsends.cut hok
    rw [← hcut] at hframed
    exact .inr ⟨rfl, b :: rest, List.cons_ne_nil b rest, hframed⟩

inductive PassWire (c : Connection) (k : Nat) :
    Turn × Option (ReadState × List SendOutcome) → Prop where
  | ended (hr : turn.read = .eof) (hc : turn.complete = false) (hw : wire turn.events = []) :
      PassWire c k (turn, none)
  | whole (hr : turn.read.isTaken = true) (hc : turn.complete = true)
      (hw : wire turn.events = c.response k turn.read)
      (hm : Framed responseSize turn.read.headOnly (c.response k turn.read)) :
      PassWire c k (turn, next)
  | cut (hr : turn.read.isTaken = true) (hc : turn.complete = false) (hne : later ≠ [])
      (hm : Framed responseSize turn.read.headOnly (wire turn.events ++ later)) :
      PassWire c k (turn, none)

theorem clientPass_wire (c : Connection) (k : Nat) (s : ReadState) (outcomes : List SendOutcome) :
    PassWire c k (clientPass c k s outcomes) := by
  have hreads := wire_of_receives (readNextRequest_events s)
  cases ho : (readNextRequest s).outcome with
  | eof =>
    simp only [clientPass, ho]
    exact .ended rfl rfl hreads
  | bad =>
    have hcases := badRequestAnswer_sound.wire_cases false outcomes
    simp only [clientPass, ho, badRequestAnswer_reply]
    generalize badRequestAnswer.reply false outcomes = reply at hcases ⊢
    have hwire : wire ((readNextRequest s).events ++ reply.run.events) = wire reply.run.events := by
      rw [wire_append, hreads, List.nil_append]
    obtain ⟨hok, hw, hm⟩ | ⟨hok, later, hne, hm⟩ := hcases
    · exact .whole rfl hok (hwire.trans hw) hm
    · rw [← hwire] at hm
      exact .cut rfl hok hne hm
  | request request requestLine head =>
    have hcases := (answer_sound (c.os k) c.docRoot request
      (httpShouldKeepAlive request)).wire_cases (!sendBody (some request)) outcomes
    rw [clientPass_request c k outcomes ho]
    generalize hreply : (answer (c.os k) c.docRoot request (httpShouldKeepAlive request)).reply
      (!sendBody (some request)) outcomes = reply at hcases ⊢
    have hwire : wire ((readNextRequest s).events ++ reply.run.events) = wire reply.run.events := by
      rw [wire_append, hreads, List.nil_append]
    obtain ⟨hok, hw, hm⟩ | ⟨hok, later, hne, hm⟩ := hcases
    · exact .whole rfl hok (hwire.trans hw) hm
    · simp only [hok, Bool.false_and, Bool.false_eq_true, if_false]
      rw [← hwire] at hm
      exact .cut rfl rfl hne hm

theorem asked_cons {turn : Turn} (h : turn.read.isTaken = true) (turns : List Turn) :
    asked (turn :: turns) = turn.read.headOnly :: asked turns := by
  have htaken : takenTurns (turn :: turns) = turn :: takenTurns turns :=
    List.filter_cons_of_pos h
  rw [asked, htaken, List.map_cons]
  rfl

theorem unfinished_complete {turn : Turn} (h : turn.complete = true) (turns : List Turn) :
    unfinished (turn :: turns) = unfinished turns := by
  have hskip : (turn :: turns).filter (fun turn => !turn.complete) =
      turns.filter fun turn => !turn.complete := by
    apply List.filter_cons_of_neg
    rw [h]
    exact Bool.false_ne_true
  rw [unfinished, hskip]
  rfl

theorem unfinished_single {turn : Turn} (h : turn.complete = false) :
    unfinished [turn] = wire turn.events := by
  have hkeep : [turn].filter (fun turn => !turn.complete) = [turn] := by
    apply List.filter_cons_of_pos
    rw [h]
    rfl
  rw [unfinished, hkeep, List.flatMap_singleton]

theorem readBack_whole {c : Connection} {turn : Turn} {turns : List Turn}
    (hr : turn.read.isTaken = true) (hc : turn.complete = true)
    (hw : wire turn.events = c.response k turn.read)
    (hm : Framed responseSize turn.read.headOnly (c.response k turn.read)) (later : List Bool)
    (h : readMessages responseSize (asked turns ++ later) (wire (turns.flatMap Turn.events)) =
      (c.responses (k + 1) turns, unfinished turns)) :
    readMessages responseSize (asked (turn :: turns) ++ later)
        (wire ((turn :: turns).flatMap Turn.events)) =
      (c.responses k (turn :: turns), unfinished (turn :: turns)) := by
  rw [asked_cons hr, List.flatMap_cons, wire_append, hw, List.cons_append, hm.readMessages_cons, h,
    unfinished_complete hc, Connection.responses, if_pos hc]

theorem clientLoop_readBack (c : Connection) (fuel k : Nat) (s : ReadState)
    (outcomes : List SendOutcome) (later : List Bool) :
    readMessages responseSize (asked (clientLoop c fuel k s outcomes) ++ later)
        (wire ((clientLoop c fuel k s outcomes).flatMap Turn.events)) =
      (c.responses k (clientLoop c fuel k s outcomes),
        unfinished (clientLoop c fuel k s outcomes)) := by
  induction fuel generalizing k s outcomes with
  | zero => exact readMessages_nil later
  | succ fuel ih =>
    have hpass := clientPass_wire c k s outcomes
    rw [clientLoop]
    generalize clientPass c k s outcomes = pass at hpass
    cases hpass with
    | @ended turn hr hc hw =>
      have htaken : takenTurns [turn] = [] := by
        apply List.filter_cons_of_neg
        rw [hr]
        exact Bool.false_ne_true
      have hnone : asked [turn] = [] := congrArg _ htaken
      rw [hnone, List.flatMap_singleton, hw, List.nil_append, readMessages_nil,
        unfinished_single hc, hw, Connection.responses, if_neg (ne_true_of_eq_false hc)]
      rfl
    | @whole turn next hr hc hw hm =>
      cases next with
      | none => exact readBack_whole hr hc hw hm later (readMessages_nil later)
      | some next => exact readBack_whole hr hc hw hm later (ih (k + 1) next.1 next.2)
    | @cut turn later' hr hc hne hm =>
      rw [asked_cons hr, List.flatMap_singleton, List.cons_append, hm.readMessages_cut hne,
        unfinished_single hc, Connection.responses, if_neg (ne_true_of_eq_false hc)]
      rfl

/-- A client that knows what it has asked for reads off the stream of a connection the responses
that were sent in full, each the answer to what was read in its pass; what is left is the part of
a response that was cut short. -/
theorem handleClient_readBack (c : Connection) (later : List Bool) :
    readMessages responseSize (asked (handleClient c) ++ later) (wire c.trace) =
      (c.responses 0 (handleClient c), unfinished (handleClient c)) := by
  have hwire : wire c.trace = wire ((handleClient c).flatMap Turn.events) := by
    rw [Connection.trace, wire_append]
    exact List.append_nil _
  rw [hwire]
  exact clientLoop_readBack c _ 0 _ c.outcomes later

end Httpd
