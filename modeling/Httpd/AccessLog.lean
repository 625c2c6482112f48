import Httpd.HeadRequests
import Httpd.Server

namespace Httpd
set_option autoImplicit true

def SocketEvent.isFailure : SocketEvent → Bool
  | .sent [] | .sendFailed | .sendBroken => true
  | _ => false

def SendRun.SucceedsIf (run : SendRun) (p : Prop) : Prop :=
  run.ok = true ↔ p ∧ ∀ e ∈ run.events, e.isFailure = false

namespace SendRun

theorem done_succeeds (outcomes : List SendOutcome) : (done outcomes).SucceedsIf True :=
  ⟨fun _ => ⟨trivial, nofun⟩, fun _ => rfl⟩

theorem SucceedsIf.cons_event {run : SendRun} (h : run.SucceedsIf p) (event : SocketEvent)
    (he : event.isFailure = false) :
    SucceedsIf { run with events := event :: run.events } p := by
  constructor
  · intro hok
    obtain ⟨hp, hall⟩ := h.1 hok
    exact ⟨hp, List.forall_mem_cons.2 ⟨he, hall⟩⟩
  · rintro ⟨hp, hall⟩
    exact h.2 ⟨hp, (List.forall_mem_cons.1 hall).2⟩

theorem SucceedsIf.andThen {first : SendRun} (h : first.SucceedsIf True)
    (hn : ∀ rest, (next rest).SucceedsIf p) : (first.andThen next).SucceedsIf p := by
  unfold SendRun.andThen
  cases hok : first.ok with
  | true =>
    simp only [↓reduceIte]
    have hfirst := (h.1 hok).2
    constructor
    · intro hlater
      obtain ⟨hp, hall⟩ := (hn _).1 hlater
      exact ⟨hp, List.forall_mem_append.2 ⟨hfirst, hall⟩⟩
    · rintro ⟨hp, hall⟩
      exact (hn _).2 ⟨hp, (List.forall_mem_append.1 hall).2⟩
  | false =>
    rw [if_neg Bool.false_ne_true]
    constructor
    · intro hok'
      rw [hok] at hok'
      cases hok'
    · rintro ⟨_, hall⟩
      exact h.2 ⟨trivial, hall⟩

end SendRun

theorem sendAll_succeeds (outcomes : List SendOutcome) (data : Bytes) :
    (sendAll outcomes data).SucceedsIf True := by
  have hsent : ∀ {chunk : Bytes}, chunk ≠ [] → SocketEvent.isFailure (.sent chunk) = false := by
    intro chunk hne
    obtain ⟨c, rest, rfl⟩ := List.exists_cons_of_ne_nil hne
    rfl
  induction outcomes generalizing data with
  | nil =>
    rw [sendAll]
    by_cases hd : data = []
    · rw [if_pos hd]
      exact SendRun.done_succeeds _
    · rw [if_neg hd]
      exact ⟨fun _ => ⟨trivial, List.forall_mem_singleton.2 (hsent hd)⟩, fun _ => rfl⟩
  | cons outcome outcomes ih =>
    rw [sendAll.eq_def]
    by_cases hd : data = []
    · simp only [hd]
      exact SendRun.done_succeeds _
    simp only [if_neg hd]
    have hstop : ∀ event, SocketEvent.isFailure event = true →
        SendRun.SucceedsIf ⟨[event], false, outcomes⟩ True := by
      intro event he
      refine ⟨fun h => absurd h Bool.false_ne_true, fun h => ?_⟩
      rw [h.2 event List.mem_cons_self] at he
      cases he
    cases outcome with
    | took extra =>
      apply (ih (data.drop (extra + 1))).cons_event
      apply hsent
      intro hnil
      exact (List.take_eq_nil_iff.1 hnil).elim (Nat.succ_ne_zero extra) hd
    | interrupted => exact (ih data).cons_event .sendInterrupted rfl
    | zero => exact hstop _ rfl
    | failed => exact hstop _ rfl
    | broken => exact hstop _ rfl

theorem sendHeaders_succeeds (h : text.length < responseBufferSize)
    (outcomes : List SendOutcome) : (sendHeaders text outcomes).SucceedsIf True := by
  have hmax : text.length ≤ intMax := Nat.le_trans (Nat.le_of_lt h) (by decide)
  have hfit : ¬ ((text.length : Int) < 0 ∨ (text.length : Int) ≥ responseBufferSize) := by
    omega
  simp only [sendHeaders, snprintf, if_pos hmax, if_neg hfit]
  exact sendAll_succeeds outcomes _

theorem sendFileLoop_succeeds (hfuel : remaining ≤ fuel) (file : Bytes) (freads : List Nat)
    (outcomes : List SendOutcome) :
    (sendFileLoop fuel remaining file freads outcomes).SucceedsIf (remaining ≤ file.length) := by
  have hdone : (SendRun.done outcomes).SucceedsIf (0 ≤ file.length) :=
    ⟨fun _ => ⟨Nat.zero_le _, List.forall_mem_nil _⟩, fun _ => rfl⟩
  induction fuel generalizing remaining file freads outcomes with
  | zero =>
    have h₀ : remaining = 0 := Nat.le_zero.1 hfuel
    subst h₀
    exact hdone
  | succ fuel ih =>
    rw [sendFileLoop]
    by_cases h₀ : remaining = 0
    · rw [if_pos h₀, h₀]
      exact hdone
    have hw := want_bounds h₀
    simp only [if_neg h₀]
    generalize (if remaining < readBufferSize then remaining else readBufferSize) = want at hw ⊢
    obtain ⟨hfile, _, hempty⟩ := fread_chunk want file freads
    generalize fread want file freads = piece at hfile hempty ⊢
    obtain ⟨buffer, later, freads'⟩ := piece
    simp only at hfile hempty ⊢
    by_cases hb : buffer = []
    · rw [if_pos hb, hempty hw.1 hb]
      exact ⟨fun h => absurd h Bool.false_ne_true, fun h => absurd (Nat.le_zero.1 h.1) h₀⟩
    · rw [if_neg hb]
      have hpos := List.length_pos_iff.2 hb
      have hlen := congrArg List.length hfile
      rw [List.length_append] at hlen
      have hleft : remaining ≤ file.length ↔ remaining - buffer.length ≤ later.length := by omega
      rw [hleft]
      apply (sendAll_succeeds outcomes buffer).andThen
      intro rest
      exact ih (by omega) later freads' rest
        ⟨fun _ => ⟨Nat.zero_le _, List.forall_mem_nil _⟩, fun _ => rfl⟩

theorem Body.send_succeeds (body : Body) (outcomes : List SendOutcome) :
    (body.send outcomes).SucceedsIf body.Available := by
  cases body with
  | text bytes => exact sendAll_succeeds outcomes bytes
  | file count contents freads =>
    exact sendFileLoop_succeeds (Nat.le_refl count.toNat) contents freads outcomes

/-- An answer is given in full exactly if its body is there or not asked for, and no send fails. -/
theorem Answer.Sound.succeeds {answer : Answer} (h : answer.Sound keepAlive) (headOnly : Bool)
    (outcomes : List SendOutcome) :
    (answer.reply headOnly outcomes).run.SucceedsIf (headOnly = true ∨ answer.body.Available) := by
  apply (sendHeaders_succeeds h.fits outcomes).andThen
  intro rest
  cases headOnly with
  | true => exact ⟨fun _ => ⟨.inl rfl, nofun⟩, fun _ => rfl⟩
  | false =>
    have hiff : (false = true ∨ answer.body.Available) ↔ answer.body.Available :=
      ⟨fun ho => ho.resolve_left Bool.false_ne_true, .inr⟩
    rw [hiff]
    exact answer.body.send_succeeds rest

def ReadOutcome.isTaken : ReadOutcome → Bool
  | .eof => false
  | _ => true

def takenTurns (turns : List Turn) : List Turn := turns.filter fun turn => turn.read.isTaken

def accessLog (turns : List Turn) : List LogEntry := turns.filterMap Turn.log

def Turn.Logs (turn : Turn) (entry : LogEntry) : Prop :=
  turn.log = some entry ∧ ∀ request requestLine head,
    turn.read = .request request requestLine head → entry.requestLine = requestLine

/-- Every request taken has one entry in the log, and the entries are in the order of the
requests. -/
def Logged (turns : List Turn) : Prop := List.Forall₂ Turn.Logs (takenTurns turns) (accessLog turns)

def Turn.Delivered (turn : Turn) (os : Os) (docRoot : Bytes) (request : HttpRequest) : Prop :=
  ((!sendBody (some request)) = true ∨
    (answer os docRoot request (httpShouldKeepAlive request)).body.Available) ∧
  ∀ e ∈ turn.events, e.isFailure = false

def AllDelivered (c : Connection) : Nat → List Turn → Prop
  | _, [] => True
  | k, turn :: later =>
    (∀ request requestLine head, turn.read = .request request requestLine head →
      turn.Delivered (c.os k) c.docRoot request) ∧ AllDelivered c (k + 1) later

theorem isFailure_of_receives {events : List SocketEvent}
    (h : ∀ e ∈ events, e.isReceive = true) : ∀ e ∈ events, e.isFailure = false := by
  intro e he
  cases e with
  | received _ | recvInterrupted | recvFailed => rfl
  | sent _ | sendInterrupted | sendFailed | sendBroken | closed => cases h _ he

inductive PassLog (c : Connection) (k : Nat) : Turn → Prop where
  | ended (hr : turn.read = .eof) (hl : turn.log = none) : PassLog c k turn
  | refused {turn : Turn} {entry : LogEntry} (hr : turn.read = .bad)
      (hl : turn.log = some entry) : PassLog c k turn
  | answered {turn : Turn} {entry : LogEntry} {request : HttpRequest} {requestLine head : Bytes}
      (hr : turn.read = .request request requestLine head) (hl : turn.Logs entry)
      (hd : turn.Delivered (c.os k) c.docRoot request) : PassLog c k turn
  | lost {turn : Turn} {request : HttpRequest} {requestLine head : Bytes}
      (hr : turn.read = .request request requestLine head) (hl : turn.log = none)
      (hd : ¬ turn.Delivered (c.os k) c.docRoot request) : PassLog c k turn

theorem clientPass_log (c : Connection) (k : Nat) (s : ReadState) (outcomes : List SendOutcome) :
    PassLog c k (clientPass c k s outcomes).1 := by
  cases ho : (readNextRequest s).outcome with
  | eof =>
    simp only [clientPass, ho]
    exact .ended rfl rfl
  | bad =>
    simp only [clientPass, ho]
    exact .refused rfl rfl
  | request request requestLine head =>
    have hsound := answer_sound (c.os k) c.docRoot request (httpShouldKeepAlive request)
    have hiff := hsound.succeeds (!sendBody (some request)) outcomes
    have hreads := isFailure_of_receives (readNextRequest_events s)
    rw [clientPass_request c k outcomes ho]
    generalize (answer (c.os k) c.docRoot request (httpShouldKeepAlive request)).reply
      (!sendBody (some request)) outcomes = reply at hiff ⊢
    cases hok : reply.run.ok with
    | true =>
      obtain ⟨hbody, hall⟩ := hiff.1 hok
      refine .answered rfl ⟨rfl, ?_⟩ ⟨hbody, List.forall_mem_append.2 ⟨hreads, hall⟩⟩
      intro request' requestLine' head' hr
      cases hr
      rfl
    | false =>
      refine .lost rfl rfl fun hd => ?_
      have hsent := hiff.2 ⟨hd.1, (List.forall_mem_append.1 hd.2).2⟩
      rw [hok] at hsent
      cases hsent

theorem logged_cons (h : PassLog c k turn) (later : List Turn) :
    Logged (turn :: later) ↔
      (∀ request requestLine head, turn.read = .request request requestLine head →
        turn.Delivered (c.os k) c.docRoot request) ∧ Logged later := by
  cases h with
  | ended hr hl =>
    have htaken : takenTurns (turn :: later) = takenTurns later :=
      List.filter_cons_of_neg (by rw [hr]; nofun)
    have hlog : accessLog (turn :: later) = accessLog later := List.filterMap_cons_none hl
    have hnone : ∀ request requestLine head, turn.read = .request request requestLine head →
        turn.Delivered (c.os k) c.docRoot request := by
      intro _ _ _ hr'
      rw [hr] at hr'
      cases hr'
    rw [Logged, htaken, hlog]
    exact ⟨fun h => ⟨hnone, h⟩, And.right⟩
  | @refused entry hr hl =>
    have htaken : takenTurns (turn :: later) = turn :: takenTurns later :=
      List.filter_cons_of_pos (by rw [hr]; rfl)
    have hlog : accessLog (turn :: later) = entry :: accessLog later := List.filterMap_cons_some hl
    have hnone : ∀ request requestLine head, turn.read = .request request requestLine head →
        turn.Delivered (c.os k) c.docRoot request := by
      intro _ _ _ hr'
      rw [hr] at hr'
      cases hr'
    have hown : turn.Logs entry := by
      refine ⟨hl, fun _ _ _ hr' => ?_⟩
      rw [hr] at hr'
      cases hr'
    rw [Logged, htaken, hlog, List.forall₂_cons]
    exact ⟨fun h => ⟨hnone, h.2⟩, fun h => ⟨hown, h.2⟩⟩
  | @answered entry request requestLine head hr hl hd =>
    have htaken : takenTurns (turn :: later) = turn :: takenTurns later :=
      List.filter_cons_of_pos (by rw [hr]; rfl)
    have hlog : accessLog (turn :: later) = entry :: accessLog later :=
      List.filterMap_cons_some hl.1
    rw [Logged, htaken, hlog, List.forall₂_cons]
    refine ⟨fun h => ⟨fun request' _ _ hr' => ?_, h.2⟩, fun h => ⟨hl, h.2⟩⟩
    rw [hr] at hr'
    cases hr'
    exact hd
  | lost hr hl hd =>
    have htaken : takenTurns (turn :: later) = turn :: takenTurns later :=
      List.filter_cons_of_pos (by rw [hr]; rfl)
    constructor
    · intro h
      rw [Logged, htaken] at h
      generalize accessLog (turn :: later) = entries at h
      cases h with
      | cons hfirst _ =>
        have hsome := hfirst.1
        rw [hl] at hsome
        cases hsome
    · intro h
      exact absurd (h.1 _ _ _ hr) hd

theorem clientLoop_logged (c : Connection) (fuel k : Nat) (s : ReadState)
    (outcomes : List SendOutcome) :
    Logged (clientLoop c fuel k s outcomes) ↔
      AllDelivered c k (clientLoop c fuel k s outcomes) := by
  induction fuel generalizing k s outcomes with
  | zero => exact ⟨fun _ => trivial, fun _ => .nil⟩
  | succ fuel ih =>
    have hpass := clientPass_log c k s outcomes
    rw [clientLoop]
    revert hpass
    generalize clientPass c k s outcomes = pass
    obtain ⟨turn, next⟩ := pass
    intro hpass
    cases next with
    | none =>
      rw [logged_cons hpass]
      exact ⟨fun h => ⟨h.1, trivial⟩, fun h => ⟨h.1, .nil⟩⟩
    | some next =>
      obtain ⟨s', outcomes'⟩ := next
      simp only
      rw [logged_cons hpass, ih]
      rfl

/-- The log has an entry for every request taken, whatever happened to its answer, exactly if no
answer met a failing send or a file that had become too short. -/
theorem handleClient_logged (c : Connection) :
    Logged (handleClient c) ↔ AllDelivered c 0 (handleClient c) :=
  clientLoop_logged c _ 0 _ c.outcomes

def lostClient : Connection :=
  { pageConnection with
    arrivals := [.data 71 (ascii "ET /index.html HTTP/1.1\r\n\r\n")]
    outcomes := [.took 50, .failed] }

/-- The request was taken and part of the answer sent, and the log does not know of it. -/
theorem lostClient_not_logged : ¬ Logged (handleClient lostClient) := by
  have hreads : (handleClient lostClient).map (fun turn => turn.read.isTaken) = [true] := by
    decide +kernel
  have hlogs : (handleClient lostClient).map (fun turn => turn.log.isSome) = [false] := by
    decide +kernel
  generalize handleClient lostClient = turns at hreads hlogs ⊢
  intro h
  cases turns with
  | nil => cases hreads
  | cons turn later =>
    rw [List.map_cons, List.cons.injEq] at hreads hlogs
    obtain ⟨htaken, _⟩ := hreads
    obtain ⟨hlog, _⟩ := hlogs
    have hcons : takenTurns (turn :: later) = turn :: takenTurns later :=
      List.filter_cons_of_pos htaken
    rw [Logged, hcons] at h
    generalize accessLog (turn :: later) = entries at h
    cases h with
    | cons hfirst _ =>
      rw [hfirst.1] at hlog
      cases hlog

/-- The answers to what is not a request, and to a connection that finds the queue full. -/
def badRequestAnswer : Answer := simpleAnswer none 400 (ascii "Bad Request\n") false

def queueFullAnswer : Answer := simpleAnswer none 503 (ascii "Service Unavailable\n") false

theorem badRequestAnswer_reply (outcomes : List SendOutcome) :
    sendSimpleResponse none 400 (ascii "Bad Request\n") false outcomes =
      badRequestAnswer.reply false outcomes :=
  sendSimpleResponse_eq none 400 _ false outcomes

theorem queueFullAnswer_reply (outcomes : List SendOutcome) :
    sendSimpleResponse none 503 (ascii "Service Unavailable\n") false outcomes =
      queueFullAnswer.reply false outcomes :=
  sendSimpleResponse_eq none 503 _ false outcomes

theorem badRequestAnswer_sound : badRequestAnswer.Sound false :=
  simpleAnswer_sound none (by decide) (by decide) false

theorem queueFullAnswer_sound : queueFullAnswer.Sound false :=
  simpleAnswer_sound none (by decide) (by decide) false

def queueFullEntry (clientIp : Bytes) (outcomes : List SendOutcome) : LogEntry :=
  ⟨clientIp, ascii "-",
    (sendSimpleResponse none 503 (ascii "Service Unavailable\n") false outcomes).result⟩

/-- An entry has the status of the answer, and as many bytes as went out behind its head. -/
def LogEntry.Reports (entry : LogEntry) (answer : Answer) (events : List SocketEvent) : Prop :=
  entry.result.statusCode = answer.status ∧
    entry.result.bodyBytes.toNat = (wire events).length - answer.head.length

def Turn.Reported (turn : Turn) (os : Os) (docRoot : Bytes) : Prop :=
  ∀ entry, turn.log = some entry →
    match turn.read with
    | .eof => False
    | .bad => entry.Reports badRequestAnswer turn.events
    | .request request _ _ =>
      let answer := answer os docRoot request (httpShouldKeepAlive request)
      entry.Reports answer turn.events ∧
        entry.result.bodyBytes = if request.method = .head then 0 else answer.body.length

def AllReported (c : Connection) : Nat → List Turn → Prop
  | _, [] => True
  | k, turn :: later => turn.Reported (c.os k) c.docRoot ∧ AllReported c (k + 1) later

theorem Body.toNat_length {body : Body} (h : body.size < 2 ^ 64) : body.length.toNat = body.size := by
  cases body with
  | text bytes => exact UInt64.toNat_ofNat_of_lt' h
  | file count contents freads => rfl

theorem Answer.Sound.reports {answer : Answer} (h : answer.Sound keepAlive)
    (hok : (answer.reply headOnly outcomes).run.ok = true) (clientIp requestLine : Bytes) :
    LogEntry.Reports ⟨clientIp, requestLine, (answer.reply headOnly outcomes).result⟩ answer
        (answer.reply headOnly outcomes).run.events ∧
      (answer.reply headOnly outcomes).result.bodyBytes =
        if headOnly then 0 else answer.body.length := by
  have hresult : (answer.reply headOnly outcomes).result =
      ⟨answer.status, if headOnly then 0 else answer.body.length⟩ := if_pos hok
  have hwire := (h.reply_sends headOnly outcomes).full hok
  obtain ⟨request, reason, fields, ha⟩ := h
  refine ⟨⟨congrArg ResponseResult.statusCode hresult, ?_⟩, congrArg ResponseResult.bodyBytes hresult⟩
  simp only [hresult]
  rw [hwire, List.length_append, Nat.add_sub_cancel_left]
  cases headOnly with
  | true => rfl
  | false => exact (Body.toNat_length ha.size).trans answer.body.padded_length.symm

theorem reports_iff {answer : Answer} (h : answer.Sound keepAlive) (hs : answer.status ≠ 0)
    (hb : answer.body.Available) (outcomes : List SendOutcome) (clientIp requestLine : Bytes) :
    LogEntry.Reports ⟨clientIp, requestLine, (answer.reply false outcomes).result⟩ answer
        (answer.reply false outcomes).run.events ↔
      ∀ e ∈ (answer.reply false outcomes).run.events, e.isFailure = false := by
  have hiff := h.succeeds false outcomes
  constructor
  · intro hr
    cases hok : (answer.reply false outcomes).run.ok with
    | true => exact (hiff.1 hok).2
    | false =>
      have hresult : (answer.reply false outcomes).result = ⟨0, 0⟩ :=
        if_neg (by rw [← Bool.not_eq_true] at hok; exact hok)
      have hzero := hr.1
      simp only [hresult] at hzero
      exact absurd hzero.symm hs
  · intro hall
    exact (h.reports (hiff.2 ⟨.inr hb, hall⟩) clientIp requestLine).1

theorem LogEntry.reports_append (entry : LogEntry) (answer : Answer) {events : List SocketEvent}
    (h : wire events = []) (later : List SocketEvent) :
    entry.Reports answer (events ++ later) ↔ entry.Reports answer later := by
  rw [LogEntry.Reports, LogEntry.Reports, wire_append, h, List.nil_append]

theorem clientPass_reported (c : Connection) (k : Nat) (s : ReadState) (outcomes : List SendOutcome) :
    (clientPass c k s outcomes).1.Reported (c.os k) c.docRoot ↔
      ((clientPass c k s outcomes).1.read = .bad →
        ∀ e ∈ (clientPass c k s outcomes).1.events, e.isFailure = false) := by
  have hwire := wire_of_receives (readNextRequest_events s)
  have hreads := isFailure_of_receives (readNextRequest_events s)
  cases ho : (readNextRequest s).outcome with
  | eof =>
    simp only [clientPass, ho]
    apply iff_of_true
    · intro entry hentry
      cases hentry
    · intro hread
      cases hread
  | bad =>
    simp only [clientPass, ho, badRequestAnswer_reply]
    have hiff := reports_iff badRequestAnswer_sound (by decide) trivial outcomes c.clientIp
      (badRequestLine (readNextRequest s).state.buffer)
    generalize badRequestAnswer.reply false outcomes = reply at hiff ⊢
    constructor
    · intro hr _
      have hreport := (LogEntry.reports_append _ _ hwire _).1 (hr _ rfl)
      exact List.forall_mem_append.2 ⟨hreads, hiff.1 hreport⟩
    · intro hall entry hentry
      cases hentry
      have hsent := (List.forall_mem_append.1 (hall trivial)).2
      exact (LogEntry.reports_append _ _ hwire _).2 (hiff.2 hsent)
  | request request requestLine head =>
    have hsound := answer_sound (c.os k) c.docRoot request (httpShouldKeepAlive request)
    rw [clientPass_request c k outcomes ho]
    refine ⟨fun _ hread => absurd hread ?_, fun _ entry hentry => ?_⟩
    · intro he
      cases he
    simp only at hentry
    split at hentry
    · rename_i hok
      cases hentry
      obtain ⟨hreport, hbytes⟩ := hsound.reports hok c.clientIp requestLine
      refine ⟨(LogEntry.reports_append _ _ hwire _).2 hreport, hbytes.trans ?_⟩
      rw [headOnly_iff]
      exact if_congr decide_eq_true_iff rfl rfl
    · cases hentry

theorem clientLoop_reported (c : Connection) (fuel k : Nat) (s : ReadState)
    (outcomes : List SendOutcome) :
    AllReported c k (clientLoop c fuel k s outcomes) ↔
      ∀ turn ∈ clientLoop c fuel k s outcomes, turn.read = .bad →
        ∀ e ∈ turn.events, e.isFailure = false := by
  induction fuel generalizing k s outcomes with
  | zero => exact ⟨fun _ _ hturn => absurd hturn List.not_mem_nil, fun _ => trivial⟩
  | succ fuel ih =>
    have hpass := clientPass_reported c k s outcomes
    rw [clientLoop]
    revert hpass
    generalize clientPass c k s outcomes = pass
    obtain ⟨turn, next⟩ := pass
    intro hpass
    cases next with
    | none =>
      simp only
      rw [List.forall_mem_singleton]
      exact ⟨fun h => hpass.1 h.1, fun h => ⟨hpass.2 h, trivial⟩⟩
    | some next =>
      obtain ⟨s', outcomes'⟩ := next
      simp only
      rw [List.forall_mem_cons, ← ih]
      exact and_congr_left' hpass

/-- What is logged is what was chosen and sent, in the connection loop and for a connection that
finds the queue full, exactly if the 400 and the 503 answers meet no failing send. -/
theorem handleClient_reported (c : Connection) (clientIp : Bytes) (outcomes : List SendOutcome) :
    (AllReported c 0 (handleClient c) ↔
      ∀ turn ∈ handleClient c, turn.read = .bad → ∀ e ∈ turn.events, e.isFailure = false) ∧
    ((queueFullEntry clientIp outcomes).Reports queueFullAnswer (refusal outcomes) ↔
      ∀ e ∈ refusal outcomes, e.isFailure = false) := by
  have hloop := clientLoop_reported c ((streamOf c.arrivals).length + 1) 0 (.initial c.arrivals)
    c.outcomes
  refine ⟨hloop, ?_⟩
  have hiff := reports_iff queueFullAnswer_sound (by decide) trivial outcomes clientIp (ascii "-")
  rw [refusal, queueFullEntry, queueFullAnswer_reply, List.forall_mem_append]
  generalize queueFullAnswer.reply false outcomes = reply at hiff ⊢
  have hclose : ∀ e ∈ [SocketEvent.closed], e.isFailure = false := List.forall_mem_singleton.2 rfl
  have hwire : ∀ events, wire (events ++ [.closed]) = wire events := by
    intro events
    rw [wire_append]
    exact List.append_nil _
  constructor
  · intro hr
    rw [LogEntry.Reports, hwire] at hr
    exact ⟨hiff.1 hr, hclose⟩
  · intro hall
    rw [LogEntry.Reports, hwire]
    exact hiff.2 hall.1

def lostRefusal : Connection :=
  { pageConnection with
    arrivals := [.data 120 (ascii "\r\n\r\n")]
    outcomes := [.took 50, .failed] }

/-- The entry of the 400 answer says that the status was 0. -/
theorem lostRefusal_not_reported : ¬ AllReported lostRefusal 0 (handleClient lostRefusal) := by
  have hreads : (handleClient lostRefusal).map
      (fun turn => match turn.read with | .bad => true | _ => false) = [true] := by decide +kernel
  have hlogs : (handleClient lostRefusal).map
      (fun turn => turn.log.map fun entry => entry.result.statusCode) = [some 0] := by decide +kernel
  generalize handleClient lostRefusal = turns at hreads hlogs ⊢
  intro h
  cases turns with
  | nil => cases hreads
  | cons turn later =>
    rw [List.map_cons, List.cons.injEq] at hreads hlogs
    obtain ⟨hbad, _⟩ := hreads
    obtain ⟨entry, hentry, hzero⟩ := Option.map_eq_some_iff.1 hlogs.1
    have hreport := h.1 entry hentry
    cases hr : turn.read with
    | bad =>
      rw [hr] at hreport
      have hstatus := hreport.1
      rw [hzero] at hstatus
      cases hstatus
    | eof =>
      rw [hr] at hbad
      cases hbad
    | request request requestLine head =>
      rw [hr] at hbad
      cases hbad

end Httpd
