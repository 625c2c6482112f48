import Httpd.AccessLog
import Httpd.Visits

namespace Httpd
open Transition
set_option autoImplicit true

inductive Call where
  | io (event : SocketEvent)
  | log (entry : LogEntry)

def Call.event? : Call → Option SocketEvent
  | .io event => some event
  | .log _ => none

def Call.entry? : Call → Option LogEntry
  | .io _ => none
  | .log entry => some entry

def socketCalls (calls : List Call) : List SocketEvent := calls.filterMap Call.event?

def logCalls (calls : List Call) : List LogEntry := calls.filterMap Call.entry?

def Turn.calls (turn : Turn) : List Call := turn.events.map .io ++ turn.log.toList.map .log

def Connection.calls (c : Connection) : List Call :=
  (handleClient c).flatMap Turn.calls ++ [.io .closed]

def refusalCalls (clientIp : Bytes) (outcomes : List SendOutcome) : List Call :=
  (sendSimpleResponse none 503 (ascii "Service Unavailable\n") false outcomes).run.events.map .io ++
    [.log (queueFullEntry clientIp outcomes), .io .closed]

/-- The server with its access log, and with what is still to be done for the connections that are
served or refused. -/
structure LoggingServer where
  server : ServerState
  due : Fd → List Call
  log : List LogEntry

inductive Writer where
  | main
  | worker (i : Nat)

def Writer.socket (s : ServerState) : Writer → Option Fd
  | .main =>
    match s.main with
    | .refusing clientFd _ => some clientFd
    | _ => none
  | .worker i =>
    match s.workers[i]? with
    | some (.handling clientFd _) => some clientFd
    | _ => none

inductive LoggingAction where
  | act (a : Action) (clientIp : Bytes)
  | write (writer : Writer)

def LoggingAction.act? : LoggingAction → Option Action
  | .act a _ => some a
  | .write _ => none

namespace LoggingServer

def initial (queue : SocketQueue) (threadCount : Nat) (allocated : Bool) : LoggingServer :=
  ⟨.initial queue threadCount allocated, fun _ => [], []⟩

def afterIo (s : LoggingServer) (clientFd : Fd) : Option (Fd → List Call) :=
  match s.due clientFd with
  | .io _ :: rest => some (Function.update s.due clientFd rest)
  | _ => none

/-- What is to be done after a step of the server; `clientIp` is the address that `get_client_ip`
finds if the step refuses a connection. -/
def dueAfter (s : LoggingServer) (clientIp : Bytes) : Action → Option (Fd → List Call)
  | .enqueue mask outcomes =>
    match s.server.main with
    | .enqueuing clientFd =>
      match (s.server.monitor.enqueue clientFd mask).map Prod.fst with
      | some .full => some (Function.update s.due clientFd (refusalCalls clientIp outcomes))
      | some .closed => some (Function.update s.due clientFd [.io .closed])
      | _ => some s.due
    | _ => some s.due
  | .dequeue i c =>
    match (s.server.monitor.dequeue i).map Prod.fst with
    | some (.took clientFd _) => some (Function.update s.due clientFd c.calls)
    | _ => some s.due
  | .mainIo => (Writer.main.socket s.server).bind s.afterIo
  | .workerIo i => ((Writer.worker i).socket s.server).bind s.afterIo
  | _ => some s.due

def write (s : LoggingServer) (clientFd : Fd) : Option LoggingServer :=
  match s.due clientFd with
  | .log entry :: rest =>
    some { s with due := Function.update s.due clientFd rest, log := s.log ++ [entry] }
  | _ => none

def next (s : LoggingServer) : LoggingAction → Option LoggingServer
  | .act a clientIp =>
    (s.dueAfter clientIp a).bind fun due =>
      (s.server.next a).map fun server => { s with server := server, due := due }
  | .write writer => if s.server.alive then (writer.socket s.server).bind s.write else none

def Step (s : LoggingServer) (a : LoggingAction) (t : LoggingServer) : Prop := s.next a = some t

abbrev Entries := List (Nat × LogEntry)

def record (s : LoggingServer) (a : LoggingAction) (g : Journal × Entries) : Journal × Entries :=
  match a with
  | .act a _ => (Journal.record s.server a g.1, g.2)
  | .write writer =>
    match writer.socket s.server with
    | some clientFd =>
      match s.due clientFd with
      | .log entry :: _ => (g.1, g.2 ++ [(g.1.latest clientFd, entry)])
      | _ => g
    | none => g

inductive Acts (s : LoggingServer) : LoggingAction → LoggingServer → Prop where
  | acted (clientIp : Bytes) (due : Fd → List Call) (t : ServerState)
      (hd : s.dueAfter clientIp a = some due) (hs : ServerState.Step s.server a t) :
      Acts s (.act a clientIp) { s with server := t, due := due }
  | wrote (clientFd : Fd) (entry : LogEntry) (rest : List Call)
      (hw : writer.socket s.server = some clientFd) (hd : s.due clientFd = .log entry :: rest) :
      Acts s (.write writer)
        { s with due := Function.update s.due clientFd rest, log := s.log ++ [entry] }

theorem Step.acts {s t : LoggingServer} (h : s.Step a t) : s.Acts a t := by
  cases a with
  | act a clientIp =>
    obtain ⟨due, hd, ht⟩ := Option.bind_eq_some_iff.1 h
    obtain ⟨server, hs, rfl⟩ := Option.map_eq_some_iff.1 ht
    exact .acted clientIp due server hd hs
  | write writer =>
    simp only [Step, next] at h
    split at h
    · obtain ⟨clientFd, hw, ht⟩ := Option.bind_eq_some_iff.1 h
      rw [write] at ht
      split at ht
      · rename_i entry rest hd
        cases ht
        exact .wrote clientFd entry rest hw hd
      · cases ht
    · cases h

end LoggingServer

def Fate.Logs : Fate → List LogEntry → Prop
  | .handled c, entries => entries = (handleClient c).filterMap Turn.log
  | .refused _ outcomes, entries => ∃ clientIp, entries = [queueFullEntry clientIp outcomes]
  | .accepted, entries | .queued, entries | .dropped, entries => entries = []

def entriesOf (made : LoggingServer.Entries) (k : Nat) : List LogEntry :=
  made.filterMap fun p => if p.1 = k then some p.2 else none

theorem entriesOf_append (made : LoggingServer.Entries) (k k' : Nat) (entry : LogEntry) :
    entriesOf (made ++ [(k, entry)]) k' =
      entriesOf made k' ++ if k = k' then [entry] else [] := by
  rw [entriesOf, List.filterMap_append]
  by_cases hk : k = k'
  · rw [if_pos hk]
    simp only [List.filterMap_cons, if_pos hk]
    rfl
  · rw [if_neg hk]
    simp only [List.filterMap_cons, if_neg hk]
    rfl

theorem entriesOf_none {made : LoggingServer.Entries} (h : ∀ p ∈ made, p.1 ≠ k) :
    entriesOf made k = [] := by
  apply List.filterMap_eq_nil_iff.2
  exact fun p hp => if_neg (h p hp)

theorem socketCalls_append (calls later : List Call) :
    socketCalls (calls ++ later) = socketCalls calls ++ socketCalls later :=
  List.filterMap_append

theorem logCalls_append (calls later : List Call) :
    logCalls (calls ++ later) = logCalls calls ++ logCalls later :=
  List.filterMap_append

theorem calls_io (events : List SocketEvent) :
    socketCalls (events.map .io) = events ∧ logCalls (events.map .io) = [] := by
  induction events with
  | nil => exact ⟨rfl, rfl⟩
  | cons event events ih =>
    obtain ⟨hsocket, hlog⟩ := ih
    exact ⟨congrArg (event :: ·) hsocket, hlog⟩

theorem Turn.calls_split (turn : Turn) :
    socketCalls turn.calls = turn.events ∧ logCalls turn.calls = turn.log.toList := by
  obtain ⟨hsocket, hlog⟩ := calls_io turn.events
  rw [Turn.calls, socketCalls_append, logCalls_append, hsocket, hlog]
  cases turn.log with
  | none => exact ⟨List.append_nil _, rfl⟩
  | some entry => exact ⟨List.append_nil _, rfl⟩

theorem turns_split (turns : List Turn) :
    socketCalls (turns.flatMap Turn.calls) = turns.flatMap Turn.events ∧
      logCalls (turns.flatMap Turn.calls) = turns.filterMap Turn.log := by
  induction turns with
  | nil => exact ⟨rfl, rfl⟩
  | cons turn turns ih =>
    obtain ⟨hsocket, hlog⟩ := ih
    obtain ⟨hevents, hentry⟩ := turn.calls_split
    rw [List.flatMap_cons, socketCalls_append, logCalls_append, hsocket, hlog, hevents, hentry,
      List.flatMap_cons, List.filterMap_cons]
    cases turn.log with
    | none => exact ⟨rfl, rfl⟩
    | some entry => exact ⟨rfl, rfl⟩

theorem Connection.calls_split (c : Connection) :
    socketCalls c.calls = c.trace ∧ logCalls c.calls = (handleClient c).filterMap Turn.log := by
  obtain ⟨hsocket, hlog⟩ := turns_split (handleClient c)
  rw [Connection.calls, socketCalls_append, logCalls_append, hsocket, hlog]
  exact ⟨rfl, List.append_nil _⟩

theorem refusalCalls_split (clientIp : Bytes) (outcomes : List SendOutcome) :
    socketCalls (refusalCalls clientIp outcomes) = refusal outcomes ∧
      logCalls (refusalCalls clientIp outcomes) = [queueFullEntry clientIp outcomes] := by
  rw [refusalCalls, refusal, socketCalls_append, logCalls_append]
  generalize (sendSimpleResponse none 503 (ascii "Service Unavailable\n") false
    outcomes).run.events = events
  obtain ⟨hsocket, hlog⟩ := calls_io events
  rw [hsocket, hlog]
  exact ⟨rfl, rfl⟩

def EndsClosed (calls : List Call) : Prop := calls = [] ∨ ∃ front, calls = front ++ [.io .closed]

theorem EndsClosed.tail (h : EndsClosed (call :: calls)) : EndsClosed calls := by
  obtain he | ⟨front, hfront⟩ := h
  · cases he
  · cases front with
    | nil =>
      cases hfront
      exact .inl rfl
    | cons first front =>
      cases hfront
      exact .inr ⟨front, rfl⟩

theorem EndsClosed.nil_of_quiet (h : EndsClosed calls) (hq : socketCalls calls = []) :
    calls = [] := by
  obtain he | ⟨front, rfl⟩ := h
  · exact he
  · rw [socketCalls_append] at hq
    exact absurd hq (List.append_ne_nil_of_right_ne_nil _ (List.cons_ne_nil _ _))

/-- What is left to be done for a visit completes what was done. -/
structure Visit.Awaits (visit : Visit) (before : List LogEntry) (left : List Call) : Prop where
  calls : visit.performed ++ socketCalls left = visit.fate.script
  entries : visit.fate.Logs (before ++ logCalls left)
  ends : EndsClosed left

structure Visit.Accounted (visit : Visit) (before : List LogEntry) (left : List Call) : Prop where
  unsettled : visit.fate.settled = false → before = []
  working : visit.fate.settled = true → ¬ visit.Done → visit.Awaits before left
  finished : visit.Done → visit.fate.Logs before

theorem Visit.Accounted.done {visit : Visit} (h : visit.Accounted before left)
    (hd : visit.Done) (later : List Call) : visit.Accounted before later := by
  constructor
  · exact h.unsettled
  · exact fun _ hn => absurd hd hn
  · exact h.finished

theorem Visit.Awaits.accounted {visit : Visit} (h : visit.Awaits before left)
    (hs : visit.fate.settled = true) : visit.Accounted before left := by
  constructor
  · intro hn
    rw [hs] at hn
    cases hn
  · exact fun _ _ => h
  · intro hd
    have hcalls := h.calls
    rw [← hd.2, List.append_right_eq_self] at hcalls
    have hentries := h.entries
    rw [h.ends.nil_of_quiet hcalls] at hentries
    exact List.append_nil before ▸ hentries

theorem Visit.Awaits.start {visit : Visit} {todo : List Call} (hp : visit.performed = [])
    (hc : socketCalls todo = visit.fate.script) (hl : visit.fate.Logs (logCalls todo))
    (he : EndsClosed todo) : visit.Awaits [] todo := by
  constructor
  · rw [hp]
    exact hc
  · exact hl
  · exact he

theorem Visit.Awaits.io {visit : Visit} (h : visit.Awaits before (.io event' :: left))
    (hm : visit.performed ++ event :: rest = visit.fate.script) :
    Visit.Awaits { visit with performed := visit.performed ++ [event] } before left := by
  have hcalls := h.calls.trans hm.symm
  obtain ⟨rfl, rfl⟩ := List.cons.inj (List.append_cancel_left hcalls)
  constructor
  · exact (List.append_assoc _ _ _).trans hm
  · exact h.entries
  · exact h.ends.tail

theorem Visit.Awaits.log {visit : Visit} (h : visit.Awaits before (.log entry :: left)) :
    visit.Awaits (before ++ [entry]) left := by
  constructor
  · exact h.calls
  · rw [List.append_assoc]
    exact h.entries
  · exact h.ends.tail

namespace Journal

/-- Every entry belongs to a visit, and every visit has its entries. -/
structure Accounts (j : Journal) (due : Fd → List Call) (made : LoggingServer.Entries) : Prop where
  known : ∀ p ∈ made, p.1 < j.visits.length
  each : ∀ (k : Nat) visit, j.visits[k]? = some visit →
    visit.Accounted (entriesOf made k) (due visit.clientFd)

variable {j : Journal} {due due' : Fd → List Call} {made made' : LoggingServer.Entries}

theorem Accounts.arrive (h : j.Accounts due made) (clientFd : Fd) :
    (j.arrive clientFd).Accounts due made := by
  constructor
  · intro p hp
    change p.1 < (j.visits ++ [_]).length
    rw [List.length_append]
    exact Nat.lt_succ_of_lt (h.known p hp)
  · intro k visit hk
    change (j.visits ++ [_])[k]? = some visit at hk
    rcases Nat.lt_trichotomy k j.visits.length with hlt | rfl | hgt
    · rw [List.getElem?_append_left hlt] at hk
      exact h.each k visit hk
    · rw [List.getElem?_concat_length] at hk
      cases hk
      have hnone : entriesOf made j.visits.length = [] :=
        entriesOf_none fun p hp => Nat.ne_of_lt (h.known p hp)
      rw [hnone]
      constructor
      · exact fun _ => rfl
      · exact fun hs => by cases hs
      · exact fun hd => by cases hd.1
    · rw [List.getElem?_eq_none (by rw [List.length_append]; exact hgt)] at hk
      cases hk

theorem Accounts.update (h : j.Accounts due made) (hk : j.Keeps held)
    (hv : j.visits[j.latest clientFd]? = some visit) (hfd : (f visit).clientFd = clientFd)
    (hnew : (f visit).Accounted (entriesOf made' (j.latest clientFd)) (due' clientFd))
    (hdue : ∀ fd, fd ≠ clientFd → due' fd = due fd)
    (hmade : ∀ k, k ≠ j.latest clientFd → entriesOf made' k = entriesOf made k)
    (hknown : ∀ p ∈ made', p.1 < j.visits.length) :
    (j.update clientFd f).Accounts due' made' := by
  constructor
  · intro p hp
    exact Nat.lt_of_lt_of_eq (hknown p hp) (List.length_modify ..).symm
  · intro k other hother
    by_cases he : j.latest clientFd = k
    · subst he
      change (j.visits.modify (j.latest clientFd) f)[j.latest clientFd]? = _ at hother
      rw [List.getElem?_modify_eq, hv] at hother
      cases hother
      rw [hfd]
      exact hnew
    · change (j.visits.modify (j.latest clientFd) f)[k]? = _ at hother
      rw [List.getElem?_modify_ne f j.visits he] at hother
      rw [hmade k (Ne.symm he)]
      have hold := h.each k other hother
      obtain hd | ⟨_, hlatest⟩ := hk.ended k other hother
      · exact hold.done hd _
      · have hne : other.clientFd ≠ clientFd := fun hc => he (hc ▸ hlatest)
        rw [hdue _ hne]
        exact hold

theorem Accounts.settle (h : j.Accounts due made) (hk : j.Keeps held)
    (hm : (clientFd, holding) ∈ held)
    (hu : ∀ visit : Visit, visit.Matches holding →
      visit.fate.settled = false ∧ visit.performed = []) :
    (j.settle clientFd .queued).Accounts due made ∧
      ∀ fate todo, fate.settled = true → socketCalls todo = fate.script →
        fate.Logs (logCalls todo) → EndsClosed todo →
        (j.settle clientFd fate).Accounts (Function.update due clientFd todo) made := by
  obtain ⟨visit, hv, hfd, hmatch⟩ := hk.present clientFd holding hm
  obtain ⟨hunsettled, hperformed⟩ := hu visit hmatch
  have hnone := (h.each _ visit hv).unsettled hunsettled
  constructor
  · apply h.update hk hv hfd
    · rw [hnone]
      constructor
      · exact fun _ => rfl
      · exact fun hs => by cases hs
      · exact fun hd => by cases hd.1
    · exact fun _ _ => rfl
    · exact fun _ _ => rfl
    · exact h.known
  · intro fate todo hs hc hl he
    apply h.update hk hv hfd
    · rw [hnone, Function.update_self]
      apply Visit.Awaits.accounted _ hs
      exact .start hperformed hc hl he
    · exact fun fd hne => Function.update_of_ne hne ..
    · exact fun _ _ => rfl
    · exact h.known

theorem Accounts.awaits (h : j.Accounts due made) (hk : j.Keeps held)
    (hm : (clientFd, .working (event :: rest)) ∈ held) :
    ∃ visit, j.visits[j.latest clientFd]? = some visit ∧ visit.clientFd = clientFd ∧
      visit.fate.settled = true ∧ visit.performed ++ event :: rest = visit.fate.script ∧
      visit.Awaits (entriesOf made (j.latest clientFd)) (due clientFd) := by
  obtain ⟨visit, hv, hfd, hs, hscript⟩ := hk.present clientFd _ hm
  have hopen : ¬ visit.Done := by
    intro hd
    rw [← hd.2, List.append_right_eq_self] at hscript
    cases hscript
  have hawaits := (h.each _ visit hv).working hs hopen
  rw [hfd] at hawaits
  exact ⟨visit, hv, hfd, hs, hscript, hawaits⟩

theorem Accounts.perform (h : j.Accounts due made) (hk : j.Keeps held)
    (hm : (clientFd, .working (event :: rest)) ∈ held)
    (hd : due clientFd = .io event' :: left) :
    (j.perform clientFd event).Accounts (Function.update due clientFd left) made := by
  obtain ⟨visit, hv, hfd, hs, hscript, hawaits⟩ := h.awaits hk hm
  rw [hd] at hawaits
  apply h.update hk hv hfd
  · rw [Function.update_self]
    exact (hawaits.io hscript).accounted hs
  · exact fun fd hne => Function.update_of_ne hne ..
  · exact fun _ _ => rfl
  · exact h.known

theorem Accounts.write (h : j.Accounts due made) (hk : j.Keeps held)
    (hm : (clientFd, .working (event :: rest)) ∈ held)
    (hd : due clientFd = .log entry :: left) :
    j.Accounts (Function.update due clientFd left) (made ++ [(j.latest clientFd, entry)]) := by
  obtain ⟨visit, hv, hfd, hs, hscript, hawaits⟩ := h.awaits hk hm
  rw [hd] at hawaits
  have hsame : j.update clientFd id = j := by
    rw [Journal.update, List.modify_id]
  rw [← hsame]
  apply h.update hk hv hfd
  · rw [Function.update_self, hsame, entriesOf_append, if_pos rfl]
    exact hawaits.log.accounted hs
  · exact fun fd hne => Function.update_of_ne hne ..
  · intro k hne
    rw [hsame, entriesOf_append, if_neg (Ne.symm hne), List.append_nil]
  · intro p hp
    rw [hsame] at hp
    cases List.mem_append.1 hp with
    | inl hp => exact h.known p hp
    | inr hp =>
      cases List.mem_singleton.1 hp
      exact (List.getElem?_eq_some_iff.1 hv).1

end Journal

namespace ServerState

variable {s : ServerState}

theorem held_main (h : (clientFd, holding) ∈ s.main.held) : (clientFd, holding) ∈ s.held :=
  List.mem_append_left _ h

theorem held_waiting (h : clientFd ∈ s.monitor.queue.contents) : (clientFd, .queued) ∈ s.held :=
  List.mem_append_right _ (List.mem_append_left _ (List.mem_map_of_mem h))

theorem held_handling {i : Nat} (h : s.workers[i]? = some (.handling clientFd rest)) :
    (clientFd, .working rest) ∈ s.held := by
  apply List.mem_append_right
  apply List.mem_append_right
  exact List.mem_flatMap.2 ⟨_, ListUpdate.mem_of_getElem? h, List.mem_cons_self⟩

end ServerState

theorem ClosesLast.exists_cons (h : ClosesLast rest) : ∃ event later, rest = event :: later := by
  obtain ⟨before, rfl, _⟩ := h
  cases before with
  | nil => exact ⟨_, _, rfl⟩
  | cons event before => exact ⟨event, _, rfl⟩

theorem Writer.holds {s : ServerState} {writer : Writer} (ho : s.Owned c n)
    (hw : writer.socket s = some clientFd) :
    ∃ event rest, (clientFd, .working (event :: rest)) ∈ s.held := by
  cases writer with
  | main =>
    simp only [Writer.socket] at hw
    split at hw
    · rename_i rest hm
      cases hw
      have hc := ho.refusing
      rw [hm] at hc
      obtain ⟨event, later, rfl⟩ := ClosesLast.exists_cons hc
      exact ⟨event, later, ServerState.held_main (hm ▸ List.mem_cons_self)⟩
    · cases hw
  | worker i =>
    simp only [Writer.socket] at hw
    split at hw
    · rename_i rest hi
      cases hw
      obtain ⟨event, later, rfl⟩ :=
        ClosesLast.exists_cons (ho.handling _ (ListUpdate.mem_of_getElem? hi))
      exact ⟨event, later, ServerState.held_handling hi⟩
    · cases hw

namespace LoggingServer

variable {s t : LoggingServer} {j : Journal} {made : Entries}

theorem afterIo_cases {due : Fd → List Call} (h : s.afterIo clientFd = some due) :
    ∃ event left, s.due clientFd = .io event :: left ∧
      due = Function.update s.due clientFd left := by
  rw [afterIo] at h
  split at h
  · rename_i event left hd
    cases h
    exact ⟨event, left, hd, rfl⟩
  · cases h

theorem accounts_enqueue {due : Fd → List Call} {monitor : QueueMonitor}
    (h : j.Accounts s.due made) (hk : j.Keeps s.server.held)
    (hm : s.server.main = .enqueuing clientFd)
    (he : s.server.monitor.enqueue clientFd mask = some (result, monitor))
    (hd : s.dueAfter clientIp (.enqueue mask outcomes) = some due) :
    (Journal.record s.server (.enqueue mask outcomes) j).Accounts due made := by
  have hmem : (clientFd, .accepted) ∈ s.server.held :=
    ServerState.held_main (hm ▸ List.mem_cons_self)
  obtain ⟨hqueued, hsettled⟩ := h.settle hk hmem fun visit hv => ⟨hv.1 ▸ rfl, hv.2⟩
  simp only [dueAfter, hm, he, Option.map_some] at hd
  simp only [Journal.record, hm, he, Option.map_some]
  cases result with
  | ok =>
    cases hd
    exact ⟨hqueued.known, hqueued.each⟩
  | full =>
    cases hd
    obtain ⟨hsocket, hlog⟩ := refusalCalls_split clientIp outcomes
    apply hsettled (.refused s.server.monitor.queue.contents.length outcomes) _ rfl hsocket
    · exact ⟨clientIp, hlog⟩
    · rw [EndsClosed, refusalCalls, List.append_cons]
      exact .inr ⟨_, rfl⟩
  | closed =>
    cases hd
    exact hsettled .dropped _ rfl rfl rfl (.inr ⟨[], rfl⟩)

theorem accounts_dequeue {due : Fd → List Call} {monitor : QueueMonitor}
    (h : j.Accounts s.due made) (hk : j.Keeps s.server.held)
    (hq : s.server.monitor.queue.Valid)
    (hdeq : s.server.monitor.dequeue i = some (result, monitor))
    (hd : s.dueAfter clientIp (.dequeue i c) = some due) :
    (Journal.record s.server (.dequeue i c) j).Accounts due made := by
  obtain ⟨_, _, _, hcontents⟩ := QueueMonitor.dequeue_queue hq hdeq
  simp only [dueAfter, hdeq, Option.map_some] at hd
  simp only [Journal.record, hdeq, Option.map_some]
  obtain ⟨rfl, _⟩ | ⟨rfl, _⟩ | ⟨fd, q, rfl, hc⟩ := hcontents
  · cases hd
    exact h
  · cases hd
    exact h
  · cases hd
    have hmem : (fd, .queued) ∈ s.server.held :=
      ServerState.held_waiting (hc ▸ List.mem_cons_self)
    obtain ⟨hsocket, hlog⟩ := c.calls_split
    have hsettled :=
      (h.settle hk hmem fun visit hv => ⟨hv.1 ▸ rfl, hv.2⟩).2 (.handled c) c.calls rfl
      hsocket hlog (.inr ⟨_, rfl⟩)
    exact ⟨hsettled.known, hsettled.each⟩

theorem record_write {writer : Writer} {rest : List Call} (g : Journal × Entries)
    (hw : writer.socket s.server = some clientFd) (hd : s.due clientFd = .log entry :: rest) :
    record s (.write writer) g = (g.1, g.2 ++ [(g.1.latest clientFd, entry)]) := by
  simp only [record, hw, hd]

theorem accounts_step (h : j.Accounts s.due made) (hk : j.Keeps s.server.held)
    (ho : s.server.Owned c n) (hs : s.Step a t) :
    (record s a (j, made)).1.Accounts t.due (record s a (j, made)).2 := by
  cases hs.acts with
  | wrote clientFd entry rest hw hd =>
    obtain ⟨event, later, hm⟩ := Writer.holds ho hw
    rw [record_write _ hw hd]
    exact h.write hk hm hd
  | acted clientIp due t hd hstep =>
    simp only [record]
    cases hstep.acts with
    | accepted clientFd hm hf =>
      cases hd
      exact h.arrive clientFd
    | enqueued clientFd mask outcomes result monitor hm he => exact accounts_enqueue h hk hm he hd
    | dequeued i conn result monitor hw hdeq =>
      exact accounts_dequeue h hk ho.valid hdeq hd
    | mainPerformed clientFd event rest u hm hp =>
      simp only [dueAfter, Writer.socket, hm, Option.bind_some] at hd
      obtain ⟨event', left, hdue, rfl⟩ := afterIo_cases hd
      simp only [Journal.record, hm]
      have hmem : (clientFd, .working (event :: rest)) ∈ s.server.held :=
        ServerState.held_main (hm ▸ List.mem_cons_self)
      exact h.perform hk hmem hdue
    | workerPerformed i clientFd event rest u hw hp =>
      simp only [dueAfter, Writer.socket, hw, Option.bind_some] at hd
      obtain ⟨event', left, hdue, rfl⟩ := afterIo_cases hd
      simp only [Journal.record, hw]
      exact h.perform hk (ServerState.held_handling hw) hdue
    | _ =>
      cases hd
      exact h

structure Kept (c n : Nat) (p : LoggingServer × Journal × Entries) : Prop where
  keeps : p.2.1.Keeps p.1.server.held
  orders : p.2.1.Orders p.1.server
  owned : p.1.server.Owned c n
  phased : p.1.server.Phased n
  accounts : p.2.1.Accounts p.1.due p.2.2
  written : p.2.2.map Prod.snd = p.1.log

theorem Kept.step {p q : LoggingServer × Journal × Entries} (h : Kept c n p)
    (hs : Recording LoggingServer.Step record p a q) : Kept c n q := by
  obtain ⟨s, j, made⟩ := p
  obtain ⟨t, g⟩ := q
  obtain ⟨hstep, rfl⟩ := hs
  have haccounts := accounts_step h.accounts h.keeps h.owned hstep
  cases hstep.acts with
  | acted clientIp due t hd hs =>
    constructor
    · exact h.keeps.step h.owned hs
    · exact h.orders.step h.keeps h.owned hs
    · exact h.owned.step hs
    · exact h.phased.step h.owned.valid hs
    · exact haccounts
    · exact h.written
  | wrote clientFd entry rest hw hd =>
    have hwritten : (made ++ [(j.latest clientFd, entry)]).map Prod.snd = s.log ++ [entry] := by
      rw [List.map_append, h.written]
      rfl
    rw [record_write _ hw hd] at haccounts ⊢
    exact ⟨h.keeps, h.orders, h.owned, h.phased, haccounts, hwritten⟩

theorem Kept.run {p q : LoggingServer × Journal × Entries} (h : Kept c n p)
    (hr : Run (Recording LoggingServer.Step record) p as q) : Kept c n q :=
  hr.invariant (fun _ _ _ hp hs => hp.step hs) h

theorem initial_kept (hq : socketQueueInit c true = some queue) (n : Nat) (allocated : Bool) :
    Kept c n (initial queue n allocated, .empty, []) := by
  obtain ⟨hkeeps, horders⟩ := ServerState.initial_journal hq n allocated
  constructor
  · exact hkeeps
  · exact horders
  · exact ServerState.initial_owned hq n allocated
  · exact ServerState.initial_phased queue n allocated
  · constructor
    · exact fun p hp => by cases hp
    · exact fun k visit hk => by cases hk
  · rfl

theorem run_server {p q : LoggingServer × Journal × Entries}
    (h : Run (Recording LoggingServer.Step record) p as q) :
    Run (Recording ServerState.Step Journal.record) (p.1.server, p.2.1)
      (as.filterMap LoggingAction.act?) (q.1.server, q.2.1) := by
  induction h with
  | nil => exact .nil _
  | @cons p a q as r hs _ ih =>
    obtain ⟨s, j, made⟩ := p
    obtain ⟨t, g⟩ := q
    obtain ⟨hstep, rfl⟩ := hs
    cases hstep.acts with
    | acted clientIp due t hd hs => exact .cons ⟨hs, rfl⟩ ih
    | wrote clientFd entry rest hw hd =>
      rw [record_write _ hw hd] at ih
      exact ih

theorem exists_flush {writer : Writer} (ha : s.server.alive = true)
    (hw : writer.socket s.server = some clientFd) (hd : socketCalls (s.due clientFd) ≠ []) :
    ∃ as t due, Run LoggingServer.Step s as t ∧ as.filterMap LoggingAction.act? = [] ∧
      t.server = s.server ∧ t.afterIo clientFd = some due := by
  generalize hcalls : s.due clientFd = calls at hd
  induction calls generalizing s with
  | nil => exact absurd rfl hd
  | cons call calls ih =>
    cases call with
    | io event =>
      have hafter : s.afterIo clientFd = some (Function.update s.due clientFd calls) := by
        rw [afterIo, hcalls]
      exact ⟨[], s, _, .nil s, rfl, rfl, hafter⟩
    | log entry =>
      let t : LoggingServer :=
        { s with due := Function.update s.due clientFd calls, log := s.log ++ [entry] }
      have hstep : s.Step (.write writer) t := by
        simp only [Step, next, ha, if_true, hw, Option.bind_some, LoggingServer.write, hcalls]
        rfl
      obtain ⟨as, u, due, hr, hacts, hserver, hafter⟩ := ih (s := t) ha hw
        (Function.update_self ..) hd
      exact ⟨_, u, due, .cons hstep hr, hacts, hserver, hafter⟩

theorem exists_step (h : Kept c n (s, j, made)) (hs : ServerState.Step s.server a u) :
    ∃ as t, Run LoggingServer.Step s as t ∧ as.filterMap LoggingAction.act? = [a] ∧
      t.server = u := by
  have ha : s.server.alive = true := by
    simp only [ServerState.Step, ServerState.next] at hs
    split at hs
    · assumption
    · cases hs
  have hdirect : (s.dueAfter [] a).isSome = true → ∃ as t, Run LoggingServer.Step s as t ∧
      as.filterMap LoggingAction.act? = [a] ∧ t.server = u := by
    intro hsome
    obtain ⟨due, hdue⟩ := Option.isSome_iff_exists.1 hsome
    have hstep : s.Step (.act a []) { s with server := u, due := due } := by
      simp only [Step, next, hdue, Option.bind_some]
      rw [show s.server.next a = some u from hs]
      rfl
    exact ⟨_, _, .single hstep, rfl, rfl⟩
  have hafter : ∀ (writer : Writer) clientFd, writer.socket s.server = some clientFd →
      (∀ t : LoggingServer, t.dueAfter [] a = (writer.socket t.server).bind t.afterIo) →
      ∃ as t, Run LoggingServer.Step s as t ∧ as.filterMap LoggingAction.act? = [a] ∧
        t.server = u := by
    intro writer clientFd hw hdue
    obtain ⟨event, rest, hm⟩ := Writer.holds h.owned hw
    obtain ⟨visit, _, _, _, hscript, hawaits⟩ := h.accounts.awaits h.keeps hm
    have hquiet : socketCalls (s.due clientFd) ≠ [] := by
      have hcalls := List.append_cancel_left (hawaits.calls.trans hscript.symm)
      rw [hcalls]
      exact List.cons_ne_nil _ _
    obtain ⟨as, t, due, hr, hacts, hserver, haft⟩ := exists_flush ha hw hquiet
    have hstep : t.Step (.act a []) { t with server := u, due := due } := by
      simp only [Step, next, hdue, hserver, hw, Option.bind_some, haft]
      rw [show s.server.next a = some u from hs]
      rfl
    refine ⟨_, _, hr.append (.single hstep), ?_, rfl⟩
    rw [List.filterMap_append, hacts]
    rfl
  cases hs.acts with
  | mainPerformed clientFd event rest u hm hp =>
    apply hafter .main clientFd _ fun _ => rfl
    simp only [Writer.socket, hm]
  | workerPerformed i clientFd event rest u hw hp =>
    apply hafter (.worker i) clientFd _ fun _ => rfl
    simp only [Writer.socket, hw]
  | enqueued clientFd mask outcomes result monitor hm he =>
    apply hdirect
    simp only [dueAfter, hm, he, Option.map_some]
    cases result <;> rfl
  | dequeued i conn result monitor hw hd =>
    apply hdirect
    simp only [dueAfter, hd, Option.map_some]
    cases result <;> rfl
  | _ => exact hdirect rfl

/-- The log holds the server up nowhere: whatever the server may do, it may do with the log. -/
theorem exists_run (h : Kept c n (s, j, made)) (hr : Run ServerState.Step s.server bs u) :
    ∃ as t, Run LoggingServer.Step s as t ∧ as.filterMap LoggingAction.act? = bs ∧
      t.server = u := by
  generalize he : s.server = first at hr
  induction hr generalizing s j made with
  | nil => exact ⟨[], s, .nil s, rfl, he⟩
  | cons hs _ ih =>
    subst he
    obtain ⟨as, t, hr, hacts, rfl⟩ := exists_step h hs
    obtain ⟨g, hrec⟩ := hr.recorded record (j, made)
    obtain ⟨as', t', hr', hacts', hserver⟩ := ih (h.run hrec) rfl
    refine ⟨as ++ as', t', hr.append hr', ?_, hserver⟩
    rw [List.filterMap_append, hacts, hacts']
    rfl

end LoggingServer

/-- In every run the log has, of each connection, entries that its fate asks for, in their order
and each once, and it has all of them when the connection is closed, as every one is when
`server_run` returns 0. The log keeps the server from nothing that it could do without it. -/
theorem serverRun_logs (c n : Nat) (queue : SocketQueue) (allocated : Bool) (hn : 1 ≤ n)
    (hq : socketQueueInit c true = some queue) (as : List LoggingAction) (s : LoggingServer)
    (hrun : Run LoggingServer.Step (.initial queue n allocated) as s) :
    (∃ j made, Run (Recording ServerState.Step Journal.record)
        (.initial queue n allocated, .empty) (as.filterMap LoggingAction.act?) (s.server, j) ∧
      j.visits.map Visit.clientFd = s.server.accepted ∧ made.map Prod.snd = s.log ∧
      (∀ p ∈ made, p.1 < j.visits.length) ∧
      (∀ (k : Nat) visit, j.visits[k]? = some visit → ∃ entries, visit.fate.Logs entries ∧
        entriesOf made k <+: entries ∧ (visit.Done → entriesOf made k = entries)) ∧
      (s.server.main = .returned 0 → ∀ visit ∈ j.visits, visit.Done)) ∧
    ∀ bs u, Run ServerState.Step s.server bs u → ∃ as' t, Run LoggingServer.Step s as' t ∧
      as'.filterMap LoggingAction.act? = bs ∧ t.server = u := by
  obtain ⟨⟨j, made⟩, hrec⟩ := hrun.recorded LoggingServer.record (.empty, [])
  have hkept := (LoggingServer.initial_kept hq n allocated).run hrec
  refine ⟨⟨j, made, LoggingServer.run_server hrec, hkept.orders.accepted, hkept.written,
    hkept.accounts.known, ?_, ?_⟩, fun bs u hr => LoggingServer.exists_run hkept hr⟩
  · intro k visit hk
    have haccounted := hkept.accounts.each k visit hk
    by_cases hd : visit.Done
    · exact ⟨_, haccounted.finished hd, List.prefix_rfl, fun _ => rfl⟩
    · cases hs : visit.fate.settled with
      | true =>
        have hawaits := haccounted.working hs hd
        exact ⟨_, hawaits.entries, List.prefix_append _ _, fun hdone => absurd hdone hd⟩
      | false =>
        have hnone := haccounted.unsettled hs
        rw [hnone]
        refine ⟨[], ?_, List.prefix_rfl, fun hdone => absurd hdone hd⟩
        cases hf : visit.fate with
        | accepted => rfl
        | queued => rfl
        | handled conn =>
          rw [hf] at hs
          cases hs
        | refused waiting outcomes =>
          rw [hf] at hs
          cases hs
        | dropped => rfl
  · intro hm visit hv
    obtain ⟨k, hk⟩ := List.mem_iff_getElem?.1 hv
    have hempty : s.server.opened = [] := hkept.owned.opened_empty hkept.phased hn hm
    apply (hkept.keeps.ended k visit hk).resolve_right
    intro hopen
    have hmem := hopen.1
    rw [ServerState.held_owners] at hmem
    have hfd := hkept.owned.ledger.holders.mem_iff.1 hmem
    rw [hempty] at hfd
    cases hfd

def servedPage : Connection :=
  { pageConnection with
    arrivals := [.data 71 (ascii "ET /index.html HTTP/1.1\r\nConnection: close\r\n\r\n")] }

def loggedActions : List LoggingAction :=
  let act (a : Action) : LoggingAction := .act a []
  [act (.spawn true), act (.spawn true), act .test, act (.accept (.accepted 5)),
    act (.enqueue [] []), act (.dequeue 0 servedPage), act (.workerIo 0), act (.workerIo 0),
    act (.workerIo 0), .write (.worker 0), act .requestStop, act (.workerIo 0), act .shutdownQueue,
    act .test, act .shutdownPool, act (.dequeue 0 servedPage), act .join, act .join]

theorem serverRun_logs_page : ∃ (j : Journal) (made : LoggingServer.Entries),
    j.visits.map Visit.clientFd = [5] ∧ (∀ visit ∈ j.visits, visit.Done) ∧
      made.map Prod.snd = [⟨ascii "-", ascii "GET /index.html HTTP/1.1", ⟨200, 6⟩⟩] := by
  have hrun : (follow LoggingServer.next (.initial ⟨[0], 1, 0, 0, 0, false⟩ 1 true)
      loggedActions).map (fun s => (s.server.main, s.server.accepted, s.log)) =
        some (.returned 0, [5], [⟨ascii "-", ascii "GET /index.html HTTP/1.1", ⟨200, 6⟩⟩]) := by
    decide +kernel
  obtain ⟨s, hf, he⟩ := Option.map_eq_some_iff.1 hrun
  obtain ⟨⟨j, made, _, hvisits, hlog, _, _, hdone⟩, _⟩ := serverRun_logs 1 1
    ⟨[0], 1, 0, 0, 0, false⟩ true (Nat.le_refl 1) rfl loggedActions s (run_of_follow hf)
  exact ⟨j, made, hvisits.trans (congrArg (·.2.1) he), hdone (congrArg Prod.fst he),
    hlog.trans (congrArg (·.2.2) he)⟩

end Httpd
