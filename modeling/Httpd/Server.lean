import Httpd.ClientLoop
import Httpd.QueueMonitor

namespace Httpd
open ConditionVariable Transition
set_option autoImplicit true

/-- The signals that matter to the server, and what happens when one is delivered. -/
inductive Signal where
  | interrupt
  | terminate
  | pipe
  deriving DecidableEq

inductive Disposition where
  | handled
  | terminatesProcess
  deriving DecidableEq

def disposition : Signal → Disposition
  | .interrupt => .handled
  | .terminate => .handled
  | .pipe => .terminatesProcess

/-- Where `server_run` stands, `thread_pool_start` and `thread_pool_stop` included. A connection
being refused comes with the calls still to be made on its socket. -/
inductive MainPc where
  | starting (i : Nat)
  | testing
  | accepting
  | enqueuing (clientFd : Fd)
  | refusing (clientFd : Fd) (rest : List SocketEvent)
  | stopping (code : Nat)
  | joining (i : Nat) (code : Nat)
  | returned (code : Nat)
  deriving DecidableEq

inductive WorkerPc where
  | unstarted
  | dequeuing
  | handling (clientFd : Fd) (rest : List SocketEvent)
  | exited
  deriving DecidableEq

/-- The server with all its threads. `server_stop` is two whole steps here, wherever it runs, and two
runs of it do not overlap. -/
structure ServerState where
  main : MainPc
  workers : List WorkerPc
  monitor : QueueMonitor
  threadCount : Nat
  shouldStop : Bool
  opened : List Fd
  gone : List Fd
  accepted : List Fd
  closed : List Fd
  alive : Bool
  deriving DecidableEq

inductive AcceptResult where
  | accepted (clientFd : Fd)
  | interrupted
  | failed
  deriving DecidableEq

inductive Action where
  | spawn (created : Bool)
  | test
  | accept (result : AcceptResult)
  | enqueue (mask : List Bool) (outcomes : List SendOutcome)
  | mainIo
  | shutdownPool
  | join
  | requestStop
  | shutdownQueue
  | dequeue (i : Nat) (c : Connection)
  | wakeUp (i : Nat)
  | workerIo (i : Nat)
  | disconnect (clientFd : Fd)

/-- The 503 answer of the accept loop, and the `close` behind it. -/
def refusal (outcomes : List SendOutcome) : List SocketEvent :=
  (sendSimpleResponse none 503 (ascii "Service Unavailable\n") false outcomes).run.events ++
    [.closed]

def MainPc.afterEnqueue (clientFd : Fd) (outcomes : List SendOutcome) : QueueResult → MainPc
  | .ok => .testing
  | .full => .refusing clientFd (refusal outcomes)
  | .closed => .refusing clientFd [.closed]

def MainPc.afterIo (clientFd : Fd) : List SocketEvent → MainPc
  | [] => .testing
  | event :: rest => .refusing clientFd (event :: rest)

/-- Where `worker_main` goes with the result of `socket_queue_dequeue`; `c` is the connection that
the handler finds behind the descriptor. -/
def WorkerPc.afterDequeue (c : Connection) : DequeueResult → WorkerPc
  | .wait => .dequeuing
  | .closed => .exited
  | .took clientFd _ => .handling clientFd c.trace

def WorkerPc.afterIo (clientFd : Fd) : List SocketEvent → WorkerPc
  | [] => .dequeuing
  | event :: rest => .handling clientFd (event :: rest)

namespace ServerState

/-- `server_run` with a queue and a number of threads. It refuses to run without threads, or if
there is no memory for their handles. -/
def initial (queue : SocketQueue) (threadCount : Nat) (allocated : Bool) : ServerState where
  main := if threadCount = 0 ∨ !allocated then .returned 1 else .starting 0
  workers := List.replicate threadCount .unstarted
  monitor := .initial queue threadCount
  threadCount := threadCount
  shouldStop := false
  opened := []
  gone := []
  accepted := []
  closed := []
  alive := true

def toMain (s : ServerState) (main : MainPc) : ServerState := { s with main := main }

def setWorker (s : ServerState) (i : Nat) (pc : WorkerPc) : ServerState :=
  { s with workers := s.workers.set i pc }

def acquire (s : ServerState) (clientFd : Fd) : ServerState :=
  { s with opened := clientFd :: s.opened, accepted := s.accepted ++ [clientFd] }

def release (s : ServerState) (clientFd : Fd) : ServerState :=
  { s with
    opened := s.opened.erase clientFd
    gone := s.gone.filter (· ≠ clientFd)
    closed := s.closed ++ [clientFd] }

def deliver (s : ServerState) (signal : Signal) : ServerState :=
  match disposition signal with
  | .handled => s
  | .terminatesProcess => { s with alive := false }

/-- A call on the socket of a connection. A `send` to a client that has gone raises `SIGPIPE`. -/
def perform (s : ServerState) (clientFd : Fd) : SocketEvent → Option ServerState
  | .closed => some (s.release clientFd)
  | .sendBroken => if clientFd ∈ s.gone then some (s.deliver .pipe) else none
  | .sent _ | .sendInterrupted | .sendFailed => if clientFd ∈ s.gone then none else some s
  | .received _ | .recvInterrupted | .recvFailed => some s

/-- The steps of a living process; any thread may run `server_stop` at any time. -/
def act (s : ServerState) : Action → Option ServerState
  | .spawn created =>
    match s.main with
    | .starting i =>
      if i = s.threadCount then some (s.toMain .testing)
      else if created then
        if s.workers[i]? = some .unstarted then
          some ((s.setWorker i .dequeuing).toMain (.starting (i + 1)))
        else none
      else some { s with main := .stopping 1, threadCount := i }
    | _ => none
  | .test =>
    match s.main with
    | .testing => some (s.toMain (if s.shouldStop then .stopping 0 else .accepting))
    | _ => none
  | .accept result =>
    match s.main, result with
    | .accepting, .accepted clientFd =>
      if clientFd ∈ s.opened then none
      else some ((s.acquire clientFd).toMain (.enqueuing clientFd))
    | .accepting, .interrupted => some (s.toMain .testing)
    | .accepting, .failed => some (s.toMain (if s.shouldStop then .stopping 0 else .testing))
    | _, _ => none
  | .enqueue mask outcomes =>
    match s.main with
    | .enqueuing clientFd =>
      (s.monitor.enqueue clientFd mask).map fun (result, monitor) =>
        { s with monitor := monitor, main := .afterEnqueue clientFd outcomes result }
    | _ => none
  | .mainIo =>
    match s.main with
    | .refusing clientFd (event :: rest) =>
      (s.perform clientFd event).map fun s => s.toMain (.afterIo clientFd rest)
    | _ => none
  | .shutdownPool =>
    match s.main with
    | .stopping code => some { s with monitor := s.monitor.shutdown, main := .joining 0 code }
    | _ => none
  | .join =>
    match s.main with
    | .joining i code =>
      if i = s.threadCount then some (s.toMain (.returned code))
      else if s.workers[i]? = some .exited then some (s.toMain (.joining (i + 1) code))
      else none
    | _ => none
  | .requestStop => some { s with shouldStop := true }
  | .shutdownQueue => if s.shouldStop then some { s with monitor := s.monitor.shutdown } else none
  | .dequeue i c =>
    if s.workers[i]? = some .dequeuing then
      (s.monitor.dequeue i).map fun (result, monitor) =>
        { s with monitor := monitor, workers := s.workers.set i (.afterDequeue c result) }
    else none
  | .wakeUp i => (s.monitor.wakeUp i).map fun monitor => { s with monitor := monitor }
  | .workerIo i =>
    match s.workers[i]? with
    | some (.handling clientFd (event :: rest)) =>
      (s.perform clientFd event).map fun s => s.setWorker i (.afterIo clientFd rest)
    | _ => none
  | .disconnect clientFd =>
    if clientFd ∈ s.opened then some { s with gone := clientFd :: s.gone } else none

def next (s : ServerState) (a : Action) : Option ServerState := if s.alive then s.act a else none

def Step (s : ServerState) (a : Action) (t : ServerState) : Prop := s.next a = some t

inductive Acts (s : ServerState) : Action → ServerState → Prop where
  | started (created : Bool) (hm : s.main = .starting s.threadCount) :
      Acts s (.spawn created) (s.toMain .testing)
  | spawned (i : Nat) (hm : s.main = .starting i) (hi : i ≠ s.threadCount)
      (hw : s.workers[i]? = some .unstarted) :
      Acts s (.spawn true) ((s.setWorker i .dequeuing).toMain (.starting (i + 1)))
  | spawnFailed (i : Nat) (hm : s.main = .starting i) (hi : i ≠ s.threadCount) :
      Acts s (.spawn false) { s with main := .stopping 1, threadCount := i }
  | tested (hm : s.main = .testing) :
      Acts s .test (s.toMain (if s.shouldStop then .stopping 0 else .accepting))
  | accepted (clientFd : Fd) (hm : s.main = .accepting) (hf : clientFd ∉ s.opened) :
      Acts s (.accept (.accepted clientFd)) ((s.acquire clientFd).toMain (.enqueuing clientFd))
  | acceptInterrupted (hm : s.main = .accepting) :
      Acts s (.accept .interrupted) (s.toMain .testing)
  | acceptFailed (hm : s.main = .accepting) :
      Acts s (.accept .failed) (s.toMain (if s.shouldStop then .stopping 0 else .testing))
  | enqueued (clientFd : Fd) (mask : List Bool) (outcomes : List SendOutcome)
      (result : QueueResult) (monitor : QueueMonitor) (hm : s.main = .enqueuing clientFd)
      (he : s.monitor.enqueue clientFd mask = some (result, monitor)) :
      Acts s (.enqueue mask outcomes)
        { s with monitor := monitor, main := .afterEnqueue clientFd outcomes result }
  | mainPerformed (clientFd : Fd) (event : SocketEvent) (rest : List SocketEvent)
      (t : ServerState) (hm : s.main = .refusing clientFd (event :: rest))
      (hp : s.perform clientFd event = some t) : Acts s .mainIo (t.toMain (.afterIo clientFd rest))
  | poolShutdown (code : Nat) (hm : s.main = .stopping code) :
      Acts s .shutdownPool { s with monitor := s.monitor.shutdown, main := .joining 0 code }
  | joinedAll (code : Nat) (hm : s.main = .joining s.threadCount code) :
      Acts s .join (s.toMain (.returned code))
  | joined (i code : Nat) (hm : s.main = .joining i code) (hi : i ≠ s.threadCount)
      (hw : s.workers[i]? = some .exited) :
      Acts s .join (s.toMain (.joining (i + 1) code))
  | stopRequested : Acts s .requestStop { s with shouldStop := true }
  | queueShutdown (hs : s.shouldStop = true) :
      Acts s .shutdownQueue { s with monitor := s.monitor.shutdown }
  | dequeued (i : Nat) (c : Connection) (result : DequeueResult) (monitor : QueueMonitor)
      (hw : s.workers[i]? = some .dequeuing)
      (hd : s.monitor.dequeue i = some (result, monitor)) :
      Acts s (.dequeue i c)
        { s with monitor := monitor, workers := s.workers.set i (.afterDequeue c result) }
  | wokeUp (i : Nat) (monitor : QueueMonitor) (hm : s.monitor.wakeUp i = some monitor) :
      Acts s (.wakeUp i) { s with monitor := monitor }
  | workerPerformed (i : Nat) (clientFd : Fd) (event : SocketEvent) (rest : List SocketEvent)
      (t : ServerState) (hw : s.workers[i]? = some (.handling clientFd (event :: rest)))
      (hp : s.perform clientFd event = some t) :
      Acts s (.workerIo i) (t.setWorker i (.afterIo clientFd rest))
  | disconnected (clientFd : Fd) (hf : clientFd ∈ s.opened) :
      Acts s (.disconnect clientFd) { s with gone := clientFd :: s.gone }

theorem act_spawn {s t : ServerState} (h : s.act (.spawn created) = some t) :
    s.Acts (.spawn created) t := by
  unfold act at h
  dsimp only at h
  split at h
  · rename_i i hm
    split at h
    · rename_i hi
      cases h
      exact .started created (hi ▸ hm)
    · rename_i hi
      cases created with
      | true =>
        rw [if_pos rfl] at h
        split at h
        · rename_i hw
          cases h
          exact .spawned i hm hi hw
        · cases h
      | false =>
        cases h
        exact .spawnFailed i hm hi
  · cases h

theorem act_accept {s t : ServerState} (h : s.act (.accept result) = some t) :
    s.Acts (.accept result) t := by
  unfold act at h
  dsimp only at h
  split at h
  · rename_i clientFd hm
    split at h
    · cases h
    · rename_i hf
      cases h
      exact .accepted clientFd hm hf
  · rename_i hm
    cases h
    exact .acceptInterrupted hm
  · rename_i hm
    cases h
    exact .acceptFailed hm
  · cases h

theorem act_enqueue {s t : ServerState} (h : s.act (.enqueue mask outcomes) = some t) :
    s.Acts (.enqueue mask outcomes) t := by
  unfold act at h
  dsimp only at h
  split at h
  · rename_i clientFd hm
    obtain ⟨⟨result, monitor⟩, he, ht⟩ := Option.map_eq_some_iff.1 h
    cases ht
    exact .enqueued clientFd mask outcomes result monitor hm he
  · cases h

theorem act_mainIo {s t : ServerState} (h : s.act .mainIo = some t) : s.Acts .mainIo t := by
  unfold act at h
  dsimp only at h
  split at h
  · rename_i clientFd event rest hm
    obtain ⟨u, hp, ht⟩ := Option.map_eq_some_iff.1 h
    cases ht
    exact .mainPerformed clientFd event rest u hm hp
  · cases h

theorem act_join {s t : ServerState} (h : s.act .join = some t) : s.Acts .join t := by
  unfold act at h
  dsimp only at h
  split at h
  · rename_i i code hm
    split at h
    · rename_i hi
      cases h
      exact .joinedAll code (hi ▸ hm)
    · rename_i hi
      split at h
      · rename_i hw
        cases h
        exact .joined i code hm hi hw
      · cases h
  · cases h

theorem act_dequeue {s t : ServerState} (h : s.act (.dequeue i c) = some t) :
    s.Acts (.dequeue i c) t := by
  unfold act at h
  dsimp only at h
  split at h
  · rename_i hw
    obtain ⟨⟨result, monitor⟩, hd, ht⟩ := Option.map_eq_some_iff.1 h
    cases ht
    exact .dequeued i c result monitor hw hd
  · cases h

theorem act_workerIo {s t : ServerState} (h : s.act (.workerIo i) = some t) :
    s.Acts (.workerIo i) t := by
  unfold act at h
  dsimp only at h
  split at h
  · rename_i clientFd event rest hw
    obtain ⟨u, hp, ht⟩ := Option.map_eq_some_iff.1 h
    cases ht
    exact .workerPerformed i clientFd event rest u hw hp
  · cases h

theorem act_cases {s t : ServerState} (h : s.act a = some t) : s.Acts a t := by
  cases a with
  | spawn created => exact act_spawn h
  | accept result => exact act_accept h
  | enqueue mask outcomes => exact act_enqueue h
  | mainIo => exact act_mainIo h
  | join => exact act_join h
  | dequeue i c => exact act_dequeue h
  | workerIo i => exact act_workerIo h
  | test =>
    unfold act at h
    dsimp only at h
    split at h
    · rename_i hm
      cases h
      exact .tested hm
    · cases h
  | shutdownPool =>
    unfold act at h
    dsimp only at h
    split at h
    · rename_i code hm
      cases h
      exact .poolShutdown code hm
    · cases h
  | requestStop =>
    cases h
    exact .stopRequested
  | shutdownQueue =>
    unfold act at h
    dsimp only at h
    split at h
    · rename_i hs
      cases h
      exact .queueShutdown hs
    · cases h
  | wakeUp i =>
    obtain ⟨monitor, hm, ht⟩ := Option.map_eq_some_iff.1 h
    cases ht
    exact .wokeUp i monitor hm
  | disconnect clientFd =>
    unfold act at h
    dsimp only at h
    split at h
    · rename_i hf
      cases h
      exact .disconnected clientFd hf
    · cases h

theorem Step.act {s t : ServerState} (h : Step s a t) : s.alive = true ∧ s.act a = some t := by
  unfold Step next at h
  split at h
  · rename_i ha
    exact ⟨ha, h⟩
  · cases h

theorem Step.acts {s t : ServerState} (h : Step s a t) : s.Acts a t := act_cases h.act.2

theorem perform_cases {s t : ServerState} (h : s.perform clientFd event = some t) :
    (event = .closed ∧ t = s.release clientFd) ∨
      (event ≠ .closed ∧ ∃ alive, t = { s with alive := alive }) := by
  cases event with
  | closed => exact .inl ⟨rfl, (Option.some.inj h).symm⟩
  | received _ | recvInterrupted | recvFailed =>
    cases h
    exact .inr ⟨nofun, s.alive, rfl⟩
  | sent _ | sendInterrupted | sendFailed =>
    simp only [perform] at h
    split at h
    · cases h
    · cases h
      exact .inr ⟨nofun, s.alive, rfl⟩
  | sendBroken =>
    simp only [perform] at h
    split at h
    · cases h
      exact .inr ⟨nofun, false, rfl⟩
    · cases h

theorem perform_leaves {s t : ServerState} (h : s.perform clientFd event = some t) :
    t.main = s.main ∧ t.workers = s.workers ∧ t.monitor = s.monitor ∧
      t.threadCount = s.threadCount ∧ t.shouldStop = s.shouldStop ∧ t.accepted = s.accepted := by
  obtain ⟨_, rfl⟩ | ⟨_, alive, rfl⟩ := perform_cases h
  · exact ⟨rfl, rfl, rfl, rfl, rfl, rfl⟩
  · exact ⟨rfl, rfl, rfl, rfl, rfl, rfl⟩

end ServerState

end Httpd
