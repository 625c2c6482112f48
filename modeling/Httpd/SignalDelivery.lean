import Httpd.Lib.Mutex
import Httpd.QueueMonitor
import Mathlib.Logic.Function.Basic

namespace Httpd
open ConditionVariable Mutex Transition
set_option autoImplicit true

inductive ThreadId where
  | main
  | worker (i : Nat)
  deriving DecidableEq

inductive HandlerPoint where
  | entered
  | testing
  | locking
  | shuttingDown
  | unlocking
  deriving DecidableEq

/-- Where `main` stands from `server_run` to its end, as the queue sees it. In `destroyed` the queue
is being or has been freed and `server->queue` still points to it. -/
inductive MainPoint where
  | starting (i : Nat)
  | accepting
  | locking (clientFd : Fd)
  | enqueuing (clientFd : Fd)
  | unlocking
  | stopping
  | shuttingDown
  | shutDown
  | joining (i : Nat)
  | destroying
  | destroyed
  | finished
  deriving DecidableEq

inductive WorkerPoint where
  | unstarted
  | locking
  | dequeuing
  | waiting
  | unlocking (taken : Option Fd)
  | handling (clientFd : Fd)
  | exited
  deriving DecidableEq

def HandlerPoint.holds : HandlerPoint → Bool
  | .shuttingDown => true
  | .unlocking => true
  | _ => false

def MainPoint.holds : MainPoint → Bool
  | .enqueuing _ => true
  | .unlocking => true
  | .shuttingDown => true
  | .shutDown => true
  | _ => false

def WorkerPoint.holds : WorkerPoint → Bool
  | .dequeuing => true
  | .unlocking _ => true
  | _ => false

/-- The threads with the signal handlers that interrupt them, innermost first. -/
structure SignalState where
  main : MainPoint
  workers : Nat → WorkerPoint
  frames : ThreadId → List HandlerPoint
  monitor : QueueMonitor
  owner : Option ThreadId
  threadCount : Nat
  shouldStop : Bool

inductive SignalAction where
  | deliver (thread : ThreadId)
  | handle (thread : ThreadId)
  | spawn (created : Bool)
  | accept (clientFd : Fd)
  | enqueue (mask : List Bool)
  | main
  | worker (i : Nat)
  | wakeUp (i : Nat)

def topHolds (base : Bool) : List HandlerPoint → Bool
  | [] => base
  | point :: _ => point.holds

namespace SignalState

def initial (queue : SocketQueue) (threadCount : Nat) (allocated : Bool) : SignalState where
  main := if threadCount = 0 ∨ !allocated then .destroying else .starting 0
  workers := fun _ => .unstarted
  frames := fun _ => []
  monitor := .initial queue threadCount
  owner := none
  threadCount := threadCount
  shouldStop := false

def setFrames (s : SignalState) (thread : ThreadId) (frames : List HandlerPoint) : SignalState :=
  { s with frames := Function.update s.frames thread frames }

def toMain (s : SignalState) (main : MainPoint) : SignalState := { s with main := main }

def setWorker (s : SignalState) (i : Nat) (point : WorkerPoint) : SignalState :=
  { s with workers := Function.update s.workers i point }

def lock (s : SignalState) (thread : ThreadId) : Option SignalState :=
  if s.owner = none then some { s with owner := some thread } else none

def unlock (s : SignalState) : SignalState := { s with owner := none }

def interruptible (s : SignalState) : ThreadId → Bool
  | .main => true
  | .worker i => decide (s.workers i ≠ .unstarted ∧ s.workers i ≠ .exited)

def handlerStep (s : SignalState) (thread : ThreadId) : Option SignalState :=
  match s.frames thread with
  | [] => none
  | .entered :: rest => some ({ s with shouldStop := true }.setFrames thread (.testing :: rest))
  | .testing :: rest =>
    some (s.setFrames thread (if s.main = .finished then rest else .locking :: rest))
  | .locking :: rest => (s.lock thread).map fun s => s.setFrames thread (.shuttingDown :: rest)
  | .shuttingDown :: rest =>
    some ({ s with monitor := s.monitor.shutdown }.setFrames thread (.unlocking :: rest))
  | .unlocking :: rest => some (s.unlock.setFrames thread rest)

def mainStep (s : SignalState) : Option SignalState :=
  match s.main with
  | .starting i => if i = s.threadCount then some (s.toMain .accepting) else none
  | .accepting => if s.shouldStop then some (s.toMain .stopping) else none
  | .locking clientFd => (s.lock .main).map fun s => s.toMain (.enqueuing clientFd)
  | .enqueuing _ => none
  | .unlocking => some (s.unlock.toMain .accepting)
  | .stopping => (s.lock .main).map fun s => s.toMain .shuttingDown
  | .shuttingDown => some { s with monitor := s.monitor.shutdown, main := .shutDown }
  | .shutDown => some (s.unlock.toMain (.joining 0))
  | .joining i =>
    if i = s.threadCount then some (s.toMain .destroying)
    else if s.workers i = .exited then some (s.toMain (.joining (i + 1)))
    else none
  | .destroying => some (s.toMain .destroyed)
  | .destroyed => some (s.toMain .finished)
  | .finished => none

def workerStep (s : SignalState) (i : Nat) : Option SignalState :=
  match s.workers i with
  | .locking => (s.lock (.worker i)).map fun s => s.setWorker i .dequeuing
  | .dequeuing =>
    (s.monitor.dequeue i).map fun (result, monitor) =>
      match result with
      | .wait => { s with monitor := monitor }.unlock.setWorker i .waiting
      | .closed => { s with monitor := monitor }.setWorker i (.unlocking none)
      | .took clientFd _ => { s with monitor := monitor }.setWorker i (.unlocking (some clientFd))
  | .waiting =>
    if s.monitor.waiters[i]? = some .woken then
      (s.lock (.worker i)).map fun s => s.setWorker i .dequeuing
    else none
  | .unlocking none => some (s.unlock.setWorker i .exited)
  | .unlocking (some clientFd) => some (s.unlock.setWorker i (.handling clientFd))
  | .handling _ => some (s.setWorker i .locking)
  | .unstarted => none
  | .exited => none

/-- A thread goes on with its own work only when no handler runs on it. -/
def next (s : SignalState) : SignalAction → Option SignalState
  | .deliver thread =>
    if s.interruptible thread then some (s.setFrames thread (.entered :: s.frames thread)) else none
  | .handle thread => s.handlerStep thread
  | .spawn created =>
    match s.frames .main, s.main with
    | [], .starting i =>
      if i = s.threadCount then none
      else if created then some ((s.setWorker i .locking).toMain (.starting (i + 1)))
      else some { s with main := .stopping, threadCount := i }
    | _, _ => none
  | .accept clientFd =>
    match s.frames .main, s.main with
    | [], .accepting => some (s.toMain (.locking clientFd))
    | _, _ => none
  | .enqueue mask =>
    match s.frames .main, s.main with
    | [], .enqueuing clientFd =>
      (s.monitor.enqueue clientFd mask).map fun (_, monitor) =>
        { s with monitor := monitor, main := .unlocking }
    | _, _ => none
  | .main => if s.frames .main = [] then s.mainStep else none
  | .worker i => if s.frames (.worker i) = [] then s.workerStep i else none
  | .wakeUp i => (s.monitor.wakeUp i).map fun monitor => { s with monitor := monitor }

def Step (s : SignalState) (a : SignalAction) (t : SignalState) : Prop := s.next a = some t

/-- What a step can be, with what it asks of the state and what it leaves. -/
inductive Acts (s : SignalState) : SignalAction → SignalState → Prop where
  | delivered (thread : ThreadId) (hl : s.interruptible thread = true) :
      Acts s (.deliver thread) (s.setFrames thread (.entered :: s.frames thread))
  | entered (thread : ThreadId) (rest : List HandlerPoint)
      (hf : s.frames thread = .entered :: rest) :
      Acts s (.handle thread)
        (SignalState.setFrames { s with shouldStop := true } thread (.testing :: rest))
  | tested (thread : ThreadId) (rest : List HandlerPoint)
      (hf : s.frames thread = .testing :: rest) (hm : s.main ≠ .finished) :
      Acts s (.handle thread) (s.setFrames thread (.locking :: rest))
  | testedLate (thread : ThreadId) (rest : List HandlerPoint)
      (hf : s.frames thread = .testing :: rest) (hm : s.main = .finished) :
      Acts s (.handle thread) (s.setFrames thread rest)
  | handlerLocked (thread : ThreadId) (rest : List HandlerPoint)
      (hf : s.frames thread = .locking :: rest) (ho : s.owner = none) :
      Acts s (.handle thread)
        (SignalState.setFrames { s with owner := some thread } thread (.shuttingDown :: rest))
  | handlerShutdown (thread : ThreadId) (rest : List HandlerPoint)
      (hf : s.frames thread = .shuttingDown :: rest) :
      Acts s (.handle thread)
        (SignalState.setFrames { s with monitor := s.monitor.shutdown } thread (.unlocking :: rest))
  | handlerUnlocked (thread : ThreadId) (rest : List HandlerPoint)
      (hf : s.frames thread = .unlocking :: rest) :
      Acts s (.handle thread) (s.unlock.setFrames thread rest)
  | spawned (i : Nat) (hf : s.frames .main = []) (hm : s.main = .starting i)
      (hi : i ≠ s.threadCount) :
      Acts s (.spawn true) ((s.setWorker i .locking).toMain (.starting (i + 1)))
  | spawnFailed (i : Nat) (hf : s.frames .main = []) (hm : s.main = .starting i)
      (hi : i ≠ s.threadCount) :
      Acts s (.spawn false) { s with main := .stopping, threadCount := i }
  | accepted (clientFd : Fd) (hf : s.frames .main = []) (hm : s.main = .accepting) :
      Acts s (.accept clientFd) (s.toMain (.locking clientFd))
  | enqueued (clientFd : Fd) (mask : List Bool) (result : QueueResult) (monitor : QueueMonitor)
      (hf : s.frames .main = []) (hm : s.main = .enqueuing clientFd)
      (he : s.monitor.enqueue clientFd mask = some (result, monitor)) :
      Acts s (.enqueue mask) { s with monitor := monitor, main := .unlocking }
  | started (hf : s.frames .main = []) (hm : s.main = .starting s.threadCount) :
      Acts s .main (s.toMain .accepting)
  | stopped (hf : s.frames .main = []) (hm : s.main = .accepting) (hs : s.shouldStop = true) :
      Acts s .main (s.toMain .stopping)
  | mainLocked (clientFd : Fd) (hf : s.frames .main = []) (hm : s.main = .locking clientFd)
      (ho : s.owner = none) :
      Acts s .main { s with owner := some .main, main := .enqueuing clientFd }
  | mainUnlocked (hf : s.frames .main = []) (hm : s.main = .unlocking) :
      Acts s .main (s.unlock.toMain .accepting)
  | poolLocked (hf : s.frames .main = []) (hm : s.main = .stopping) (ho : s.owner = none) :
      Acts s .main { s with owner := some .main, main := .shuttingDown }
  | poolShutdown (hf : s.frames .main = []) (hm : s.main = .shuttingDown) :
      Acts s .main { s with monitor := s.monitor.shutdown, main := .shutDown }
  | poolUnlocked (hf : s.frames .main = []) (hm : s.main = .shutDown) :
      Acts s .main (s.unlock.toMain (.joining 0))
  | joined (i : Nat) (hf : s.frames .main = []) (hm : s.main = .joining i)
      (hi : i ≠ s.threadCount) (hw : s.workers i = .exited) :
      Acts s .main (s.toMain (.joining (i + 1)))
  | joinedAll (hf : s.frames .main = []) (hm : s.main = .joining s.threadCount) :
      Acts s .main (s.toMain .destroying)
  | freed (hf : s.frames .main = []) (hm : s.main = .destroying) :
      Acts s .main (s.toMain .destroyed)
  | reset (hf : s.frames .main = []) (hm : s.main = .destroyed) :
      Acts s .main (s.toMain .finished)
  | workerLocked (i : Nat) (hf : s.frames (.worker i) = []) (hw : s.workers i = .locking)
      (ho : s.owner = none) :
      Acts s (.worker i) (SignalState.setWorker { s with owner := some (.worker i) } i .dequeuing)
  | workerWoken (i : Nat) (hf : s.frames (.worker i) = []) (hw : s.workers i = .waiting)
      (hm : s.monitor.waiters[i]? = some .woken) (ho : s.owner = none) :
      Acts s (.worker i) (SignalState.setWorker { s with owner := some (.worker i) } i .dequeuing)
  | waited (i : Nat) (monitor : QueueMonitor) (hf : s.frames (.worker i) = [])
      (hw : s.workers i = .dequeuing) (hd : s.monitor.dequeue i = some (.wait, monitor)) :
      Acts s (.worker i)
        (SignalState.setWorker { s with monitor := monitor, owner := none } i .waiting)
  | closed (i : Nat) (monitor : QueueMonitor) (hf : s.frames (.worker i) = [])
      (hw : s.workers i = .dequeuing) (hd : s.monitor.dequeue i = some (.closed, monitor)) :
      Acts s (.worker i) (SignalState.setWorker { s with monitor := monitor } i (.unlocking none))
  | took (i : Nat) (clientFd : Fd) (queue : SocketQueue) (monitor : QueueMonitor)
      (hf : s.frames (.worker i) = []) (hw : s.workers i = .dequeuing)
      (hd : s.monitor.dequeue i = some (.took clientFd queue, monitor)) :
      Acts s (.worker i)
        (SignalState.setWorker { s with monitor := monitor } i (.unlocking (some clientFd)))
  | workerExited (i : Nat) (hf : s.frames (.worker i) = []) (hw : s.workers i = .unlocking none) :
      Acts s (.worker i) (s.unlock.setWorker i .exited)
  | workerUnlocked (i : Nat) (clientFd : Fd) (hf : s.frames (.worker i) = [])
      (hw : s.workers i = .unlocking (some clientFd)) :
      Acts s (.worker i) (s.unlock.setWorker i (.handling clientFd))
  | handled (i : Nat) (clientFd : Fd) (hf : s.frames (.worker i) = [])
      (hw : s.workers i = .handling clientFd) : Acts s (.worker i) (s.setWorker i .locking)
  | wokeUp (i : Nat) (monitor : QueueMonitor) (hm : s.monitor.wakeUp i = some monitor) :
      Acts s (.wakeUp i) { s with monitor := monitor }

variable {s t : SignalState}

theorem lock_eq_some (h : s.lock thread = some t) :
    s.owner = none ∧ t = { s with owner := some thread } := by
  simp only [lock] at h
  split at h
  · rename_i ho
    cases h
    exact ⟨ho, rfl⟩
  · cases h

theorem handlerStep_acts (h : s.handlerStep thread = some t) : s.Acts (.handle thread) t := by
  simp only [handlerStep] at h
  split at h
  · cases h
  · rename_i rest hf
    cases h
    exact .entered thread rest hf
  · rename_i rest hf
    cases h
    split
    · rename_i hm
      exact .testedLate thread rest hf hm
    · rename_i hm
      exact .tested thread rest hf hm
  · rename_i rest hf
    obtain ⟨u, hu, rfl⟩ := Option.map_eq_some_iff.1 h
    obtain ⟨ho, rfl⟩ := lock_eq_some hu
    exact .handlerLocked thread rest hf ho
  · rename_i rest hf
    cases h
    exact .handlerShutdown thread rest hf
  · rename_i rest hf
    cases h
    exact .handlerUnlocked thread rest hf

theorem mainStep_acts (hf : s.frames .main = []) (h : s.mainStep = some t) : s.Acts .main t := by
  simp only [mainStep] at h
  split at h
  · rename_i i hm
    split at h
    · rename_i hi
      cases h
      exact .started hf (hi ▸ hm)
    · cases h
  · rename_i hm
    split at h
    · rename_i hs
      cases h
      exact .stopped hf hm hs
    · cases h
  · rename_i clientFd hm
    obtain ⟨u, hu, rfl⟩ := Option.map_eq_some_iff.1 h
    obtain ⟨ho, rfl⟩ := lock_eq_some hu
    exact .mainLocked clientFd hf hm ho
  · cases h
  · rename_i hm
    cases h
    exact .mainUnlocked hf hm
  · rename_i hm
    obtain ⟨u, hu, rfl⟩ := Option.map_eq_some_iff.1 h
    obtain ⟨ho, rfl⟩ := lock_eq_some hu
    exact .poolLocked hf hm ho
  · rename_i hm
    cases h
    exact .poolShutdown hf hm
  · rename_i hm
    cases h
    exact .poolUnlocked hf hm
  · rename_i i hm
    split at h
    · rename_i hi
      cases h
      exact .joinedAll hf (hi ▸ hm)
    · rename_i hi
      split at h
      · rename_i hw
        cases h
        exact .joined i hf hm hi hw
      · cases h
  · rename_i hm
    cases h
    exact .freed hf hm
  · rename_i hm
    cases h
    exact .reset hf hm
  · cases h

theorem workerStep_acts (hf : s.frames (.worker i) = []) (h : s.workerStep i = some t) :
    s.Acts (.worker i) t := by
  simp only [workerStep] at h
  split at h
  · rename_i hw
    obtain ⟨u, hu, rfl⟩ := Option.map_eq_some_iff.1 h
    obtain ⟨ho, rfl⟩ := lock_eq_some hu
    exact .workerLocked i hf hw ho
  · rename_i hw
    obtain ⟨⟨result, monitor⟩, hd, ht⟩ := Option.map_eq_some_iff.1 h
    cases result with
    | wait =>
      cases ht
      exact .waited i monitor hf hw hd
    | closed =>
      cases ht
      exact .closed i monitor hf hw hd
    | took clientFd queue =>
      cases ht
      exact .took i clientFd queue monitor hf hw hd
  · rename_i hw
    split at h
    · rename_i hm
      obtain ⟨u, hu, rfl⟩ := Option.map_eq_some_iff.1 h
      obtain ⟨ho, rfl⟩ := lock_eq_some hu
      exact .workerWoken i hf hw hm ho
    · cases h
  · rename_i hw
    cases h
    exact .workerExited i hf hw
  · rename_i clientFd hw
    cases h
    exact .workerUnlocked i clientFd hf hw
  · rename_i clientFd hw
    cases h
    exact .handled i clientFd hf hw
  · cases h
  · cases h

theorem Step.acts (h : Step s a t) : s.Acts a t := by
  cases a with
  | deliver thread =>
    simp only [Step, next] at h
    split at h
    · rename_i hl
      cases h
      exact .delivered thread hl
    · cases h
  | handle thread => exact handlerStep_acts h
  | spawn created =>
    simp only [Step, next] at h
    split at h
    · rename_i i hf hm
      split at h
      · cases h
      · rename_i hi
        cases created with
        | true =>
          cases h
          exact .spawned i hf hm hi
        | false =>
          cases h
          exact .spawnFailed i hf hm hi
    · cases h
  | accept clientFd =>
    simp only [Step, next] at h
    split at h
    · rename_i hf hm
      cases h
      exact .accepted clientFd hf hm
    · cases h
  | enqueue mask =>
    simp only [Step, next] at h
    split at h
    · rename_i clientFd hf hm
      obtain ⟨⟨result, monitor⟩, he, rfl⟩ := Option.map_eq_some_iff.1 h
      exact .enqueued clientFd mask result monitor hf hm he
    · cases h
  | main =>
    simp only [Step, next] at h
    split at h
    · rename_i hf
      exact mainStep_acts hf h
    · cases h
  | worker i =>
    simp only [Step, next] at h
    split at h
    · rename_i hf
      exact workerStep_acts hf h
    · cases h
  | wakeUp i =>
    obtain ⟨monitor, hm, rfl⟩ := Option.map_eq_some_iff.1 h
    exact .wokeUp i monitor hm

/-- Whatever a step can be is one. -/
theorem Acts.step (h : s.Acts a t) : Step s a t := by
  cases h with
  | delivered thread hl => exact if_pos hl
  | entered thread rest hf | handlerShutdown thread rest hf | handlerUnlocked thread rest hf =>
    simp only [Step, next, handlerStep, hf]
  | tested thread rest hf hm => simp only [Step, next, handlerStep, hf, if_neg hm]
  | testedLate thread rest hf hm => simp only [Step, next, handlerStep, hf, if_pos hm]
  | handlerLocked thread rest hf ho =>
    simp only [Step, next, handlerStep, hf, lock, if_pos ho, Option.map_some]
  | spawned i hf hm hi => simp only [Step, next, hf, hm, if_neg hi, if_true]
  | spawnFailed i hf hm hi =>
    simp only [Step, next, hf, hm, if_neg hi, Bool.false_eq_true, if_false]
  | accepted clientFd hf hm => simp only [Step, next, hf, hm]
  | enqueued clientFd mask result monitor hf hm he =>
    simp only [Step, next, hf, hm, he, Option.map_some]
  | started hf hm => simp only [Step, next, mainStep, if_pos hf, hm, if_true]
  | stopped hf hm hs => simp only [Step, next, mainStep, if_pos hf, hm, if_pos hs]
  | mainLocked clientFd hf hm ho =>
    simp only [Step, next, mainStep, if_pos hf, hm, lock, if_pos ho, Option.map_some]
    rfl
  | poolLocked hf hm ho =>
    simp only [Step, next, mainStep, if_pos hf, hm, lock, if_pos ho, Option.map_some]
    rfl
  | mainUnlocked hf hm | poolShutdown hf hm | poolUnlocked hf hm | freed hf hm | reset hf hm =>
    simp only [Step, next, mainStep, if_pos hf, hm]
  | joined i hf hm hi hw => simp only [Step, next, mainStep, if_pos hf, hm, if_neg hi, if_pos hw]
  | joinedAll hf hm => simp only [Step, next, mainStep, if_pos hf, hm, if_true]
  | workerLocked i hf hw ho =>
    simp only [Step, next, workerStep, if_pos hf, hw, lock, if_pos ho, Option.map_some]
  | workerWoken i hf hw hm ho =>
    simp only [Step, next, workerStep, if_pos hf, hw, if_pos hm, lock, if_pos ho, Option.map_some]
  | waited i monitor hf hw hd =>
    simp only [Step, next, workerStep, if_pos hf, hw, hd, Option.map_some]
    rfl
  | closed i monitor hf hw hd | took i clientFd queue monitor hf hw hd =>
    simp only [Step, next, workerStep, if_pos hf, hw, hd, Option.map_some]
  | workerExited i hf hw | workerUnlocked i clientFd hf hw | handled i clientFd hf hw =>
    simp only [Step, next, workerStep, if_pos hf, hw]
  | wokeUp i monitor hm => exact congrArg (Option.map _) hm

def baseHolds (s : SignalState) : ThreadId → Bool
  | .main => s.main.holds
  | .worker i => (s.workers i).holds

def holds (s : SignalState) (thread : ThreadId) : Bool :=
  topHolds (s.baseHolds thread) (s.frames thread)

/-- Where a signal does no harm: outside the critical sections, and for `main` not between the
freeing of the queue and the reset of `server->queue`. -/
def Harmless (s : SignalState) : SignalAction → Prop
  | .deliver thread => s.holds thread = false ∧ (thread = .main → s.main ≠ .destroyed)
  | _ => True

def Guarded (s : SignalState) (a : SignalAction) (t : SignalState) : Prop :=
  Step s a t ∧ s.Harmless a

/-- No handler is about to lock the mutex that the thread it interrupts holds, and none works on a
queue that has been destroyed. -/
structure Safe (s : SignalState) : Prop where
  lock : ∀ thread rest, s.frames thread = .locking :: rest → s.owner ≠ some thread
  alive : ∀ thread, ∀ point ∈ s.frames thread, point ≠ .entered → point ≠ .testing →
    s.main ≠ .destroyed ∧ s.main ≠ .finished

def Phase (threadCount : Nat) (workers : Nat → WorkerPoint) : MainPoint → Prop
  | .starting i => ∀ j, i ≤ j → workers j = .unstarted
  | .joining i =>
    (∀ j, threadCount ≤ j → workers j = .unstarted) ∧ ∀ j, j < i → workers j = .exited
  | .destroying => ∀ j, workers j = .unstarted ∨ workers j = .exited
  | .destroyed => ∀ j, workers j = .unstarted ∨ workers j = .exited
  | .finished => ∀ j, workers j = .unstarted ∨ workers j = .exited
  | _ => ∀ j, threadCount ≤ j → workers j = .unstarted

/-- What guarded steps keep: one owner, nothing held beneath a handler, no handler on a thread that
does not run, and none in the queue once it is freed. -/
structure Sound (s : SignalState) : Prop where
  owner : Exclusive s.owner s.holds
  beneath : ∀ thread point rest, s.frames thread = point :: rest →
    s.baseHolds thread = false ∧ ∀ p ∈ rest, p.holds = false
  phase : Phase s.threadCount s.workers s.main
  idle : ∀ i, s.workers i = .unstarted ∨ s.workers i = .exited → s.frames (.worker i) = []
  destroyed : s.main = .destroyed → s.frames .main = []
  finished : s.main = .finished → ∀ point ∈ s.frames .main, point = .entered ∨ point = .testing

theorem Phase.mono {workers workers' : Nat → WorkerPoint} {main : MainPoint}
    (h : Phase count workers main)
    (hw : ∀ j, workers j = .unstarted ∨ workers j = .exited → workers' j = workers j) :
    Phase count workers' main := by
  have hunstarted : ∀ j, workers j = .unstarted → workers' j = .unstarted :=
    fun j hj => (hw j (.inl hj)).trans hj
  have hexited : ∀ j, workers j = .exited → workers' j = .exited :=
    fun j hj => (hw j (.inr hj)).trans hj
  cases main with
  | joining i =>
    exact ⟨fun j hj => hunstarted j (h.1 j hj), fun j hj => hexited j (h.2 j hj)⟩
  | destroying | destroyed | finished => exact fun j => (h j).imp (hunstarted j) (hexited j)
  | _ => exact fun j hj => hunstarted j (h j hj)

theorem Sound.topHolds_rest (h : s.Sound) (hf : s.frames thread = point :: rest) :
    topHolds (s.baseHolds thread) rest = false := by
  obtain ⟨hbase, hrest⟩ := h.beneath thread point rest hf
  cases rest with
  | nil => exact hbase
  | cons p rest => exact hrest p List.mem_cons_self

theorem Sound.interruptible (h : s.Sound) (hf : s.frames thread ≠ []) :
    s.interruptible thread = true := by
  cases thread with
  | main => rfl
  | worker i =>
    apply decide_eq_true
    exact ⟨fun hw => hf (h.idle i (.inl hw)), fun hw => hf (h.idle i (.inr hw))⟩

theorem Sound.safe (h : s.Sound) : s.Safe := by
  constructor
  · intro thread rest hf ho
    have hholds : s.holds thread = true := (h.owner thread).1 ho
    rw [holds, hf] at hholds
    cases hholds
  · intro thread point hp he ht
    have hmain : ∀ thread, s.main = .destroyed ∨ s.main = .finished → point ∈ s.frames thread →
        False := by
      intro thread hm hp
      cases thread with
      | main =>
        obtain hm | hm := hm
        · rw [h.destroyed hm] at hp
          cases hp
        · exact (h.finished hm point hp).elim he ht
      | worker i =>
        have hphase := h.phase
        have hdone : s.workers i = .unstarted ∨ s.workers i = .exited := by
          obtain hm | hm := hm
          · rw [hm] at hphase
            exact hphase i
          · rw [hm] at hphase
            exact hphase i
        rw [h.idle i hdone] at hp
        cases hp
    exact ⟨fun hm => hmain thread (.inl hm) hp, fun hm => hmain thread (.inr hm) hp⟩

theorem Sound.moveFrames {owner : Option ThreadId} {monitor : QueueMonitor}
    {frames : List HandlerPoint} (h : s.Sound)
    (hlive : s.interruptible thread = true) (hbase : s.baseHolds thread = false)
    (hrest : ∀ p ∈ frames.tail, p.holds = false)
    (hl : Handover thread s.owner (s.holds thread) owner (topHolds (s.baseHolds thread) frames))
    (hdestroyed : thread = .main → s.main ≠ .destroyed)
    (hfinished : thread = .main → s.main = .finished →
      ∀ point ∈ frames, point = .entered ∨ point = .testing) :
    Sound { s with
      frames := Function.update s.frames thread frames
      owner := owner, monitor := monitor, shouldStop := stop } := by
  constructor
  · apply h.owner.handover hl
    · simp only [holds, Function.update_self]
      rfl
    · intro j hj
      simp only [holds, Function.update_of_ne hj]
      rfl
  · intro id point rest hf
    change Function.update s.frames thread frames id = point :: rest at hf
    by_cases hid : id = thread
    · rw [hid, Function.update_self] at hf
      rw [hf] at hrest
      rw [hid]
      exact ⟨hbase, hrest⟩
    · rw [Function.update_of_ne hid] at hf
      exact h.beneath id point rest hf
  · exact h.phase
  · intro i hi
    have hne : ThreadId.worker i ≠ thread := by
      rintro rfl
      have hw := of_decide_eq_true hlive
      exact hi.elim hw.1 hw.2
    exact (Function.update_of_ne hne _ _).trans (h.idle i hi)
  · intro hm
    have hne : ThreadId.main ≠ thread := fun he => hdestroyed he.symm hm
    exact (Function.update_of_ne hne _ _).trans (h.destroyed hm)
  · intro hm
    change ∀ point ∈ Function.update s.frames thread frames .main, _
    by_cases hid : ThreadId.main = thread
    · rw [hid, Function.update_self]
      exact hfinished hid.symm hm
    · rw [Function.update_of_ne hid]
      exact h.finished hm

theorem Sound.moveMain {owner : Option ThreadId} {main : MainPoint} {monitor : QueueMonitor}
    (h : s.Sound) (hf : s.frames .main = []) (hm : s.main = point)
    (hl : Handover .main s.owner point.holds owner main.holds)
    (hp : Phase s.threadCount s.workers point → Phase count s.workers main) :
    Sound { s with main := main, owner := owner, monitor := monitor, threadCount := count } := by
  constructor
  · have hbefore : s.holds .main = point.holds := by
      rw [holds, hf, ← hm]
      rfl
    apply h.owner.handover (hbefore ▸ hl)
    · simp only [holds, hf]
      rfl
    · intro j hj
      cases j with
      | main => exact absurd rfl hj
      | worker i => rfl
  · intro id p rest hid
    cases id with
    | main =>
      rw [hf] at hid
      cases hid
    | worker i => exact h.beneath (.worker i) p rest hid
  · exact hp (hm ▸ h.phase)
  · exact h.idle
  · exact fun _ => hf
  · intro _ p hmem
    rw [hf] at hmem
    cases hmem

theorem Sound.moveWorker {owner : Option ThreadId} {point : WorkerPoint} {monitor : QueueMonitor}
    (h : s.Sound) (hf : s.frames (.worker i) = []) (hw : s.workers i = old)
    (hrun : old ≠ .unstarted ∧ old ≠ .exited)
    (hl : Handover (.worker i) s.owner old.holds owner point.holds) :
    Sound { s with
      workers := Function.update s.workers i point, owner := owner, monitor := monitor } := by
  rw [← hw] at hrun hl
  have hstays : ∀ j, s.workers j = .unstarted ∨ s.workers j = .exited →
      Function.update s.workers i point j = s.workers j := by
    intro j hj
    apply Function.update_of_ne
    rintro rfl
    exact hj.elim hrun.1 hrun.2
  constructor
  · have hbefore : s.holds (.worker i) = (s.workers i).holds := by
      rw [holds, hf]
      rfl
    apply h.owner.handover (hbefore ▸ hl)
    · simp only [holds, hf, topHolds, baseHolds, Function.update_self]
    · intro j hj
      cases j with
      | main => rfl
      | worker j =>
        have hne : j ≠ i := fun he => hj (congrArg _ he)
        simp only [holds, baseHolds, Function.update_of_ne hne]
  · intro id p rest hid
    obtain ⟨hbase, hrest⟩ := h.beneath id p rest hid
    refine ⟨?_, hrest⟩
    cases id with
    | main => exact hbase
    | worker j =>
      have hne : j ≠ i := by
        rintro rfl
        rw [hf] at hid
        cases hid
      simp only [baseHolds, Function.update_of_ne hne]
      exact hbase
  · exact h.phase.mono hstays
  · intro j hj
    by_cases hne : j = i
    · rw [hne]
      exact hf
    · have hw : Function.update s.workers i point j = s.workers j := Function.update_of_ne hne _ _
      exact h.idle j (hw ▸ hj)
  · exact h.destroyed
  · exact h.finished

theorem Sound.deliver (h : s.Sound) (hlive : s.interruptible thread = true)
    (hg : s.Harmless (.deliver thread)) :
    (s.setFrames thread (.entered :: s.frames thread)).Sound := by
  obtain ⟨hholds, hmain⟩ := hg
  have hbeneath : s.baseHolds thread = false ∧ ∀ p ∈ s.frames thread, p.holds = false := by
    cases hf : s.frames thread with
    | nil =>
      rw [holds, hf] at hholds
      exact ⟨hholds, nofun⟩
    | cons point rest =>
      rw [holds, hf] at hholds
      obtain ⟨hbase, hrest⟩ := h.beneath thread point rest hf
      exact ⟨hbase, List.forall_mem_cons.2 ⟨hholds, hrest⟩⟩
  apply h.moveFrames hlive hbeneath.1
  · exact hbeneath.2
  · rw [hholds]
    exact .keep
  · exact hmain
  · intro hthread hm point hmem
    rw [hthread] at hmem
    obtain rfl | hmem := List.mem_cons.1 hmem
    · exact .inl rfl
    · exact h.finished hm point hmem

/-- A handler goes on to the queue only while `server->queue` points to it. -/
theorem Sound.busy (h : s.Sound) (hf : s.frames thread = point :: rest) (he : point ≠ .entered)
    (ht : point ≠ .testing) : s.main ≠ .finished :=
  (h.safe.alive thread point (hf ▸ List.mem_cons_self) he ht).2

/-- The innermost handler of a thread goes on, or ends. -/
theorem Sound.handle {owner : Option ThreadId} {monitor : QueueMonitor}
    {frames : List HandlerPoint} (h : s.Sound) (hf : s.frames thread = point :: rest)
    (hrest : ∀ p ∈ frames.tail, p ∈ rest)
    (hl : Handover thread s.owner point.holds owner (topHolds (s.baseHolds thread) frames))
    (hfinished : s.main = .finished → ∀ p ∈ frames, p = .testing ∨ p ∈ rest) :
    Sound { s with
      frames := Function.update s.frames thread frames
      owner := owner, monitor := monitor, shouldStop := stop } := by
  obtain ⟨hbase, hbeneath⟩ := h.beneath thread point rest hf
  have hlive : s.interruptible thread = true :=
    h.interruptible (by rw [hf]; exact List.cons_ne_nil _ _)
  have hbefore : s.holds thread = point.holds := by
    rw [holds, hf]
    rfl
  apply h.moveFrames hlive hbase
  · exact fun p hp => hbeneath p (hrest p hp)
  · rw [hbefore]
    exact hl
  · rintro rfl hm
    rw [h.destroyed hm] at hf
    cases hf
  · rintro rfl hm p hp
    obtain rfl | hp := hfinished hm p hp
    · exact .inr rfl
    · exact h.finished hm p (hf ▸ List.mem_cons_of_mem _ hp)

theorem Sound.spawn (h : s.Sound) (hm : s.main = .starting i) :
    ((s.setWorker i .locking).toMain (.starting (i + 1))).Sound := by
  have hphase : ∀ j, i ≤ j → s.workers j = .unstarted := by
    have hp := h.phase
    rw [hm] at hp
    exact hp
  have hunstarted : s.workers i = .unstarted := hphase i (Nat.le_refl i)
  have hholds : ∀ thread, ((s.setWorker i .locking).toMain (.starting (i + 1))).baseHolds thread =
      s.baseHolds thread := by
    intro thread
    cases thread with
    | main =>
      simp only [baseHolds, hm]
      rfl
    | worker j =>
      by_cases hj : j = i
      · simp only [baseHolds, toMain, setWorker, hj, Function.update_self, hunstarted]
        rfl
      · simp only [baseHolds, toMain, setWorker, Function.update_of_ne hj]
  constructor
  · intro thread
    rw [holds, hholds]
    exact h.owner thread
  · intro thread point rest hp
    rw [hholds]
    exact h.beneath thread point rest hp
  · intro j hj
    have hne : j ≠ i := by
      rintro rfl
      exact absurd hj (Nat.not_succ_le_self j)
    exact (Function.update_of_ne hne _ _).trans (hphase j (Nat.le_of_succ_le hj))
  · intro j hj
    by_cases hne : j = i
    · rw [hne]
      exact h.idle i (.inl hunstarted)
    · have hw : Function.update s.workers i .locking j = s.workers j :=
        Function.update_of_ne hne _ _
      exact h.idle j (hw ▸ hj)
  · nofun
  · nofun

theorem Sound.step (h : s.Sound) (hs : Guarded s a t) : t.Sound := by
  obtain ⟨hs, hg⟩ := hs
  cases hs.acts with
  | delivered thread hl => exact h.deliver hl hg
  | entered thread rest hf =>
    apply h.handle hf
    · exact fun _ hp => hp
    · exact .keep
    · exact fun _ p hp => List.mem_cons.1 hp
  | tested thread rest hf hm =>
    apply h.handle hf
    · exact fun _ hp => hp
    · exact .keep
    · exact fun he => absurd he hm
  | testedLate thread rest hf hm =>
    apply h.handle hf
    · exact fun _ => List.mem_of_mem_tail
    · rw [h.topHolds_rest hf]
      exact .keep
    · exact fun _ p hp => .inr hp
  | handlerLocked thread rest hf ho =>
    apply h.handle hf
    · exact fun _ hp => hp
    · exact .acquire ho
    · exact fun he => absurd he (h.busy hf nofun nofun)
  | handlerShutdown thread rest hf =>
    apply h.handle hf
    · exact fun _ hp => hp
    · exact .keep
    · exact fun he => absurd he (h.busy hf nofun nofun)
  | handlerUnlocked thread rest hf =>
    apply h.handle hf
    · exact fun _ => List.mem_of_mem_tail
    · rw [h.topHolds_rest hf]
      exact .release rfl
    · exact fun _ p hp => .inr hp
  | spawned i hf hm hi => exact h.spawn hm
  | spawnFailed i hf hm hi => exact h.moveMain hf hm .keep id
  | accepted clientFd hf hm => exact h.moveMain hf hm .keep id
  | enqueued clientFd mask result monitor hf hm he => exact h.moveMain hf hm .keep id
  | started hf hm => exact h.moveMain hf hm .keep id
  | stopped hf hm hs => exact h.moveMain hf hm .keep id
  | mainLocked clientFd hf hm ho => exact h.moveMain hf hm (.acquire ho) id
  | mainUnlocked hf hm => exact h.moveMain hf hm (.release rfl) id
  | poolLocked hf hm ho => exact h.moveMain hf hm (.acquire ho) id
  | poolShutdown hf hm => exact h.moveMain hf hm .keep id
  | poolUnlocked hf hm => exact h.moveMain hf hm (.release rfl) fun hp => ⟨hp, nofun⟩
  | joined i hf hm hi hw =>
    apply h.moveMain hf hm
    · exact .keep
    · rintro ⟨hunstarted, hexited⟩
      refine ⟨hunstarted, fun j hj => ?_⟩
      obtain hj | rfl := Nat.lt_succ_iff_lt_or_eq.1 hj
      · exact hexited j hj
      · exact hw
  | joinedAll hf hm =>
    apply h.moveMain hf hm
    · exact .keep
    · rintro ⟨hunstarted, hexited⟩ j
      obtain hj | hj := Nat.lt_or_ge j s.threadCount
      · exact .inr (hexited j hj)
      · exact .inl (hunstarted j hj)
  | freed hf hm => exact h.moveMain hf hm .keep id
  | reset hf hm => exact h.moveMain hf hm .keep id
  | workerLocked i hf hw ho => exact h.moveWorker hf hw ⟨nofun, nofun⟩ (.acquire ho)
  | workerWoken i hf hw hm ho => exact h.moveWorker hf hw ⟨nofun, nofun⟩ (.acquire ho)
  | waited i monitor hf hw hd => exact h.moveWorker hf hw ⟨nofun, nofun⟩ (.release rfl)
  | closed i monitor hf hw hd => exact h.moveWorker hf hw ⟨nofun, nofun⟩ .keep
  | took i clientFd queue monitor hf hw hd => exact h.moveWorker hf hw ⟨nofun, nofun⟩ .keep
  | workerExited i hf hw => exact h.moveWorker hf hw ⟨nofun, nofun⟩ (.release rfl)
  | workerUnlocked i clientFd hf hw => exact h.moveWorker hf hw ⟨nofun, nofun⟩ (.release rfl)
  | handled i clientFd hf hw => exact h.moveWorker hf hw ⟨nofun, nofun⟩ .keep
  | wokeUp i monitor hm => exact ⟨h.owner, h.beneath, h.phase, h.idle, h.destroyed, h.finished⟩

theorem initial_sound (queue : SocketQueue) (threadCount : Nat) (allocated : Bool) :
    (initial queue threadCount allocated).Sound := by
  constructor
  · apply exclusive_none
    intro thread
    cases thread with
    | main =>
      simp only [holds, initial, topHolds, baseHolds]
      split <;> rfl
    | worker i => rfl
  · nofun
  · simp only [initial]
    split
    · exact fun j => .inl rfl
    · exact fun j _ => rfl
  · exact fun _ _ => rfl
  · exact fun _ => rfl
  · nofun

theorem Sound.holds_finished (h : s.Sound) (hm : s.main = .finished) :
    s.holds thread = false := by
  cases thread with
  | main =>
    cases hf : s.frames .main with
    | nil =>
      simp only [holds, hf, topHolds, baseHolds, hm]
      rfl
    | cons point rest =>
      rw [holds, hf]
      obtain rfl | rfl := h.finished hm point (hf ▸ List.mem_cons_self)
      · rfl
      · rfl
  | worker i =>
    have hphase := h.phase
    rw [hm] at hphase
    rw [holds, h.idle i (hphase i)]
    change (s.workers i).holds = false
    obtain hw | hw := hphase i
    · rw [hw]
      rfl
    · rw [hw]
      rfl

theorem run_handler (hm : s.main ≠ .finished) (hf : s.frames thread = .entered :: rest) :
    ∃ u, Run Step s [.handle thread, .handle thread] u ∧ u.frames thread = .locking :: rest ∧
      u.owner = s.owner ∧ u.main = s.main := by
  let t : SignalState := SignalState.setFrames { s with shouldStop := true } thread (.testing :: rest)
  have hfirst : Step s (.handle thread) t := by
    simp only [Step, next, handlerStep, hf]
    rfl
  have htest : t.frames thread = .testing :: rest := Function.update_self ..
  have hmain : t.main ≠ .finished := hm
  have hsecond : Step t (.handle thread) (t.setFrames thread (.locking :: rest)) := by
    simp only [Step, next, handlerStep, htest, if_neg hmain]
  exact ⟨_, .cons hfirst (.single hsecond), Function.update_self .., rfl, rfl⟩

/-- A signal where it does harm: its handler comes to lock the mutex that the thread holds, or that
of a queue that has been freed. -/
theorem Sound.harmful (h : s.Sound) (hs : Step s (.deliver thread) t)
    (hg : ¬ s.Harmless (.deliver thread)) :
    ∃ u, Run Step t [.handle thread, .handle thread] u ∧ ¬ u.Safe := by
  have ht : t = s.setFrames thread (.entered :: s.frames thread) := by
    simp only [Step, next] at hs
    split at hs
    · exact (Option.some.inj hs).symm
    · cases hs
  have hf : t.frames thread = .entered :: s.frames thread := by
    rw [ht]
    exact Function.update_self ..
  have hmain : t.main = s.main := by rw [ht]; rfl
  have howner : t.owner = s.owner := by rw [ht]; rfl
  cases hh : s.holds thread with
  | true =>
    have hfinished : t.main ≠ .finished := by
      intro hm
      rw [h.holds_finished (hmain ▸ hm)] at hh
      cases hh
    obtain ⟨u, hrun, hlock, ho, _⟩ := run_handler hfinished hf
    refine ⟨u, hrun, fun hsafe => hsafe.lock thread _ hlock ?_⟩
    rw [ho, howner]
    exact (h.owner thread).2 hh
  | false =>
    have hdestroyed : thread = .main ∧ s.main = .destroyed := by
      by_contra hn
      exact hg ⟨hh, fun hthread hm => hn ⟨hthread, hm⟩⟩
    have hfinished : t.main ≠ .finished := by
      rw [hmain, hdestroyed.2]
      nofun
    obtain ⟨u, hrun, hlock, _, hu⟩ := run_handler hfinished hf
    refine ⟨u, hrun, fun hsafe => ?_⟩
    have hmem : HandlerPoint.locking ∈ u.frames thread := by
      rw [hlock]
      exact List.mem_cons_self
    exact (hsafe.alive thread _ hmem nofun nofun).1 (hu.trans (hmain.trans hdestroyed.2))

end SignalState

/-- Wherever signals arrive in a run, if each arrives outside the critical sections of the thread it
interrupts and not between the freeing of the queue and the reset of `server->queue`, then no handler
locks the mutex its own thread holds or touches a freed queue; the first that arrives elsewhere can
bring about the one or the other. -/
theorem serverStop_safe (queue : SocketQueue) (threadCount : Nat) (allocated : Bool)
    (as : List SignalAction) (s : SignalState)
    (hrun : Run SignalState.Guarded (.initial queue threadCount allocated) as s) :
    s.Safe ∧ ∀ thread t, SignalState.Step s (.deliver thread) t →
      ¬ s.Harmless (.deliver thread) →
      ∃ u, Run SignalState.Step t [.handle thread, .handle thread] u ∧ ¬ u.Safe := by
  have hsound : s.Sound :=
    hrun.invariant (fun _ _ _ h hs => h.step hs)
      (SignalState.initial_sound queue threadCount allocated)
  exact ⟨hsound.safe, fun _ _ hs hg => hsound.harmful hs hg⟩

def orderlyStop : List SignalAction :=
  [.spawn true, .main, .deliver .main, .handle .main, .handle .main, .handle .main, .handle .main,
    .handle .main, .main, .main, .main, .main, .worker 0, .worker 0, .worker 0, .main, .main]

theorem serverStop_safe_orderly : ∃ s : SignalState, s.main = .destroying ∧ s.Safe := by
  have hrun : ∃ s, Run SignalState.Guarded (.initial ⟨[0], 1, 0, 0, 0, false⟩ 1 true) orderlyStop s ∧
      s.main = .destroying := by
    refine ⟨_, .cons ⟨rfl, trivial⟩ (.cons ⟨rfl, trivial⟩ (.cons ⟨rfl, rfl, nofun⟩
      (.cons ⟨rfl, trivial⟩ (.cons ⟨rfl, trivial⟩ (.cons ⟨rfl, trivial⟩ (.cons ⟨rfl, trivial⟩
      (.cons ⟨rfl, trivial⟩ (.cons ⟨rfl, trivial⟩ (.cons ⟨rfl, trivial⟩ (.cons ⟨rfl, trivial⟩
      (.cons ⟨rfl, trivial⟩ (.cons ⟨rfl, trivial⟩ (.cons ⟨rfl, trivial⟩ (.cons ⟨rfl, trivial⟩
      (.cons ⟨rfl, trivial⟩ (.cons ⟨rfl, trivial⟩ (.nil _))))))))))))))))), rfl⟩
  obtain ⟨s, hrun, hm⟩ := hrun
  exact ⟨s, hm, (serverStop_safe _ 1 true orderlyStop s hrun).1⟩

/-- A signal that arrives while the accept loop is in `socket_queue_enqueue`. -/
def stopInEnqueue : List SignalAction :=
  [.spawn true, .main, .accept 5, .main, .deliver .main, .handle .main, .handle .main]

/-- The same stop again when the queue has just been freed. -/
def stopAfterDestroy : List SignalAction :=
  orderlyStop ++ [.main, .deliver .main, .handle .main, .handle .main]

theorem serverStop_not_safe :
    (∃ s, Run SignalState.Step (.initial ⟨[0], 1, 0, 0, 0, false⟩ 1 true) stopInEnqueue s ∧
      s.frames .main = [.locking] ∧ s.owner = some .main ∧ ¬ s.Safe) ∧
    ∃ s, Run SignalState.Step (.initial ⟨[0], 1, 0, 0, 0, false⟩ 1 true) stopAfterDestroy s ∧
      s.frames .main = [.locking] ∧ s.main = .destroyed ∧ ¬ s.Safe := by
  constructor
  · refine ⟨_, .cons rfl (.cons rfl (.cons rfl (.cons rfl (.cons rfl (.cons rfl (.cons rfl
      (.nil _))))))), rfl, rfl, fun hsafe => ?_⟩
    exact hsafe.lock .main [] rfl rfl
  · refine ⟨_, .cons rfl (.cons rfl (.cons rfl (.cons rfl (.cons rfl (.cons rfl (.cons rfl
      (.cons rfl (.cons rfl (.cons rfl (.cons rfl (.cons rfl (.cons rfl (.cons rfl (.cons rfl
      (.cons rfl (.cons rfl (.cons rfl (.cons rfl (.cons rfl (.cons rfl
      (.nil _))))))))))))))))))))), rfl, rfl, fun hsafe => ?_⟩
    exact (hsafe.alive .main .locking List.mem_cons_self nofun nofun).1 rfl

end Httpd
