import Mathlib.Data.List.Nodup
import Httpd.QueueMonitor

namespace Httpd
open ConditionVariable ListUpdate Transition
set_option autoImplicit true

/-- A `pthread_t`: the worker it names, or what `calloc` left in its place. -/
abbrev ThreadHandle := Option Nat

structure ThreadPool where
  threads : Option (List ThreadHandle)
  threadCount : Nat
  deriving DecidableEq

def ThreadPool.setThread (pool : ThreadPool) (i : Nat) (handle : ThreadHandle) : ThreadPool :=
  { pool with threads := pool.threads.map fun threads => threads.set i handle }

/-- Where the caller stands: before the two calls of a round of `thread_pool_start` that may fail,
in `thread_pool_stop`, or outside both. -/
inductive CallerPc where
  | starting (i : Nat)
  | creating (i : Nat)
  | stopping
  | joining (i : Nat)
  | idle
  deriving DecidableEq

inductive PoolWorker where
  | dequeuing
  | handling (clientFd : Fd)
  | exited
  deriving DecidableEq

def PoolWorker.afterDequeue : DequeueResult → PoolWorker
  | .wait => .dequeuing
  | .closed => .exited
  | .took clientFd _ => .handling clientFd

def PoolWorker.weight : PoolWorker → Nat
  | .dequeuing => 1
  | .handling _ => 2
  | .exited => 0

structure PoolState where
  main : CallerPc
  pool : ThreadPool
  workers : List PoolWorker
  monitor : QueueMonitor
  threadCount : Nat
  result : Option Int
  /-- The calls of `thread_pool_stop` that have returned to the caller. -/
  stops : Nat
  /-- Every handle given to `pthread_join`, in order. -/
  joined : List ThreadHandle
  deriving DecidableEq

/-- The caller makes the first five kinds of step and the workers the next two; the rest may come
from any other thread. -/
inductive PoolAction where
  | iterate (allocated : Bool)
  | create (created : Bool) (left : ThreadHandle)
  | stop
  | shutdownPool
  | join
  | dequeue (i : Nat)
  | handled (i : Nat)
  | enqueue (clientFd : Fd) (mask : List Bool)
  | shutdownQueue
  | wakeUp (i : Nat)

def PoolAction.own : PoolAction → Bool
  | .iterate _ | .create .. | .shutdownPool | .join | .dequeue _ | .handled _ => true
  | .stop | .enqueue .. | .shutdownQueue | .wakeUp _ => false

namespace PoolState

/-- The call of `thread_pool_start`; `allocated` says that there is memory for the handles. -/
def initial (pool : ThreadPool) (queue : SocketQueue) (threadCount : Int) (allocated : Bool) :
    PoolState :=
  let refused := threadCount ≤ 0 ∨ !allocated
  { main := if refused then .idle else .starting 0
    pool := if refused then pool
      else ⟨some (List.replicate threadCount.toNat none), threadCount.toNat⟩
    workers := []
    monitor := ⟨queue, []⟩
    threadCount := threadCount.toNat
    result := if refused then some (-1) else none
    stops := 0
    joined := [] }

def toMain (s : PoolState) (main : CallerPc) : PoolState := { s with main := main }

def setThread (s : PoolState) (i : Nat) (handle : ThreadHandle) : PoolState :=
  { s with pool := s.pool.setThread i handle }

def spawn (s : PoolState) (i : Nat) : PoolState :=
  { s.setThread i (some s.workers.length) with
    workers := s.workers ++ [.dequeuing]
    monitor := s.monitor.addThread }

/-- The end of `thread_pool_stop`, which is also the end of a `thread_pool_start` that failed. -/
def leaveStop (s : PoolState) : PoolState :=
  match s.result with
  | none => { s with main := .idle, result := some (-1) }
  | some _ => { s with main := .idle, stops := s.stops + 1 }

def enterStop (s : PoolState) : PoolState :=
  match s.pool.threads with
  | none => s.leaveStop
  | some _ => s.toMain .stopping

/-- What `thread_pool_start` does when round `i` fails. -/
def abandon (s : PoolState) (i : Nat) : PoolState :=
  { s with pool := { s.pool with threadCount := i } }.enterStop

/-- `pthread_join` waits for the worker. What it does with a handle of no thread is undefined, so
that such a call goes through and is recorded. -/
def pthreadJoin (s : PoolState) (handle : ThreadHandle) : Option PoolState :=
  match handle with
  | none => some { s with joined := s.joined ++ [none] }
  | some k =>
    if s.workers[k]? = some .exited then some { s with joined := s.joined ++ [some k] } else none

def next (s : PoolState) : PoolAction → Option PoolState
  | .iterate allocated =>
    match s.main with
    | .starting i =>
      if i < s.threadCount then
        some (if allocated then s.toMain (.creating i) else s.abandon i)
      else some { s with main := .idle, result := some 0 }
    | _ => none
  | .create created left =>
    match s.main with
    | .creating i =>
      some (if created then (s.spawn i).toMain (.starting (i + 1))
        else (s.setThread i left).abandon i)
    | _ => none
  | .stop => if s.main = .idle then some s.enterStop else none
  | .shutdownPool =>
    if s.main = .stopping then some { s with monitor := s.monitor.shutdown, main := .joining 0 }
    else none
  | .join =>
    match s.main with
    | .joining i =>
      if i < s.pool.threadCount then
        ((s.pool.threads.bind fun threads => threads[i]?).bind s.pthreadJoin).map fun s =>
          s.toMain (.joining (i + 1))
      else some { s with pool := ⟨none, 0⟩ }.leaveStop
    | _ => none
  | .dequeue i =>
    if s.workers[i]? = some .dequeuing then
      (s.monitor.dequeue i).map fun (result, monitor) =>
        { s with monitor := monitor, workers := s.workers.set i (.afterDequeue result) }
    else none
  | .handled i =>
    match s.workers[i]? with
    | some (.handling _) => some { s with workers := s.workers.set i .dequeuing }
    | _ => none
  | .enqueue clientFd mask =>
    (s.monitor.enqueue clientFd mask).map fun (_, monitor) => { s with monitor := monitor }
  | .shutdownQueue => some { s with monitor := s.monitor.shutdown }
  | .wakeUp i => (s.monitor.wakeUp i).map fun monitor => { s with monitor := monitor }

def Step (s : PoolState) (a : PoolAction) (t : PoolState) : Prop := s.next a = some t

inductive Acts (s : PoolState) : PoolAction → PoolState → Prop where
  | allocated (i : Nat) (hm : s.main = .starting i) (hi : i < s.threadCount) :
      Acts s (.iterate true) (s.toMain (.creating i))
  | notAllocated (i : Nat) (hm : s.main = .starting i) (hi : i < s.threadCount) :
      Acts s (.iterate false) (s.abandon i)
  | started (i : Nat) (allocated : Bool) (hm : s.main = .starting i) (hi : ¬i < s.threadCount) :
      Acts s (.iterate allocated) { s with main := .idle, result := some 0 }
  | created (i : Nat) (left : ThreadHandle) (hm : s.main = .creating i) :
      Acts s (.create true left) ((s.spawn i).toMain (.starting (i + 1)))
  | notCreated (i : Nat) (left : ThreadHandle) (hm : s.main = .creating i) :
      Acts s (.create false left) ((s.setThread i left).abandon i)
  | stopCalled (hm : s.main = .idle) : Acts s .stop s.enterStop
  | poolShutdown (hm : s.main = .stopping) :
      Acts s .shutdownPool { s with monitor := s.monitor.shutdown, main := .joining 0 }
  | joined (i : Nat) (threads : List ThreadHandle) (handle : ThreadHandle) (t : PoolState)
      (hm : s.main = .joining i) (hi : i < s.pool.threadCount)
      (hthreads : s.pool.threads = some threads) (hhandle : threads[i]? = some handle)
      (hjoin : s.pthreadJoin handle = some t) : Acts s .join (t.toMain (.joining (i + 1)))
  | joinedAll (i : Nat) (hm : s.main = .joining i) (hi : ¬i < s.pool.threadCount) :
      Acts s .join { s with pool := ⟨none, 0⟩ }.leaveStop
  | dequeued (i : Nat) (result : DequeueResult) (monitor : QueueMonitor)
      (hw : s.workers[i]? = some .dequeuing)
      (hd : s.monitor.dequeue i = some (result, monitor)) :
      Acts s (.dequeue i)
        { s with monitor := monitor, workers := s.workers.set i (.afterDequeue result) }
  | handled (i : Nat) (clientFd : Fd) (hw : s.workers[i]? = some (.handling clientFd)) :
      Acts s (.handled i) { s with workers := s.workers.set i .dequeuing }
  | enqueued (clientFd : Fd) (mask : List Bool) (result : QueueResult) (monitor : QueueMonitor)
      (he : s.monitor.enqueue clientFd mask = some (result, monitor)) :
      Acts s (.enqueue clientFd mask) { s with monitor := monitor }
  | queueShutdown : Acts s .shutdownQueue { s with monitor := s.monitor.shutdown }
  | wokeUp (i : Nat) (monitor : QueueMonitor) (hm : s.monitor.wakeUp i = some monitor) :
      Acts s (.wakeUp i) { s with monitor := monitor }

theorem iterate_acts {s t : PoolState} (h : s.next (.iterate allocated) = some t) :
    s.Acts (.iterate allocated) t := by
  simp only [next] at h
  split at h
  · rename_i i hm
    split at h
    · rename_i hi
      cases allocated <;> cases h
      · exact .notAllocated i hm hi
      · exact .allocated i hm hi
    · rename_i hi
      cases h
      exact .started i allocated hm hi
  · cases h

theorem create_acts {s t : PoolState} (h : s.next (.create created left) = some t) :
    s.Acts (.create created left) t := by
  simp only [next] at h
  split at h
  · rename_i i hm
    cases created <;> cases h
    · exact .notCreated i left hm
    · exact .created i left hm
  · cases h

theorem join_acts {s t : PoolState} (h : s.next .join = some t) : s.Acts .join t := by
  simp only [next] at h
  split at h
  · rename_i i hm
    split at h
    · rename_i hi
      obtain ⟨u, hu, ht⟩ := Option.map_eq_some_iff.1 h
      obtain ⟨handle, hh, hjoin⟩ := Option.bind_eq_some_iff.1 hu
      obtain ⟨threads, hthreads, hhandle⟩ := Option.bind_eq_some_iff.1 hh
      cases ht
      exact .joined i threads handle u hm hi hthreads hhandle hjoin
    · rename_i hi
      cases h
      exact .joinedAll i hm hi
  · cases h

theorem Step.acts {s t : PoolState} (h : Step s a t) : s.Acts a t := by
  unfold Step at h
  cases a with
  | iterate allocated => exact iterate_acts h
  | create created left => exact create_acts h
  | join => exact join_acts h
  | stop =>
    simp only [next] at h
    split at h
    · rename_i hm
      cases h
      exact .stopCalled hm
    · cases h
  | shutdownPool =>
    simp only [next] at h
    split at h
    · rename_i hm
      cases h
      exact .poolShutdown hm
    · cases h
  | dequeue i =>
    simp only [next] at h
    split at h
    · rename_i hw
      obtain ⟨⟨result, monitor⟩, hd, ht⟩ := Option.map_eq_some_iff.1 h
      cases ht
      exact .dequeued i result monitor hw hd
    · cases h
  | handled i =>
    simp only [next] at h
    split at h
    · rename_i clientFd hw
      cases h
      exact .handled i clientFd hw
    · cases h
  | enqueue clientFd mask =>
    obtain ⟨⟨result, monitor⟩, he, ht⟩ := Option.map_eq_some_iff.1 h
    cases ht
    exact .enqueued clientFd mask result monitor he
  | shutdownQueue =>
    cases h
    exact .queueShutdown
  | wakeUp i =>
    obtain ⟨monitor, hm, ht⟩ := Option.map_eq_some_iff.1 h
    cases ht
    exact .wokeUp i monitor hm

def handles (n : Nat) : List ThreadHandle := (List.range n).map some

theorem handles_length (n : Nat) : (handles n).length = n := by
  rw [handles, List.length_map, List.length_range]

theorem handles_succ (n : Nat) : handles (n + 1) = handles n ++ [some n] := by
  rw [handles, List.range_succ, List.map_append]
  rfl

theorem handles_getElem? (h : i < n) (rest : List ThreadHandle) :
    (handles n ++ rest)[i]? = some (some i) := by
  rw [List.getElem?_append_left ((handles_length n).symm ▸ h), handles, List.getElem?_map,
    List.getElem?_range h]
  rfl

theorem handles_nodup (n : Nat) : (handles n).Nodup :=
  List.Nodup.map (Option.some_injective Nat) List.nodup_range

theorem handles_set (n : Nat) (x handle : ThreadHandle) (rest : List ThreadHandle) :
    (handles n ++ x :: rest).set n handle = handles n ++ handle :: rest := by
  rw [List.set_append_right _ _ (Nat.le_of_eq (handles_length n)), handles_length, Nat.sub_self]
  rfl

structure Building (s : PoolState) (n : Nat) : Prop where
  workers : s.workers.length = n
  pool : ∃ rest, s.pool = ⟨some (handles n ++ rest), s.threadCount⟩ ∧
    n + rest.length = s.threadCount
  result : s.result = none
  stops : s.stops = 0
  joined : s.joined = []

structure Serving (s : PoolState) (n : Nat) : Prop where
  workers : s.workers.length = n
  pool : s.pool = ⟨some (handles n), n⟩
  stops : s.stops = 0
  joined : s.joined = []

structure Stopping (s : PoolState) (n : Nat) : Prop where
  workers : s.workers.length = n
  pool : ∃ rest, s.pool = ⟨some (handles n ++ rest), n⟩
  stops : s.stops = 0
  caller : s.result = none ∧ n < s.threadCount ∨ s.result = some 0 ∧ n = s.threadCount

structure Joining (s : PoolState) (n i : Nat) : Prop where
  stopping : s.Stopping n
  le : i ≤ n
  shutdown : s.monitor.queue.shutdown = true
  exited : ∀ k < i, s.workers[k]? = some .exited
  joined : s.joined = handles i

structure Cleared (s : PoolState) (n : Nat) : Prop where
  workers : s.workers.length = n
  shutdown : s.monitor.queue.shutdown = true
  exited : ∀ k < n, s.workers[k]? = some .exited
  joined : s.joined = handles n
  pool : s.pool = ⟨none, 0⟩

inductive Resting (s : PoolState) (n : Nat) : Prop where
  | serving (h : s.Serving n) (hresult : s.result = some 0) (hn : n = s.threadCount)
  | failed (h : s.Cleared n) (hresult : s.result = some (-1)) (hn : n < s.threadCount)
  | stopped (h : s.Cleared n) (hresult : s.result = some 0) (hn : n = s.threadCount)
      (hstops : 0 < s.stops)

def Phase (s : PoolState) (n : Nat) : CallerPc → Prop
  | .starting i => i = n ∧ s.Building n
  | .creating i => i = n ∧ n < s.threadCount ∧ s.Building n
  | .stopping => s.Stopping n ∧ s.joined = []
  | .joining i => s.Joining n i
  | .idle => s.Resting n

/-- What holds in every state, where `n` workers were created. -/
structure Invariant (s : PoolState) (n : Nat) : Prop where
  waiters : s.monitor.waiters.length = n
  awake : s.monitor.NoLostWakeup
  exits : .exited ∈ s.workers → s.monitor.queue.shutdown = true
  phase : s.Phase n s.main

variable {s t : PoolState}

theorem Phase.advance (h : s.Phase n pc) (hlength : ws.length = s.workers.length)
    (hexited : ∀ k : Nat, s.workers[k]? = some .exited → ws[k]? = some .exited)
    (hshutdown : s.monitor.queue.shutdown = true → m.queue.shutdown = true) :
    Phase { s with workers := ws, monitor := m } n pc := by
  have cleared : s.Cleared n → Cleared { s with workers := ws, monitor := m } n := fun h =>
    ⟨hlength.trans h.workers, hshutdown h.shutdown, fun k hk => hexited k (h.exited k hk),
      h.joined, h.pool⟩
  have stopping : s.Stopping n → Stopping { s with workers := ws, monitor := m } n := fun h =>
    ⟨hlength.trans h.workers, h.pool, h.stops, h.caller⟩
  have building : s.Building n → Building { s with workers := ws, monitor := m } n := fun h =>
    ⟨hlength.trans h.workers, h.pool, h.result, h.stops, h.joined⟩
  cases pc with
  | starting i => exact ⟨h.1, building h.2⟩
  | creating i => exact ⟨h.1, h.2.1, building h.2.2⟩
  | stopping => exact ⟨stopping h.1, h.2⟩
  | joining i =>
    exact ⟨stopping h.stopping, h.le, hshutdown h.shutdown, fun k hk => hexited k (h.exited k hk),
      h.joined⟩
  | idle =>
    cases h with
    | serving h hr hn =>
      exact .serving ⟨hlength.trans h.workers, h.pool, h.stops, h.joined⟩ hr hn
    | failed h hr hn => exact .failed (cleared h) hr hn
    | stopped h hr hn hs => exact .stopped (cleared h) hr hn hs

theorem enterStop_some (h : s.pool.threads = some threads) : s.enterStop = s.toMain .stopping := by
  rw [enterStop, h]

theorem enterStop_none (h : s.pool.threads = none) : s.enterStop = s.leaveStop := by
  rw [enterStop, h]

theorem Building.le (h : s.Building n) : n ≤ s.threadCount := by
  obtain ⟨rest, _, hlength⟩ := h.pool
  omega

theorem Cleared.ended (h : s.Cleared n) (hw : w ∈ s.workers) : w = .exited := by
  obtain ⟨k, hk⟩ := List.mem_iff_getElem?.1 hw
  have hlt : k < n := Nat.lt_of_lt_of_eq (List.getElem?_eq_some_iff.1 hk).1 h.workers
  exact Option.some.inj (hk.symm.trans (h.exited k hlt))

theorem Building.abandon (h : s.Building n) (hn : n < s.threadCount) :
    (s.abandon n).monitor = s.monitor ∧ (s.abandon n).workers = s.workers ∧
      (s.abandon n).Phase n (s.abandon n).main := by
  obtain ⟨rest, hpool, _⟩ := h.pool
  have he : s.abandon n =
      toMain { s with pool := ⟨some (handles n ++ rest), n⟩ } .stopping := by
    rw [PoolState.abandon, hpool]
    rfl
  rw [he]
  exact ⟨rfl, rfl, ⟨h.workers, ⟨rest, rfl⟩, h.stops, .inl ⟨h.result, hn⟩⟩, h.joined⟩

theorem Building.setThread (h : s.Building n) (hn : n < s.threadCount) (handle : ThreadHandle) :
    ∃ rest, (s.setThread n handle).pool = ⟨some (handles n ++ handle :: rest), s.threadCount⟩ ∧
      n + 1 + rest.length = s.threadCount := by
  obtain ⟨rest, hpool, hlength⟩ := h.pool
  cases rest with
  | nil => exact absurd hlength (Nat.ne_of_lt hn)
  | cons x rest =>
    refine ⟨rest, ?_, ?_⟩
    · rw [PoolState.setThread, hpool]
      exact congrArg (fun threads => ThreadPool.mk (some threads) s.threadCount)
        (handles_set n x handle rest)
    · rw [← hlength, List.length_cons]
      omega

theorem Building.spawn (h : s.Building n) (hn : n < s.threadCount) :
    (s.spawn n).Building (n + 1) := by
  obtain ⟨rest, hpool, hlength⟩ := h.setThread hn (some n)
  refine ⟨?_, ⟨rest, ?_, hlength⟩, h.result, h.stops, h.joined⟩
  · rw [PoolState.spawn, List.length_append, h.workers]
    rfl
  · rw [handles_succ, List.append_assoc]
    rw [PoolState.spawn, h.workers]
    exact hpool

/-- What is left in the place of a thread that was not created is never read. -/
theorem Building.notCreated (h : s.Building n) (hn : n < s.threadCount) (left : ThreadHandle) :
    (s.setThread n left).Building n := by
  obtain ⟨rest, hpool, hlength⟩ := h.setThread hn left
  have hcount : n + (left :: rest).length = s.threadCount := by
    rw [← hlength, List.length_cons]
    omega
  exact ⟨h.workers, ⟨left :: rest, hpool, hcount⟩, h.result, h.stops, h.joined⟩

theorem Joining.count (h : s.Joining n i) : s.pool.threadCount = n := by
  obtain ⟨rest, hpool⟩ := h.stopping.pool
  rw [hpool]

theorem Joining.join (h : s.Joining n i) (hi : i < n) (hthreads : s.pool.threads = some threads)
    (hhandle : threads[i]? = some handle) (hjoin : s.pthreadJoin handle = some t) :
    s.workers[i]? = some .exited ∧ t = { s with joined := handles (i + 1) } := by
  obtain ⟨rest, hpool⟩ := h.stopping.pool
  rw [hpool] at hthreads
  cases hthreads
  rw [handles_getElem? hi] at hhandle
  cases hhandle
  rw [pthreadJoin] at hjoin
  split at hjoin
  · rename_i hexited
    cases hjoin
    exact ⟨hexited, by rw [h.joined, handles_succ]⟩
  · cases hjoin

theorem Joining.finish (h : s.Joining n i) (hi : ¬i < s.pool.threadCount) :
    let t := { s with pool := ⟨none, 0⟩ }.leaveStop
    t.monitor = s.monitor ∧ t.workers = s.workers ∧ t.main = .idle ∧ t.Cleared n ∧
      t.Resting n := by
  rw [h.count] at hi
  obtain rfl : i = n := Nat.le_antisymm h.le (Nat.le_of_not_lt hi)
  obtain ⟨hr, hn⟩ | ⟨hr, hn⟩ := h.stopping.caller
  · have he : leaveStop { s with pool := ⟨none, 0⟩ } =
        { s with pool := ⟨none, 0⟩, main := .idle, result := some (-1) } := by
      rw [leaveStop, hr]
    have hcleared : Cleared { s with pool := ⟨none, 0⟩, main := .idle, result := some (-1) } i :=
      ⟨h.stopping.workers, h.shutdown, h.exited, h.joined, rfl⟩
    rw [he]
    exact ⟨rfl, rfl, rfl, hcleared, .failed hcleared rfl hn⟩
  · have he : leaveStop { s with pool := ⟨none, 0⟩ } =
        { s with pool := ⟨none, 0⟩, main := .idle, stops := s.stops + 1 } := by
      rw [leaveStop, hr]
    have hcleared : Cleared { s with pool := ⟨none, 0⟩, main := .idle, stops := s.stops + 1 } i :=
      ⟨h.stopping.workers, h.shutdown, h.exited, h.joined, rfl⟩
    rw [he]
    exact ⟨rfl, rfl, rfl, hcleared, .stopped hcleared hr hn (Nat.succ_pos _)⟩

theorem Cleared.stop (h : s.Cleared n) (hr : s.result = some code) :
    s.enterStop = { s with main := .idle, stops := s.stops + 1 } := by
  have hnone : s.pool.threads = none := congrArg ThreadPool.threads h.pool
  rw [enterStop_none hnone, leaveStop, hr]

theorem Resting.stop (h : s.Resting n) : s.enterStop.monitor = s.monitor ∧
    s.enterStop.workers = s.workers ∧ s.enterStop.Phase n s.enterStop.main := by
  have cleared : s.Cleared n → Cleared { s with main := .idle, stops := s.stops + 1 } n := fun h =>
    ⟨h.workers, h.shutdown, h.exited, h.joined, h.pool⟩
  cases h with
  | serving h hr hn =>
    rw [enterStop_some (congrArg ThreadPool.threads h.pool)]
    have hpool : s.pool = ⟨some (handles n ++ []), n⟩ := by rw [List.append_nil, h.pool]
    exact ⟨rfl, rfl, ⟨h.workers, ⟨[], hpool⟩, h.stops, .inr ⟨hr, hn⟩⟩, h.joined⟩
  | failed h hr hn =>
    rw [h.stop hr]
    exact ⟨rfl, rfl, .failed (cleared h) hr hn⟩
  | stopped h hr hn hs =>
    rw [h.stop hr]
    exact ⟨rfl, rfl, .stopped (cleared h) hr hn (Nat.succ_pos _)⟩

theorem Invariant.place (h : s.Invariant n) (hm : s.main = pc) : s.Phase n pc := hm ▸ h.phase

theorem Invariant.caller (h : s.Invariant n) (hmonitor : t.monitor = s.monitor)
    (hworkers : t.workers = s.workers) (hphase : t.Phase n t.main) : t.Invariant n := by
  constructor
  · rw [hmonitor]
    exact h.waiters
  · rw [hmonitor]
    exact h.awake
  · rw [hmonitor, hworkers]
    exact h.exits
  · exact hphase

theorem Invariant.environment (h : s.Invariant n)
    (hlength : m.waiters.length = s.monitor.waiters.length) (hawake : m.NoLostWakeup)
    (hshutdown : s.monitor.queue.shutdown = true → m.queue.shutdown = true) :
    Invariant { s with monitor := m } n :=
  ⟨hlength.trans h.waiters, hawake, fun hx => hshutdown (h.exits hx),
    h.phase.advance rfl (fun _ hk => hk) hshutdown⟩

theorem Invariant.worker {before after : PoolWorker} (h : s.Invariant n)
    (hw : s.workers[i]? = some before) (hne : before ≠ .exited)
    (hlength : m.waiters.length = s.monitor.waiters.length)
    (hawake : m.NoLostWakeup) (hshutdown : m.queue.shutdown = s.monitor.queue.shutdown)
    (hends : after = .exited → s.monitor.queue.shutdown = true) :
    Invariant { s with monitor := m, workers := s.workers.set i after } n := by
  constructor
  · exact hlength.trans h.waiters
  · exact hawake
  · intro hx
    apply hshutdown.trans
    cases List.mem_or_eq_of_mem_set hx with
    | inl hx => exact h.exits hx
    | inr hx => exact hends hx.symm
  · apply h.phase.advance List.length_set
    · exact fun k hk => getElem?_set_stays hw hne hk after
    · exact fun hs => hshutdown.trans hs

theorem Invariant.step (h : s.Invariant n) (hstep : Step s a t) : ∃ n, t.Invariant n := by
  cases hstep.acts with
  | allocated i hm hi =>
    obtain ⟨rfl, hb⟩ : s.Phase n (.starting i) := h.place hm
    exact ⟨i, h.caller rfl rfl ⟨rfl, hi, hb.workers, hb.pool, hb.result, hb.stops, hb.joined⟩⟩
  | notAllocated i hm hi =>
    obtain ⟨rfl, hb⟩ : s.Phase n (.starting i) := h.place hm
    obtain ⟨hmonitor, hworkers, hphase⟩ := hb.abandon hi
    exact ⟨i, h.caller hmonitor hworkers hphase⟩
  | started i allocated hm hi =>
    obtain ⟨rfl, hb⟩ : s.Phase n (.starting i) := h.place hm
    obtain ⟨rest, hpool, hlength⟩ := hb.pool
    have hn : i = s.threadCount := by omega
    have hrest : rest = [] := List.length_eq_zero_iff.1 (by omega)
    rw [hrest, List.append_nil, ← hn] at hpool
    exact ⟨i, h.caller rfl rfl (.serving ⟨hb.workers, hpool, hb.stops, hb.joined⟩ rfl hn)⟩
  | created i left hm =>
    obtain ⟨rfl, hi, hb⟩ : s.Phase n (.creating i) := h.place hm
    have hs := hb.spawn hi
    refine ⟨i + 1, ?_, h.awake.addThread, ?_,
      rfl, hs.workers, hs.pool, hs.result, hs.stops, hs.joined⟩
    · exact (List.length_append).trans (congrArg (· + 1) h.waiters)
    · intro hx
      cases List.mem_append.1 hx with
      | inl hx => exact h.exits hx
      | inr hx => cases List.mem_singleton.1 hx
  | notCreated i left hm =>
    obtain ⟨rfl, hi, hb⟩ : s.Phase n (.creating i) := h.place hm
    obtain ⟨hmonitor, hworkers, hphase⟩ := (hb.notCreated hi left).abandon hi
    exact ⟨i, h.caller hmonitor hworkers hphase⟩
  | stopCalled hm =>
    have hr : s.Resting n := h.place hm
    obtain ⟨hmonitor, hworkers, hphase⟩ := hr.stop
    exact ⟨n, h.caller hmonitor hworkers hphase⟩
  | poolShutdown hm =>
    obtain ⟨hs, hj⟩ : s.Phase n .stopping := h.place hm
    refine ⟨n, (broadcast_length _).trans h.waiters, .shutdown s.monitor, fun _ => rfl, ?_⟩
    exact ⟨⟨hs.workers, hs.pool, hs.stops, hs.caller⟩, Nat.zero_le n, rfl,
      fun k hk => absurd hk (Nat.not_lt_zero k), hj⟩
  | joined i threads handle u hm hi hthreads hhandle hjoin =>
    have hj : s.Joining n i := h.place hm
    rw [hj.count] at hi
    obtain ⟨hexited, rfl⟩ := hj.join hi hthreads hhandle hjoin
    refine ⟨n, h.caller rfl rfl ⟨?_, hi, hj.shutdown, ?_, rfl⟩⟩
    · exact ⟨hj.stopping.workers, hj.stopping.pool, hj.stopping.stops, hj.stopping.caller⟩
    · intro k hk
      cases Nat.lt_succ_iff_lt_or_eq.1 hk with
      | inl hlt => exact hj.exited k hlt
      | inr he => exact he ▸ hexited
  | joinedAll i hm hi =>
    have hj : s.Joining n i := h.place hm
    obtain ⟨hmonitor, hworkers, hmain, _, hr⟩ := hj.finish hi
    exact ⟨n, h.caller hmonitor hworkers (hmain ▸ hr)⟩
  | dequeued i result monitor hw hd =>
    obtain ⟨hlength, hshutdown, hresult⟩ := QueueMonitor.dequeue_outcome hd
    refine ⟨n, h.worker hw nofun hlength (h.awake.dequeue hd) hshutdown ?_⟩
    intro hx
    obtain ⟨rfl, _⟩ | ⟨_, hs, _⟩ | ⟨fd, q, rfl, _⟩ := hresult
    · cases hx
    · exact hs
    · cases hx
  | handled i clientFd hw => exact ⟨n, h.worker hw nofun rfl h.awake rfl nofun⟩
  | enqueued clientFd mask result monitor he =>
    obtain ⟨hlength, hshutdown, _⟩ := QueueMonitor.enqueue_outcome he
    exact ⟨n, h.environment hlength (h.awake.enqueue he) fun hs => hshutdown.trans hs⟩
  | queueShutdown =>
    exact ⟨n, h.environment (broadcast_length _) (.shutdown s.monitor) fun _ => rfl⟩
  | wokeUp i monitor hm =>
    have hqueue := QueueMonitor.wakeUp_queue hm
    exact ⟨n, h.environment (QueueMonitor.wakeUp_waiters hm) (h.awake.wakeUp hm)
      fun hs => hqueue ▸ hs⟩

theorem initial_invariant (pool : ThreadPool) (queue : SocketQueue) {threadCount : Int}
    (hpos : 0 < threadCount) :
    (initial pool queue threadCount true).Invariant 0 := by
  have hr : ¬(threadCount ≤ 0 ∨ (!true) = true) := by
    intro hr
    cases hr with
    | inl hle => exact absurd hpos (Int.not_lt.2 hle)
    | inr hf => cases hf
  simp only [initial, if_neg hr]
  refine ⟨rfl, ⟨nofun, nofun⟩, nofun, rfl, rfl, ⟨_, rfl, ?_⟩, rfl, rfl, rfl⟩
  rw [Nat.zero_add]
  exact List.length_replicate

theorem leaveStop_main (s : PoolState) : s.leaveStop.main = .idle := by
  unfold leaveStop
  split <;> rfl

theorem leaveStop_pool (s : PoolState) : s.leaveStop.pool = s.pool := by
  unfold leaveStop
  split <;> rfl

theorem leaveStop_threadCount (s : PoolState) : s.leaveStop.threadCount = s.threadCount := by
  unfold leaveStop
  split <;> rfl

theorem leaveStop_result (s : PoolState) : s.leaveStop.result = some (s.result.getD (-1)) := by
  unfold leaveStop
  cases s.result with
  | none => rfl
  | some code => rfl

theorem enterStop_threadCount (s : PoolState) : s.enterStop.threadCount = s.threadCount := by
  unfold enterStop
  split
  · exact s.leaveStop_threadCount
  · rfl

theorem pthreadJoin_threadCount (h : s.pthreadJoin handle = some t) :
    t.threadCount = s.threadCount := by
  cases handle with
  | none =>
    cases h
    rfl
  | some k =>
    simp only [pthreadJoin] at h
    split at h
    · cases h
      rfl
    · cases h

theorem Step.threadCount (h : Step s a t) : t.threadCount = s.threadCount := by
  cases h.acts with
  | notAllocated => exact enterStop_threadCount _
  | notCreated => exact enterStop_threadCount _
  | stopCalled => exact enterStop_threadCount _
  | joinedAll => exact leaveStop_threadCount _
  | joined i threads handle u hm hi hthreads hhandle hjoin =>
    exact (pthreadJoin_threadCount hjoin : u.threadCount = s.threadCount)
  | allocated | started | created | poolShutdown | dequeued | handled | enqueued | queueShutdown
  | wokeUp => rfl

/-- What keeps the workers from their end: the queued connections and those being handled. -/
def load (s : PoolState) : Nat :=
  2 * s.monitor.queue.count + (s.workers.map PoolWorker.weight).sum

/-- A bound on the steps until the call in progress returns. -/
def remaining (s : PoolState) : Nat :=
  match s.main with
  | .starting i => 2 * (s.threadCount - i) + 1
  | .creating i => 2 * (s.threadCount - i)
  | .stopping => s.load + s.pool.threadCount + 2
  | .joining i => s.load + (s.pool.threadCount - i) + 1
  | .idle => 0

theorem remaining_idle (hm : s.main = .idle) : s.remaining = 0 := by
  rw [remaining, hm]

/-- The joins have begun, or they are over and the pool is gone. -/
def Draining (s : PoolState) : Prop :=
  (∃ i, s.main = .joining i) ∨ s.main = .idle ∧ s.pool.threads = none

theorem Resting.cleared (h : s.Resting n) (hnone : s.pool.threads = none) : s.Cleared n := by
  cases h with
  | serving h => cases (congrArg ThreadPool.threads h.pool).symm.trans hnone
  | failed h => exact h
  | stopped h => exact h

theorem Invariant.draining {worker : PoolWorker} {k : Nat} (h : s.Invariant n) (hd : s.Draining)
    (hw : s.workers[k]? = some worker) (hne : worker ≠ .exited) :
    ∃ i, s.main = .joining i ∧ s.monitor.queue.shutdown = true := by
  obtain ⟨i, hm⟩ | ⟨hm, hnone⟩ := hd
  · have hj : s.Joining n i := h.place hm
    exact ⟨i, hm, hj.shutdown⟩
  · have hr : s.Resting n := h.place hm
    have hc := hr.cleared hnone
    obtain ⟨hk, _⟩ := List.getElem?_eq_some_iff.1 hw
    rw [hc.exited k (hc.workers ▸ hk)] at hw
    cases hw
    exact absurd rfl hne

theorem Draining.shutdown (h : s.Invariant n) (hd : s.Draining) :
    s.monitor.queue.shutdown = true := by
  obtain ⟨i, hm⟩ | ⟨hm, hnone⟩ := hd
  · have hj : s.Joining n i := h.place hm
    exact hj.shutdown
  · have hr : s.Resting n := h.place hm
    exact (hr.cleared hnone).shutdown

theorem remaining_environment (h : m.queue.count = s.monitor.queue.count) :
    remaining { s with monitor := m } = s.remaining := by
  unfold remaining load
  rw [h]

theorem remaining_worker {before after : PoolWorker} (hm : s.main = .joining i)
    (hw : s.workers[k]? = some before)
    (hlt : 2 * m.queue.count + after.weight < 2 * s.monitor.queue.count + before.weight) :
    remaining { s with monitor := m, workers := s.workers.set k after } + 1 ≤ s.remaining := by
  have hsum := sum_map_set hw PoolWorker.weight after
  simp only [remaining, hm, load]
  omega

/-- Once the joins have begun nobody can add work, and every step of the pool's own threads brings
the return nearer. -/
theorem Draining.step (hi : s.Invariant n) (h : s.Draining) (hstep : Step s a t) :
    t.Draining ∧ t.remaining + (if a.own then 1 else 0) ≤ s.remaining := by
  have elsewhere : ∀ pc, s.main = pc → pc ≠ .idle → (∀ i, pc ≠ .joining i) → False := by
    intro pc hm hidle hjoining
    obtain ⟨i, hm'⟩ | ⟨hm', _⟩ := h
    · exact hjoining i (hm.symm.trans hm')
    · exact hidle (hm.symm.trans hm')
  cases hstep.acts with
  | allocated i hm | notAllocated i hm | started i allocated hm | created i left hm
  | notCreated i left hm | poolShutdown hm => exact (elsewhere _ hm nofun nofun).elim
  | stopCalled hm =>
    obtain ⟨i, hm'⟩ | ⟨_, hnone⟩ := h
    · cases hm.symm.trans hm'
    · rw [enterStop_none hnone, remaining_idle s.leaveStop_main]
      exact ⟨.inr ⟨s.leaveStop_main, s.leaveStop_pool ▸ hnone⟩, Nat.zero_le _⟩
  | joined i threads handle u hm hlt hthreads hhandle hjoin =>
    have hj : s.Joining n i := hi.place hm
    obtain ⟨_, rfl⟩ := hj.join (hj.count ▸ hlt) hthreads hhandle hjoin
    refine ⟨.inl ⟨i + 1, rfl⟩, ?_⟩
    simp only [remaining, toMain, hm, load, PoolAction.own, if_true]
    omega
  | joinedAll i hm hlt =>
    have hj : s.Joining n i := hi.place hm
    obtain ⟨_, _, hmain, hc, _⟩ := hj.finish hlt
    refine ⟨.inr ⟨hmain, congrArg ThreadPool.threads hc.pool⟩, ?_⟩
    rw [remaining_idle hmain]
    simp only [remaining, hm, PoolAction.own, if_true]
    omega
  | dequeued k result monitor hw hd =>
    obtain ⟨i, hm, hs⟩ := hi.draining h hw nofun
    refine ⟨.inl ⟨i, hm⟩, remaining_worker hm hw ?_⟩
    obtain ⟨_, _, ⟨_, hopen⟩ | ⟨rfl, _, hc⟩ | ⟨fd, q, rfl, hc⟩⟩ := QueueMonitor.dequeue_outcome hd
    · rw [hs] at hopen
      cases hopen
    · rw [hc]
      exact Nat.lt_succ_self _
    · rw [hc]
      simp only [PoolWorker.afterDequeue, PoolWorker.weight]
      omega
  | handled k clientFd hw =>
    obtain ⟨i, hm, _⟩ := hi.draining h hw nofun
    exact ⟨.inl ⟨i, hm⟩, remaining_worker hm hw (Nat.lt_succ_self _)⟩
  | enqueued clientFd mask result monitor he =>
    obtain ⟨_, _, hcount⟩ := QueueMonitor.enqueue_outcome he
    exact ⟨h, Nat.le_of_eq (remaining_environment (hcount (h.shutdown hi)))⟩
  | queueShutdown => exact ⟨h, Nat.le_of_eq (remaining_environment rfl)⟩
  | wokeUp i monitor hm =>
    have hcount := congrArg SocketQueue.count (QueueMonitor.wakeUp_queue hm)
    exact ⟨h, Nat.le_of_eq (remaining_environment hcount)⟩

theorem Joining.enabled (h : s.Joining n i) (hi : s.Invariant n) (hm : s.main = .joining i) :
    ∃ a t, a.own = true ∧ Step s a t := by
  obtain ⟨rest, hpool⟩ := h.stopping.pool
  by_cases hlt : i < n
  · have hworker : i < s.workers.length := h.stopping.workers ▸ hlt
    have hget := List.getElem?_eq_getElem hworker
    cases hw : s.workers[i] with
    | dequeuing =>
      rw [hw] at hget
      have hb : s.monitor.waiters[i]? ≠ some .blocked := fun hb =>
        hi.awake.closed h.shutdown (mem_of_getElem? hb)
      obtain ⟨result, m, hd⟩ := QueueMonitor.dequeue_enabled (hi.waiters ▸ hlt) hb
      exact ⟨.dequeue i, _, rfl, (if_pos hget).trans (congrArg (Option.map _) hd)⟩
    | handling clientFd =>
      rw [hw] at hget
      refine ⟨.handled i, { s with workers := s.workers.set i .dequeuing }, rfl, ?_⟩
      simp only [Step, next, hget]
    | exited =>
      rw [hw] at hget
      refine ⟨.join, toMain { s with joined := s.joined ++ [some i] } (.joining (i + 1)), rfl, ?_⟩
      simp only [Step, next, hm, hpool, if_pos hlt, Option.bind_some, handles_getElem? hlt,
        pthreadJoin, hget, if_true, Option.map_some]
  · refine ⟨.join, leaveStop { s with pool := ⟨none, 0⟩ }, rfl, ?_⟩
    simp only [Step, next, hm, hpool, if_neg hlt]

/-- While a call is in progress some step of the pool's own threads brings its return nearer. -/
theorem Invariant.progress (h : s.Invariant n) (hmain : s.main ≠ .idle) :
    ∃ a t, a.own = true ∧ Step s a t ∧ t.remaining < s.remaining := by
  cases hm : s.main with
  | starting i =>
    by_cases hi : i < s.threadCount
    · refine ⟨.iterate true, s.toMain (.creating i), rfl, ?_, ?_⟩
      · simp only [Step, next, hm, if_pos hi, if_true]
      · simp only [remaining, toMain, hm]
        omega
    · refine ⟨.iterate true, { s with main := .idle, result := some 0 }, rfl, ?_, ?_⟩
      · simp only [Step, next, hm, if_neg hi]
      · simp only [remaining, hm]
        omega
  | creating i =>
    obtain ⟨rfl, hi, _⟩ : s.Phase n (.creating i) := h.place hm
    refine ⟨.create true none, (s.spawn i).toMain (.starting (i + 1)), rfl, ?_, ?_⟩
    · simp only [Step, next, hm, if_true]
    · simp only [remaining, toMain, spawn, setThread, hm]
      omega
  | stopping =>
    refine ⟨.shutdownPool, { s with monitor := s.monitor.shutdown, main := .joining 0 }, rfl,
      if_pos hm, ?_⟩
    simp only [remaining, hm, load, QueueMonitor.shutdown, socketQueueShutdown]
    omega
  | joining i =>
    have hj : s.Joining n i := h.place hm
    obtain ⟨a, t, ha, hstep⟩ := hj.enabled h hm
    obtain ⟨_, hle⟩ := Draining.step h (.inl ⟨i, hm⟩) hstep
    rw [ha, if_pos rfl] at hle
    exact ⟨a, t, ha, hstep, hle⟩
  | idle => exact absurd hm hmain

theorem Phase.joined (h : s.Phase n pc) :
    ∃ i, s.joined = handles i ∧ ∀ k < i, s.workers[k]? = some .exited := by
  have unjoined : s.joined = [] → ∃ i, s.joined = handles i ∧
      ∀ k < i, s.workers[k]? = some .exited := fun hj =>
    ⟨0, hj, fun k hk => absurd hk (Nat.not_lt_zero k)⟩
  cases pc with
  | starting i => exact unjoined h.2.joined
  | creating i => exact unjoined h.2.2.joined
  | stopping => exact unjoined h.2
  | joining i =>
    have hj : s.Joining n i := h
    exact ⟨i, hj.joined, hj.exited⟩
  | idle =>
    cases h with
    | serving h => exact unjoined h.joined
    | failed h => exact ⟨n, h.joined, h.exited⟩
    | stopped h => exact ⟨n, h.joined, h.exited⟩

inductive Outcome (s : PoolState) (n : Nat) : Prop where
  | pending (hr : s.result = none) (hstops : s.stops = 0) (hm : s.main ≠ .idle)
  | serving (hr : s.result = some 0) (hn : n = s.threadCount) (hstops : s.stops = 0)
      (h : s.main = .idle → s.Serving n)
  | gone (code : Int) (hr : s.result = some code)
      (hn : code = -1 ∧ n < s.threadCount ∨ code = 0 ∧ n = s.threadCount ∧ 0 < s.stops)
      (hm : s.main = .idle) (h : s.Cleared n)

theorem Stopping.outcome (h : s.Stopping n) (hm : s.main ≠ .idle) : s.Outcome n := by
  obtain ⟨hr, _⟩ | ⟨hr, hn⟩ := h.caller
  · exact .pending hr h.stops hm
  · exact .serving hr hn h.stops fun hidle => absurd hidle hm

theorem Invariant.outcome (h : s.Invariant n) : s.workers.length = n ∧ s.Outcome n := by
  have hphase := h.phase
  cases hm : s.main with
  | starting i =>
    rw [hm] at hphase
    obtain ⟨_, hb⟩ := hphase
    exact ⟨hb.workers, .pending hb.result hb.stops (hm ▸ nofun)⟩
  | creating i =>
    rw [hm] at hphase
    obtain ⟨_, _, hb⟩ := hphase
    exact ⟨hb.workers, .pending hb.result hb.stops (hm ▸ nofun)⟩
  | stopping =>
    rw [hm] at hphase
    obtain ⟨hs, _⟩ := hphase
    exact ⟨hs.workers, hs.outcome (hm ▸ nofun)⟩
  | joining i =>
    rw [hm] at hphase
    have hj : s.Joining n i := hphase
    exact ⟨hj.stopping.workers, hj.stopping.outcome (hm ▸ nofun)⟩
  | idle =>
    rw [hm] at hphase
    cases hphase with
    | serving h hr hn => exact ⟨h.workers, .serving hr hn h.stops fun _ => h⟩
    | failed h hr hn => exact ⟨h.workers, .gone (-1) hr (.inl ⟨rfl, hn⟩) hm h⟩
    | stopped h hr hn hs => exact ⟨h.workers, .gone 0 hr (.inr ⟨rfl, hn, hs⟩) hm h⟩

theorem Outcome.returned (h : s.Outcome n) (hm : s.main = .idle) :
    s.result = some 0 ∨ s.result = some (-1) := by
  cases h with
  | pending _ _ hne => exact absurd hm hne
  | serving hr => exact .inl hr
  | gone code hr hc =>
    obtain ⟨rfl, _⟩ | ⟨rfl, _⟩ := hc
    · exact .inr hr
    · exact .inl hr

theorem Outcome.failed (h : s.Outcome n) (hr : s.result = some (-1)) : n < s.threadCount := by
  cases h with
  | pending hr' => cases hr'.symm.trans hr
  | serving hr' => cases hr'.symm.trans hr
  | gone code hr' hc =>
    cases hr'.symm.trans hr
    obtain ⟨_, hlt⟩ | ⟨hc, _⟩ := hc
    · exact hlt
    · cases hc

theorem Outcome.succeeded (h : s.Outcome n) (hr : s.result = some 0) :
    n = s.threadCount ∧ (s.main = .idle → s.stops = 0 → s.Serving n) := by
  cases h with
  | pending hr' => cases hr'.symm.trans hr
  | serving _ hn _ h => exact ⟨hn, fun hm _ => h hm⟩
  | gone code hr' hc =>
    cases hr'.symm.trans hr
    obtain ⟨hc, _⟩ | ⟨_, hn, hpos⟩ := hc
    · cases hc
    · exact ⟨hn, fun _ hstops => absurd hstops (Nat.ne_of_gt hpos)⟩

theorem Outcome.over (h : s.Outcome n) (hover : s.result = some (-1) ∨ 0 < s.stops) :
    s.Cleared n ∧ s.next .stop = some { s with stops := s.stops + 1 } := by
  have unstopped : s.stops = 0 → s.result ≠ some (-1) → False := fun hstops hr =>
    hover.elim hr fun hpos => absurd hstops (Nat.ne_of_gt hpos)
  cases h with
  | pending hr hstops => exact (unstopped hstops (hr ▸ nofun)).elim
  | serving hr _ hstops => exact (unstopped hstops (hr ▸ nofun)).elim
  | gone code hr _ hm h =>
    refine ⟨h, (if_pos hm).trans (congrArg some ?_)⟩
    rw [h.stop hr, ← hm]

theorem reachable_invariant {pool : ThreadPool} {queue : SocketQueue} {threadCount : Int}
    (hpos : 0 < threadCount)
    (hs : Reachable (· = initial pool queue threadCount true) Step s) :
    (∃ n, s.Invariant n) ∧ (s.threadCount : Int) = threadCount := by
  apply hs.invariant
  · rintro _ rfl
    exact ⟨⟨0, initial_invariant pool queue hpos⟩, Int.toNat_of_nonneg (Int.le_of_lt hpos)⟩
  · rintro s a t ⟨⟨n, hi⟩, hcount⟩ hstep
    exact ⟨hi.step hstep, hstep.threadCount ▸ hcount⟩

end PoolState

open PoolState

/-- `thread_pool_start` is all or nothing, whichever round fails and however far the workers have
come: in every state some run reaches, if it has returned -1 then fewer workers than asked for were
created and each was told to stop, has ended and was joined once; if it has returned 0 then all of
them were created, the pool keeps their handles, and none ends while the queue is open. One stop
that has returned leaves what a failed start leaves, and any stop after it changes nothing. Only
workers that were created are joined, once each, and no call of either function gets stuck. -/
theorem threadPoolStart_all_or_nothing (pool : ThreadPool) (queue : SocketQueue)
    (threadCount : Int) (hpos : 0 < threadCount) (s : PoolState)
    (hs : Reachable (· = .initial pool queue threadCount true) Step s) :
    (s.main = .idle → s.result = some 0 ∨ s.result = some (-1)) ∧
      (s.result = some (-1) → s.workers.length < threadCount) ∧
      (s.result = some 0 → s.workers.length = threadCount ∧
        (s.monitor.queue.shutdown = false → .exited ∉ s.workers)) ∧
      (s.result = some 0 → s.main = .idle → s.stops = 0 → s.Serving s.workers.length) ∧
      (s.result = some (-1) ∨ 0 < s.stops → s.Cleared s.workers.length ∧
        s.next .stop = some { s with stops := s.stops + 1 }) ∧
      (s.joined.Nodup ∧
        ∀ handle ∈ s.joined, ∃ k, handle = some k ∧ s.workers[k]? = some .exited) ∧
      ∃ as t, (∀ a ∈ as, a.own = true) ∧ Run Step s as t ∧ t.main = .idle := by
  obtain ⟨⟨n, hi⟩, hcount⟩ := reachable_invariant hpos hs
  obtain ⟨hn, ho⟩ := hi.outcome
  rw [hn, ← hcount]
  refine ⟨ho.returned, ?_, ?_, ?_, ho.over, ?_, ?_⟩
  · exact fun hr => Int.ofNat_lt.2 (ho.failed hr)
  · intro hr
    refine ⟨congrArg Nat.cast (ho.succeeded hr).1, fun hopen hx => ?_⟩
    rw [hi.exits hx] at hopen
    cases hopen
  · exact fun hr => (ho.succeeded hr).2
  · obtain ⟨i, hj, hx⟩ := hi.phase.joined
    rw [hj]
    refine ⟨handles_nodup i, fun handle hmem => ?_⟩
    obtain ⟨k, hk, rfl⟩ := List.mem_map.1 hmem
    exact ⟨k, rfl, hx k (List.mem_range.1 hk)⟩
  · have hprogress : ∀ s : PoolState, (∃ n, s.Invariant n) → ¬s.main = .idle →
        ∃ a t, a.own = true ∧ Step s a t ∧ (∃ n, t.Invariant n) ∧ t.remaining < s.remaining := by
      intro s ⟨n, hi⟩ hm
      obtain ⟨a, t, ha, hstep, hlt⟩ := hi.progress hm
      exact ⟨a, t, ha, hstep, hi.step hstep, hlt⟩
    obtain ⟨as, t, hown, _, hrun, _, hidle⟩ := Run.to_final remaining hprogress ⟨n, hi⟩
    exact ⟨as, t, hown, hrun, hidle⟩

theorem threadPoolStart_all_or_nothing_second :
    PoolState.Cleared ⟨.idle, ⟨none, 0⟩, [.exited], ⟨⟨[0, 0], 2, 0, 0, 0, true⟩, [.running]⟩, 2,
      some (-1), 0, [some 0]⟩ 1 :=
  ((threadPoolStart_all_or_nothing ⟨none, 0⟩ ⟨[0, 0], 2, 0, 0, 0, false⟩ 2 (by decide)
    ⟨.idle, ⟨none, 0⟩, [.exited], ⟨⟨[0, 0], 2, 0, 0, 0, true⟩, [.running]⟩, 2, some (-1), 0,
      [some 0]⟩
    ⟨_, [.iterate true, .create true none, .dequeue 0, .iterate false, .shutdownPool, .dequeue 0,
      .join, .join], rfl, run_of_follow rfl⟩).2.2.2.2.1 (.inl rfl)).1

/-- However the threads are scheduled, the pool's own threads take a bounded number of steps once
the joins have begun, whatever other threads do meanwhile. -/
theorem threadPoolStop_bounded (pool : ThreadPool) (queue : SocketQueue) (threadCount : Int)
    (hpos : 0 < threadCount) (s t : PoolState) (i : Nat) (as : List PoolAction)
    (hs : Reachable (· = .initial pool queue threadCount true) Step s) (hm : s.main = .joining i)
    (hrun : Run Step s as t) : as.countP PoolAction.own ≤ s.remaining := by
  obtain ⟨hi, _⟩ := reachable_invariant hpos hs
  have hstep : ∀ (s : PoolState) (a : PoolAction) (t : PoolState),
      (∃ n, s.Invariant n) ∧ s.Draining → Step s a t →
        ((∃ n, t.Invariant n) ∧ t.Draining) ∧
          t.remaining + (if a.own then 1 else 0) ≤ s.remaining := by
    intro s a t ⟨⟨n, hi⟩, hd⟩ hstep
    obtain ⟨ht, hle⟩ := hd.step hi hstep
    exact ⟨⟨hi.step hstep, ht⟩, hle⟩
  have hle := hrun.count_le remaining hstep ⟨hi, .inl ⟨i, hm⟩⟩
  omega

end Httpd
