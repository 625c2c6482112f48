import Httpd.Ownership

namespace Httpd
open ConditionVariable ListUpdate Transition
set_option autoImplicit true

def Started (count : Nat) (workers : List WorkerPc) : Prop :=
  ∀ j < count, ∃ w, workers[j]? = some w ∧ w ≠ .unstarted

def MainPc.Place (threadCount : Nat) (workers : List WorkerPc) : MainPc → Prop
  | .starting i => i ≤ threadCount ∧ Started i workers
  | .joining i _ => i ≤ threadCount ∧ Started threadCount workers
  | .returned _ => True
  | _ => Started threadCount workers

theorem Started.set {workers : List WorkerPc} (h : Started count workers) (hn : new ≠ .unstarted)
    (i : Nat) : Started count (workers.set i new) := by
  intro j hj
  obtain ⟨w, hw, hne⟩ := h j hj
  by_cases he : i = j
  · subst he
    exact ⟨new, List.getElem?_set_self (List.getElem?_eq_some_iff.1 hw).1, hn⟩
  · exact ⟨w, (List.getElem?_set_ne he).trans hw, hne⟩

theorem MainPc.Place.set {main : MainPc} (h : main.Place threadCount workers)
    (hn : new ≠ .unstarted) (i : Nat) : main.Place threadCount (workers.set i new) := by
  cases main with
  | starting k => exact ⟨h.1, h.2.set hn i⟩
  | joining k code => exact ⟨h.1, h.2.set hn i⟩
  | returned code => trivial
  | _ => exact Started.set h hn i

namespace ServerState

/-- What every step keeps of the threads and of those that sleep. -/
structure Attended (n : Nat) (s : ServerState) : Prop where
  waiters : s.monitor.waiters.length = n
  wakeups : s.monitor.NoLostWakeup
  place : s.main.Place s.threadCount s.workers

variable {s t : ServerState}

theorem Attended.toMain {main : MainPc} (h : s.Attended n)
    (hp : main.Place s.threadCount s.workers) : (s.toMain main).Attended n :=
  ⟨h.waiters, h.wakeups, hp⟩

theorem Attended.shutdown (h : s.Attended n) :
    Attended n { s with monitor := s.monitor.shutdown } :=
  ⟨(broadcast_length s.monitor.waiters).trans h.waiters, .shutdown s.monitor, h.place⟩

theorem Attended.perform (h : s.Attended n) (hp : s.perform clientFd event = some t) :
    t.Attended n := by
  obtain ⟨_, rfl⟩ | ⟨_, alive, rfl⟩ := perform_cases hp
  · exact ⟨h.waiters, h.wakeups, h.place⟩
  · exact ⟨h.waiters, h.wakeups, h.place⟩

theorem Attended.step (h : s.Attended n) (hs : Step s a t) : t.Attended n := by
  have hplace := h.place
  cases hs.acts with
  | started created hm =>
    rw [hm] at hplace
    exact h.toMain hplace.2
  | spawned i hm hi hw =>
    rw [hm] at hplace
    have hnew : WorkerPc.dequeuing ≠ .unstarted := nofun
    have hset : Started i (s.workers.set i .dequeuing) := hplace.2.set hnew i
    refine ⟨h.waiters, h.wakeups, Nat.lt_of_le_of_ne hplace.1 hi, fun j hj => ?_⟩
    change ∃ w, (s.workers.set i .dequeuing)[j]? = some w ∧ w ≠ .unstarted
    obtain hj | rfl := Nat.lt_succ_iff_lt_or_eq.1 hj
    · exact hset j hj
    · exact ⟨_, List.getElem?_set_self (List.getElem?_eq_some_iff.1 hw).1, nofun⟩
  | spawnFailed i hm hi =>
    rw [hm] at hplace
    exact ⟨h.waiters, h.wakeups, hplace.2⟩
  | tested hm =>
    rw [hm] at hplace
    cases s.shouldStop with
    | true => exact h.toMain hplace
    | false => exact h.toMain hplace
  | accepted clientFd hm hf =>
    rw [hm] at hplace
    exact ⟨h.waiters, h.wakeups, hplace⟩
  | acceptInterrupted hm =>
    rw [hm] at hplace
    exact h.toMain hplace
  | acceptFailed hm =>
    rw [hm] at hplace
    cases s.shouldStop with
    | true => exact h.toMain hplace
    | false => exact h.toMain hplace
  | enqueued clientFd mask outcomes result monitor hm he =>
    rw [hm] at hplace
    obtain ⟨hl, _⟩ := QueueMonitor.enqueue_outcome he
    refine ⟨hl.trans h.waiters, h.wakeups.enqueue he, ?_⟩
    cases result <;> exact hplace
  | mainPerformed clientFd event rest u hm hp =>
    have hu : u.Attended n := h.perform hp
    have hstarted := hu.place
    rw [(perform_leaves hp).1, hm] at hstarted
    cases rest <;> exact hu.toMain hstarted
  | poolShutdown code hm =>
    rw [hm] at hplace
    exact ⟨h.shutdown.waiters, h.shutdown.wakeups, Nat.zero_le _, hplace⟩
  | joinedAll code hm => exact h.toMain trivial
  | joined i code hm hi hw =>
    rw [hm] at hplace
    exact h.toMain ⟨Nat.lt_of_le_of_ne hplace.1 hi, hplace.2⟩
  | stopRequested => exact ⟨h.waiters, h.wakeups, h.place⟩
  | queueShutdown hs => exact h.shutdown
  | dequeued i conn result monitor hw hd =>
    obtain ⟨hl, _⟩ := QueueMonitor.dequeue_outcome hd
    refine ⟨hl.trans h.waiters, h.wakeups.dequeue hd, h.place.set ?_ i⟩
    cases result <;> exact nofun
  | wokeUp i monitor hm =>
    exact ⟨(QueueMonitor.wakeUp_waiters hm).trans h.waiters, h.wakeups.wakeUp hm, h.place⟩
  | workerPerformed i clientFd event rest u hw hp =>
    have hu : u.Attended n := h.perform hp
    refine ⟨hu.waiters, hu.wakeups, hu.place.set ?_ i⟩
    cases rest <;> exact nofun
  | disconnected clientFd hf => exact ⟨h.waiters, h.wakeups, h.place⟩

theorem initial_attended (queue : SocketQueue) (n : Nat) (allocated : Bool) :
    (initial queue n allocated).Attended n := by
  constructor
  · exact List.length_replicate
  · exact QueueMonitor.initial_noLostWakeup queue n
  · simp only [initial]
    split
    · trivial
    · refine ⟨Nat.zero_le n, fun j hj => ?_⟩
      cases hj

end ServerState

/-- The steps of the server's own threads, but for those on the socket of a client that a worker
serves. -/
def Action.own : Action → Bool
  | .workerIo _ | .requestStop | .shutdownQueue | .disconnect _ => false
  | _ => true

def Action.accepts : Action → Bool
  | .accept (.accepted _) => true
  | _ => false

/-- A bound on the steps `server_run` takes to its return once the server is stopped. -/
def MainPc.left (threadCount : Nat) : MainPc → Nat
  | .starting i => (threadCount - i) + threadCount + 4
  | .accepting => threadCount + 6
  | .enqueuing _ => threadCount + 5
  | .refusing _ rest => threadCount + 3 + rest.length
  | .testing => threadCount + 3
  | .stopping _ => threadCount + 2
  | .joining i _ => threadCount - i + 1
  | .returned _ => 0

def WorkerPc.weight : WorkerPc → Nat
  | .exited => 0
  | _ => 1

namespace ServerState

def load (s : ServerState) : Nat :=
  s.monitor.queue.count + (s.workers.map WorkerPc.weight).sum

def remaining (s : ServerState) : Nat := s.main.left s.threadCount + s.load

structure Stopped (s : ServerState) : Prop where
  shouldStop : s.shouldStop = true
  shutdown : s.monitor.queue.shutdown = true

variable {s t : ServerState}

theorem load_setWorker (new : WorkerPc) (hw : s.workers[i]? = some old) :
    (s.setWorker i new).load + old.weight = s.load + new.weight := by
  have hsum := sum_map_set hw WorkerPc.weight new
  change s.monitor.queue.count + ((s.workers.set i new).map WorkerPc.weight).sum + _ =
    s.monitor.queue.count + (s.workers.map WorkerPc.weight).sum + _
  omega

theorem Stopped.step (h : s.Stopped) (hs : Step s a t) : t.Stopped := by
  cases hs.acts with
  | enqueued clientFd mask outcomes result monitor hm he =>
    exact ⟨h.shouldStop, (QueueMonitor.enqueue_outcome he).2.1.trans h.shutdown⟩
  | mainPerformed clientFd event rest u hm hp =>
    obtain ⟨_, _, hmonitor, _, hstop, _⟩ := perform_leaves hp
    refine ⟨hstop.trans h.shouldStop, ?_⟩
    change u.monitor.queue.shutdown = true
    rw [hmonitor]
    exact h.shutdown
  | dequeued i conn result monitor hw hd =>
    exact ⟨h.shouldStop, (QueueMonitor.dequeue_outcome hd).2.1.trans h.shutdown⟩
  | wokeUp i monitor hm =>
    exact ⟨h.shouldStop, (congrArg _ (QueueMonitor.wakeUp_queue hm)).trans h.shutdown⟩
  | workerPerformed i clientFd event rest u hw hp =>
    obtain ⟨_, _, hmonitor, _, hstop, _⟩ := perform_leaves hp
    refine ⟨hstop.trans h.shouldStop, ?_⟩
    change u.monitor.queue.shutdown = true
    rw [hmonitor]
    exact h.shutdown
  | stopRequested => exact ⟨rfl, h.shutdown⟩
  | poolShutdown code hm => exact ⟨h.shouldStop, rfl⟩
  | queueShutdown hs => exact ⟨h.shouldStop, rfl⟩
  | _ => exact ⟨h.shouldStop, h.shutdown⟩

theorem remaining_toMain {pc main : MainPc} (hm : s.main = pc)
    (hlt : main.left s.threadCount < pc.left s.threadCount) :
    (s.toMain main).remaining + 1 ≤ s.remaining := by
  rw [ServerState.remaining, ServerState.remaining, hm]
  change main.left s.threadCount + s.load + 1 ≤ _
  omega

theorem load_perform (h : s.perform clientFd event = some t) : t.load = s.load := by
  obtain ⟨_, hworkers, hmonitor, _⟩ := perform_leaves h
  rw [load, load, hworkers, hmonitor]

theorem remaining_spawned (hi : i < s.threadCount) (hm : s.main = .starting i)
    (hw : s.workers[i]? = some .unstarted) :
    ((s.setWorker i .dequeuing).toMain (.starting (i + 1))).remaining + 1 ≤ s.remaining := by
  have hload := load_setWorker .dequeuing hw
  change (s.threadCount - (i + 1)) + s.threadCount + 4 + (s.setWorker i .dequeuing).load + 1 ≤ _
  rw [ServerState.remaining, hm]
  simp only [MainPc.left, WorkerPc.weight] at hload ⊢
  omega

/-- A call on the socket of a connection that is refused: one less is to be made. -/
theorem remaining_refusing (hm : s.main = .refusing clientFd (event :: rest))
    (hp : s.perform clientFd event = some t) :
    (t.toMain (.afterIo clientFd rest)).remaining + 1 ≤ s.remaining := by
  obtain ⟨_, _, _, hcount, _⟩ := perform_leaves hp
  change (MainPc.afterIo clientFd rest).left t.threadCount + t.load + 1 ≤ _
  rw [ServerState.remaining, hm, load_perform hp, hcount]
  cases rest with
  | nil =>
    simp only [MainPc.afterIo, MainPc.left, List.length_singleton]
    omega
  | cons next rest =>
    simp only [MainPc.afterIo, MainPc.left, List.length_cons]
    omega

/-- A worker leaves a queue that is shut down with a connection less in it, or ends. -/
theorem Stopped.load_dequeue {monitor : QueueMonitor} (h : s.Stopped)
    (hw : s.workers[i]? = some .dequeuing)
    (hd : s.monitor.dequeue i = some (result, monitor)) (c : Connection) :
    load { s with monitor := monitor, workers := s.workers.set i (.afterDequeue c result) } + 1 ≤
      s.load := by
  have hsum := sum_map_set hw WorkerPc.weight (.afterDequeue c result)
  change monitor.queue.count +
    ((s.workers.set i (.afterDequeue c result)).map WorkerPc.weight).sum + 1 ≤ _
  rw [load]
  obtain ⟨_, _, ⟨_, hopen⟩ | ⟨rfl, _, hc⟩ | ⟨fd, q, rfl, hc⟩⟩ := QueueMonitor.dequeue_outcome hd
  · rw [h.shutdown] at hopen
    cases hopen
  · simp only [WorkerPc.weight, WorkerPc.afterDequeue] at hsum ⊢
    omega
  · simp only [WorkerPc.weight, WorkerPc.afterDequeue] at hsum ⊢
    omega

theorem remaining_handling (hw : s.workers[i]? = some (.handling clientFd (event :: rest)))
    (hp : s.perform clientFd event = some t) :
    (t.setWorker i (.afterIo clientFd rest)).remaining ≤ s.remaining := by
  obtain ⟨hmain, hworkers, _, hcount, _⟩ := perform_leaves hp
  have hset := load_setWorker (.afterIo clientFd rest) (hworkers ▸ hw)
  change t.main.left t.threadCount + (t.setWorker i (.afterIo clientFd rest)).load ≤ _
  rw [ServerState.remaining, hmain, hcount]
  have hweight : (WorkerPc.afterIo clientFd rest).weight = 1 := by
    cases rest <;> rfl
  rw [hweight, load_perform hp] at hset
  simp only [WorkerPc.weight] at hset
  omega

/-- Once the server is stopped every step of its own threads brings the return nearer. -/
theorem Stopped.remaining (h : s.Stopped) (ha : s.Attended n) (hs : Step s a t) :
    t.remaining + (if a.own then 1 else 0) ≤ s.remaining := by
  have hplace := ha.place
  cases hs.acts with
  | started created hm =>
    apply remaining_toMain hm
    simp only [MainPc.left]
    omega
  | spawned i hm hi hw =>
    rw [hm] at hplace
    exact remaining_spawned (Nat.lt_of_le_of_ne hplace.1 hi) hm hw
  | spawnFailed i hm hi =>
    rw [hm] at hplace
    have hle := hplace.1
    change i + 2 + s.load + 1 ≤ _
    rw [ServerState.remaining, hm]
    simp only [MainPc.left]
    omega
  | tested hm =>
    rw [h.shouldStop]
    exact remaining_toMain hm (Nat.lt_succ_self _)
  | accepted clientFd hm hf => exact remaining_toMain hm (Nat.lt_succ_self _)
  | acceptInterrupted hm =>
    apply remaining_toMain hm
    simp only [MainPc.left]
    omega
  | acceptFailed hm =>
    rw [h.shouldStop]
    apply remaining_toMain hm
    simp only [MainPc.left, if_true]
    omega
  | enqueued clientFd mask outcomes result monitor hm he =>
    rw [QueueMonitor.enqueue_shutdown clientFd mask h.shutdown] at he
    cases he
    exact remaining_toMain hm (Nat.lt_succ_self _)
  | mainPerformed clientFd event rest u hm hp => exact remaining_refusing hm hp
  | poolShutdown code hm =>
    change s.threadCount - 0 + 1 + s.load + 1 ≤ _
    rw [ServerState.remaining, hm]
    simp only [MainPc.left]
    omega
  | joinedAll code hm =>
    apply remaining_toMain hm
    simp only [MainPc.left]
    omega
  | joined i code hm hi hw =>
    rw [hm] at hplace
    apply remaining_toMain hm
    have hlt : i < s.threadCount := Nat.lt_of_le_of_ne hplace.1 hi
    simp only [MainPc.left]
    omega
  | stopRequested => exact Nat.le_refl _
  | queueShutdown hs => exact Nat.le_refl _
  | dequeued i conn result monitor hw hd =>
    have hload := h.load_dequeue hw hd conn
    change s.main.left s.threadCount + load _ + 1 ≤ s.main.left s.threadCount + s.load
    omega
  | wokeUp i monitor hm =>
    simp only [QueueMonitor.wakeUp] at hm
    split at hm
    · rename_i hw
      exact absurd (mem_of_getElem? hw) (ha.wakeups.closed h.shutdown)
    · cases hm
  | workerPerformed i clientFd event rest u hw hp => exact remaining_handling hw hp
  | disconnected clientFd hf => exact Nat.le_refl _

theorem Stopped.accepts (h : s.Stopped) (hs : Step s a t) :
    (if t.main = .accepting then 1 else 0) + (if a.accepts then 1 else 0) ≤
      if s.main = .accepting then 1 else 0 := by
  have hafter : ∀ clientFd rest, MainPc.afterIo clientFd rest ≠ .accepting := by
    intro clientFd rest
    cases rest <;> nofun
  cases hs.acts with
  | tested hm | acceptFailed hm =>
    rw [h.shouldStop]
    exact Nat.zero_le _
  | accepted clientFd hm hf =>
    rw [if_pos hm]
    exact Nat.le_refl 1
  | enqueued clientFd mask outcomes result monitor hm he =>
    cases result <;> exact Nat.zero_le _
  | mainPerformed clientFd event rest u hm hp =>
    change (if MainPc.afterIo clientFd rest = .accepting then 1 else 0) + 0 ≤ _
    rw [if_neg (hafter clientFd rest)]
    exact Nat.zero_le _
  | workerPerformed i clientFd event rest u hw hp =>
    change (if u.main = .accepting then 1 else 0) + 0 ≤ _
    rw [(perform_leaves hp).1]
    exact Nat.le_refl _
  | stopRequested | queueShutdown hs | dequeued i conn result monitor hw hd | wokeUp i monitor hm
  | disconnected clientFd hf => exact Nat.le_refl _
  | _ => exact Nat.zero_le _

def Engaged (s : ServerState) : Prop :=
  s.main = .accepting ∨ (∃ clientFd rest, s.main = .refusing clientFd rest) ∨
    ∃ (i : Nat) (clientFd : Fd) (rest : List SocketEvent),
      s.workers[i]? = some (.handling clientFd rest)

/-- Until `server_run` has returned, some thread of a stopped server can go on or is engaged. -/
theorem Stopped.progress (h : s.Stopped) (ho : s.Owned c n) (ha : s.Attended n)
    (halive : s.alive = true) (hm : ∀ code, s.main ≠ .returned code) :
    (∃ a t, a.own = true ∧ Step s a t) ∨ s.Engaged := by
  have hplace := ha.place
  have hstep : ∀ a t, a.own = true → s.act a = some t →
      (∃ a t, a.own = true ∧ Step s a t) ∨ s.Engaged :=
    fun a t hown hact => .inl ⟨a, t, hown, (if_pos halive).trans hact⟩
  cases hmain : s.main with
  | starting i =>
    by_cases hi : i = s.threadCount
    · apply hstep (.spawn false) (s.toMain .testing) rfl
      simp only [act, hmain, if_pos hi]
    · apply hstep (.spawn false) { s with main := .stopping 1, threadCount := i } rfl
      simp only [act, hmain, if_neg hi, Bool.false_eq_true, if_false]
  | testing =>
    apply hstep .test (s.toMain (.stopping 0)) rfl
    simp only [act, hmain, h.shouldStop, if_true]
  | accepting => exact .inr (.inl hmain)
  | enqueuing clientFd =>
    apply hstep (.enqueue [] []) (s.toMain (.refusing clientFd [.closed])) rfl
    simp only [act, hmain, QueueMonitor.enqueue_shutdown clientFd [] h.shutdown, Option.map_some]
    rfl
  | refusing clientFd rest => exact .inr (.inr (.inl ⟨clientFd, rest, hmain⟩))
  | stopping code =>
    apply hstep .shutdownPool { s with monitor := s.monitor.shutdown, main := .joining 0 code } rfl
    simp only [act, hmain]
  | joining i code =>
    rw [hmain] at hplace
    by_cases hi : i = s.threadCount
    · apply hstep .join (s.toMain (.returned code)) rfl
      simp only [act, hmain, if_pos hi]
    · obtain ⟨w, hw, hne⟩ := hplace.2 i (Nat.lt_of_le_of_ne hplace.1 hi)
      cases w with
      | unstarted => exact absurd rfl hne
      | handling clientFd rest => exact .inr (.inr (.inr ⟨i, clientFd, rest, hw⟩))
      | exited =>
        apply hstep .join (s.toMain (.joining (i + 1) code)) rfl
        simp only [act, hmain, if_neg hi, hw, if_true]
      | dequeuing =>
        have hlt : i < s.workers.length := (List.getElem?_eq_some_iff.1 hw).1
        rw [ho.workers, ← ha.waiters] at hlt
        have hawake : s.monitor.waiters[i]? ≠ some .blocked :=
          fun hb => ha.wakeups.closed h.shutdown (mem_of_getElem? hb)
        obtain ⟨result, monitor, hd⟩ := QueueMonitor.dequeue_enabled hlt hawake
        apply hstep (.dequeue i ⟨[], [], fun _ => pageOs, [], []⟩) _ rfl
        exact (if_pos hw).trans (congrArg (Option.map _) hd)
  | returned code => exact absurd hmain (hm code)

end ServerState

/-- Once `server_stop` has run, in whatever state it found the server, the server's own threads
take a bounded number of steps, of which one may accept a connection, and until `server_run` has
returned one of them can go on, is at work on the socket of a client or waits in `accept`. -/
theorem serverStop_ends (c n : Nat) (queue : SocketQueue) (allocated : Bool)
    (hq : socketQueueInit c true = some queue) (as : List Action) (s : ServerState)
    (hrun : Run ServerState.Step (.initial queue n allocated) as s) (hstop : s.shouldStop = true)
    (hshut : s.monitor.queue.shutdown = true) (bs : List Action) (t : ServerState)
    (hlater : Run ServerState.Step s bs t) :
    t.remaining + bs.countP Action.own ≤ s.remaining ∧
      bs.countP Action.accepts ≤ (if s.main = .accepting then 1 else 0) ∧
      (t.alive = true → (∀ code, t.main ≠ .returned code) →
        (∃ a u, a.own = true ∧ ServerState.Step t a u) ∨ t.Engaged) := by
  let kept : ServerState → Prop := fun s => s.Owned c n ∧ s.Attended n
  have hkept : ∀ s a t, kept s → ServerState.Step s a t → kept t :=
    fun s a t h hs => ⟨h.1.step hs, h.2.step hs⟩
  have hs : kept s := hrun.invariant hkept
    ⟨ServerState.initial_owned hq n allocated, ServerState.initial_attended queue n allocated⟩
  let inv : ServerState → Prop := fun s => s.Stopped ∧ kept s
  have hinv : ∀ s a t, inv s → ServerState.Step s a t → inv t :=
    fun s a t h hs => ⟨h.1.step hs, hkept s a t h.2 hs⟩
  have hstart : inv s := ⟨⟨hstop, hshut⟩, hs⟩
  obtain ⟨hstopped, hown, hattended⟩ := hlater.invariant hinv hstart
  refine ⟨?_, ?_, hstopped.progress hown hattended⟩
  · apply hlater.count_le ServerState.remaining _ hstart
    exact fun s a t h hs => ⟨hinv s a t h hs, h.1.remaining h.2.2 hs⟩
  · have hcount := hlater.count_le (fun s => if s.main = .accepting then 1 else 0)
      (fun s a t h hs => ⟨hinv s a t h hs, h.1.accepts hs⟩) hstart
    omega

theorem serverStop_ends_drained : ∃ s t : ServerState, s.monitor.queue.contents = [5] ∧
    t.main = .returned 0 ∧ t.remaining + 6 ≤ s.remaining ∧ s.remaining = 6 := by
  let c : Connection := ⟨[], [], fun _ => pageOs, [], []⟩
  let queue : SocketQueue := ⟨[0], 1, 0, 0, 0, false⟩
  let as : List Action :=
    [.spawn true, .spawn true, .test, .accept (.accepted 5), .enqueue [] [], .requestStop,
      .shutdownQueue]
  let bs : List Action :=
    [.test, .shutdownPool, .dequeue 0 c, .workerIo 0, .workerIo 0, .dequeue 0 c, .join, .join]
  let s : ServerState :=
    ⟨.testing, [.dequeuing], ⟨⟨[5], 1, 0, 0, 1, true⟩, [.running]⟩, 1, true, [5], [], [5], [],
      true⟩
  let t : ServerState :=
    ⟨.returned 0, [.exited], ⟨⟨[5], 1, 0, 0, 0, true⟩, [.running]⟩, 1, true, [], [], [5], [5], true⟩
  have hs : follow ServerState.next (.initial queue 1 true) as = some s := by decide +kernel
  have ht : follow ServerState.next s bs = some t := by decide +kernel
  obtain ⟨hcount, _⟩ := serverStop_ends 1 1 queue true rfl as s (run_of_follow hs) rfl rfl bs t
    (run_of_follow ht)
  exact ⟨s, t, rfl, rfl, hcount, rfl⟩

end Httpd
