import Httpd.SignalDelivery

namespace Httpd
open ConditionVariable Transition
set_option autoImplicit true

namespace QueueMonitor

variable {m m' : QueueMonitor}

theorem enqueue_stirs (h : m.enqueue fd mask = some (result, m')) :
    Stirs m.waiters m'.waiters := by
  simp only [enqueue] at h
  obtain ⟨q', he, _⟩ | he | he := socketQueueEnqueue_count m.queue fd
  · rw [he] at h
    obtain ⟨waiters, hw, hp⟩ := Option.map_eq_some_iff.1 h
    cases hp
    exact signal_stirs hw
  · rw [he] at h
    cases h
    exact fun _ => .inl rfl
  · rw [he] at h
    cases h
    exact fun _ => .inl rfl

theorem wakeUp_stirs (h : m.wakeUp i = some m') : Stirs m.waiters m'.waiters := by
  simp only [wakeUp] at h
  split at h
  · rename_i hb
    cases h
    exact set_woken_stirs hb
  · cases h

def afterDequeue : DequeueResult → Waiter
  | .wait => .blocked
  | _ => .running

theorem dequeue_waiters (h : m.dequeue i = some (result, m')) :
    m'.waiters = m.waiters.set i (afterDequeue result) := by
  simp only [dequeue] at h
  split at h
  · obtain ⟨he, _⟩ | ⟨he, _⟩ | ⟨fd, q', he, _⟩ := socketQueueDequeue_count m.queue
    · rw [he] at h
      cases h
      rfl
    · rw [he] at h
      cases h
      rfl
    · rw [he] at h
      cases h
      rfl
  · cases h

theorem enqueue_enabled (m : QueueMonitor) (fd : Fd) :
    ∃ mask result m', m.enqueue fd mask = some (result, m') := by
  obtain ⟨mask, waiters, hw⟩ := exists_signal m.waiters
  obtain ⟨q', he, _⟩ | he | he := socketQueueEnqueue_count m.queue fd
  · exact ⟨mask, .ok, ⟨q', waiters⟩, by simp only [enqueue, he, hw, Option.map_some]⟩
  · exact ⟨mask, .full, m, by simp only [enqueue, he]⟩
  · exact ⟨mask, .closed, m, by simp only [enqueue, he]⟩

theorem Step.shutdown (h : Step m a m') (hs : m.queue.shutdown = true) :
    m'.queue.shutdown = true := by
  cases a with
  | enqueue fd mask =>
    obtain ⟨⟨result, after⟩, he, hp⟩ := Option.map_eq_some_iff.1 h
    cases hp
    exact (enqueue_outcome he).2.1.trans hs
  | dequeue i =>
    obtain ⟨⟨result, after⟩, hd, hp⟩ := Option.map_eq_some_iff.1 h
    cases hp
    exact (dequeue_outcome hd).2.1.trans hs
  | shutdown =>
    cases h
    rfl
  | wakeUp i => exact (congrArg _ (wakeUp_queue h)).trans hs

end QueueMonitor

/-- How a worker may stand to the condition variable at a place. -/
def WorkerPoint.Allows : WorkerPoint → Waiter → Prop
  | .waiting, w => w ≠ .running
  | .dequeuing, w => w ≠ .blocked
  | _, w => w = .running

theorem WorkerPoint.Allows.wake {point : WorkerPoint} (h : point.Allows w) :
    point.Allows w.wake := by
  cases point with
  | waiting =>
    cases w with
    | running => exact absurd rfl h
    | blocked | woken => exact nofun
  | dequeuing => cases w <;> exact nofun
  | _ =>
    cases h
    rfl

/-- The worker threads and the condition variable of the queue know of each other: every thread
that runs has its entry there, and sleeps in the wait only where it waits. -/
structure Linked (threadCount : Nat) (main : MainPoint) (workers : Nat → WorkerPoint)
    (waiters : List Waiter) : Prop where
  room : threadCount ≤ waiters.length
  started : ∀ i, main = .starting i → i ≤ threadCount
  bound : ∀ i, workers i ≠ .unstarted → i < waiters.length
  place : ∀ (i : Nat) w, waiters[i]? = some w → (workers i).Allows w

namespace Linked

variable {main main' : MainPoint} {workers : Nat → WorkerPoint} {waiters waiters' : List Waiter}

theorem stirred (h : Linked threadCount main workers waiters) (hs : Stirs waiters waiters') :
    Linked threadCount main workers waiters' := by
  constructor
  · rw [hs.length]
    exact h.room
  · exact h.started
  · rw [hs.length]
    exact h.bound
  · intro i w hw
    obtain hi | hi := hs i
    · exact h.place i w (hi ▸ hw)
    · rw [hi] at hw
      obtain ⟨v, hv, rfl⟩ := Option.map_eq_some_iff.1 hw
      exact (h.place i v hv).wake

theorem toMain (h : Linked threadCount main workers waiters) (hm : ∀ i, main' ≠ .starting i) :
    Linked threadCount main' workers waiters :=
  ⟨h.room, fun i he => absurd he (hm i), h.bound, h.place⟩

theorem setWorker (h : Linked threadCount main workers waiters) (hi : i < waiters.length)
    (hl : waiters'.length = waiters.length)
    (ho : ∀ j : Nat, j ≠ i → waiters'[j]? = waiters[j]?)
    (ha : ∀ w, waiters'[i]? = some w → point.Allows w) :
    Linked threadCount main (Function.update workers i point) waiters' := by
  constructor
  · rw [hl]
    exact h.room
  · exact h.started
  · intro j hj
    rw [hl]
    by_cases he : j = i
    · rw [he]
      exact hi
    · rw [Function.update_of_ne he] at hj
      exact h.bound j hj
  · intro j w hw
    by_cases he : j = i
    · subst he
      rw [Function.update_self]
      exact ha w hw
    · rw [Function.update_of_ne he]
      exact h.place j w (ho j he ▸ hw)

theorem present (h : Linked threadCount main workers waiters) (hw : workers i = point)
    (hp : point ≠ .unstarted) : i < waiters.length :=
  h.bound i (hw ▸ hp)

theorem moves (h : Linked threadCount main workers waiters) (hw : workers i = old)
    (hold : old ≠ .unstarted) (ha : ∀ w, old.Allows w → point.Allows w) :
    Linked threadCount main (Function.update workers i point) waiters := by
  apply h.setWorker (h.present hw hold) rfl (fun _ _ => rfl)
  intro w hi
  have hplace := h.place i w hi
  rw [hw] at hplace
  exact ha w hplace

theorem passes {m m' : QueueMonitor} (h : Linked threadCount main workers m.waiters)
    (hw : workers i = .dequeuing) (hd : m.dequeue i = some (result, m'))
    (ha : point.Allows (QueueMonitor.afterDequeue result)) :
    Linked threadCount main (Function.update workers i point) m'.waiters := by
  have hi : i < m.waiters.length := h.present hw nofun
  rw [QueueMonitor.dequeue_waiters hd]
  apply h.setWorker hi List.length_set
  · exact fun j hj => List.getElem?_set_ne (Ne.symm hj)
  · intro w hset
    rw [List.getElem?_set_self hi, Option.some.injEq] at hset
    rw [← hset]
    exact ha

end Linked

/-- What a handler has brought about when it comes to a place. -/
def HandlerPoint.Brought (shouldStop shutdown : Bool) : HandlerPoint → Prop
  | .entered => True
  | .unlocking => shouldStop = true ∧ shutdown = true
  | _ => shouldStop = true

theorem HandlerPoint.Brought.stopped {point : HandlerPoint} (h : point.Brought stop shut)
    (hp : point ≠ .entered) : stop = true := by
  cases point with
  | entered => exact absurd rfl hp
  | unlocking => exact h.1
  | _ => exact h

theorem HandlerPoint.Brought.mono {point : HandlerPoint} (h : point.Brought stop shut)
    (hstop : stop = true → stop' = true) (hshut : shut = true → shut' = true) :
    point.Brought stop' shut' := by
  cases point with
  | entered => trivial
  | unlocking => exact ⟨hstop h.1, hshut h.2⟩
  | _ => exact hstop h

namespace SignalState

variable {s t : SignalState}

theorem step_monitor (hs : Step s a t) :
    t.monitor = s.monitor ∨ ∃ b, QueueMonitor.Step s.monitor b t.monitor := by
  cases hs.acts with
  | handlerShutdown thread rest hf => exact .inr ⟨.shutdown, rfl⟩
  | poolShutdown hf hm => exact .inr ⟨.shutdown, rfl⟩
  | enqueued clientFd mask result monitor hf hm he =>
    exact .inr ⟨.enqueue clientFd mask, congrArg (Option.map Prod.snd) he⟩
  | waited i monitor hf hw hd | closed i monitor hf hw hd | took i clientFd queue monitor hf hw hd =>
    exact .inr ⟨.dequeue i, congrArg (Option.map Prod.snd) hd⟩
  | wokeUp i monitor hm => exact .inr ⟨.wakeUp i, hm⟩
  | _ => exact .inl rfl

def Told (s : SignalState) : Prop :=
  ∀ thread, ∀ point ∈ s.frames thread, point.Brought s.shouldStop s.monitor.queue.shutdown

/-- What holds in every state of a run in which each signal arrives where it does no harm. -/
structure Kept (s : SignalState) : Prop where
  sound : s.Sound
  linked : Linked s.threadCount s.main s.workers s.monitor.waiters
  told : s.Told
  wakeups : s.monitor.NoLostWakeup

theorem Sound.linked (h : s.Sound) (hl : Linked s.threadCount s.main s.workers s.monitor.waiters)
    (hs : Step s a t) : Linked t.threadCount t.main t.workers t.monitor.waiters := by
  cases hs.acts with
  | handlerShutdown thread rest hf => exact hl.stirred (broadcast_stirs _)
  | poolShutdown hf hm => exact (hl.stirred (broadcast_stirs _)).toMain nofun
  | enqueued clientFd mask result monitor hf hm he =>
    exact (hl.stirred (QueueMonitor.enqueue_stirs he)).toMain nofun
  | wokeUp i monitor hm => exact hl.stirred (QueueMonitor.wakeUp_stirs hm)
  | spawned i hf hm hi =>
    have hlt : i < s.threadCount := Nat.lt_of_le_of_ne (hl.started i hm) hi
    have hphase := h.phase
    rw [hm] at hphase
    have hidle : s.workers i = .unstarted := hphase i (Nat.le_refl i)
    have hset : Linked s.threadCount s.main (Function.update s.workers i .locking)
        s.monitor.waiters := by
      apply hl.setWorker (Nat.lt_of_lt_of_le hlt hl.room) rfl (fun _ _ => rfl)
      intro w hw
      have hplace := hl.place i w hw
      rw [hidle] at hplace
      exact hplace
    refine ⟨hset.room, fun j hj => ?_, hset.bound, hset.place⟩
    cases hj
    exact hlt
  | spawnFailed i hf hm hi =>
    exact ⟨Nat.le_trans (hl.started i hm) hl.room, nofun, hl.bound, hl.place⟩
  | waited i monitor hf hw hd => exact hl.passes hw hd nofun
  | closed i monitor hf hw hd => exact hl.passes hw hd rfl
  | took i clientFd queue monitor hf hw hd => exact hl.passes hw hd rfl
  | workerLocked i hf hw ho =>
    apply hl.moves hw nofun
    rintro w rfl
    nofun
  | workerWoken i hf hw hm ho =>
    have hlt : i < s.monitor.waiters.length := (List.getElem?_eq_some_iff.1 hm).1
    apply hl.setWorker hlt rfl (fun _ _ => rfl)
    intro w hi
    cases hm.symm.trans hi
    nofun
  | workerExited i hf hw | workerUnlocked i clientFd hf hw | handled i clientFd hf hw =>
    exact hl.moves hw nofun fun _ hw => hw
  | delivered thread hlive | entered thread rest hf | tested thread rest hf hm
  | testedLate thread rest hf hm | handlerLocked thread rest hf ho
  | handlerUnlocked thread rest hf => exact hl
  | _ => exact hl.toMain nofun

theorem step_told (hs : Step s a t) :
    (s.shouldStop = true → t.shouldStop = true) ∧
      (s.monitor.queue.shutdown = true → t.monitor.queue.shutdown = true) := by
  constructor
  · cases hs.acts with
    | entered thread rest hf => exact fun _ => rfl
    | _ => exact id
  · intro h
    obtain hm | ⟨b, hb⟩ := step_monitor hs
    · rw [hm]
      exact h
    · exact hb.shutdown h

theorem Told.step (h : s.Told) (hs : Step s a t) : t.Told := by
  obtain ⟨hstop, hshut⟩ := step_told hs
  have hstays : ∀ thread, ∀ point ∈ s.frames thread,
      point.Brought t.shouldStop t.monitor.queue.shutdown :=
    fun thread point hp => (h thread point hp).mono hstop hshut
  have hset : ∀ thread frames, t.frames = Function.update s.frames thread frames →
      (∀ point ∈ frames, point.Brought t.shouldStop t.monitor.queue.shutdown) → t.Told := by
    intro thread frames hf hpoints other point hp
    rw [hf] at hp
    by_cases ho : other = thread
    · rw [ho, Function.update_self] at hp
      exact hpoints point hp
    · rw [Function.update_of_ne ho] at hp
      exact hstays other point hp
  -- the handlers beneath the innermost one stay where they are
  have hrest : ∀ {thread point rest}, s.frames thread = point :: rest →
      ∀ p ∈ rest, p.Brought t.shouldStop t.monitor.queue.shutdown :=
    fun hf p hp => hstays _ p (hf ▸ List.mem_cons_of_mem _ hp)
  have hstopped : ∀ {thread point rest}, s.frames thread = point :: rest → point ≠ .entered →
      t.shouldStop = true :=
    fun hf hp => (hstays _ _ (hf ▸ List.mem_cons_self)).stopped hp
  cases hs.acts with
  | delivered thread hl => exact hset thread _ rfl (List.forall_mem_cons.2 ⟨trivial, hstays thread⟩)
  | entered thread rest hf => exact hset thread _ rfl (List.forall_mem_cons.2 ⟨rfl, hrest hf⟩)
  | tested thread rest hf hm =>
    exact hset thread _ rfl (List.forall_mem_cons.2 ⟨hstopped hf nofun, hrest hf⟩)
  | testedLate thread rest hf hm => exact hset thread _ rfl (hrest hf)
  | handlerLocked thread rest hf ho =>
    exact hset thread _ rfl (List.forall_mem_cons.2 ⟨hstopped hf nofun, hrest hf⟩)
  | handlerShutdown thread rest hf =>
    exact hset thread _ rfl (List.forall_mem_cons.2 ⟨⟨hstopped hf nofun, rfl⟩, hrest hf⟩)
  | handlerUnlocked thread rest hf => exact hset thread _ rfl (hrest hf)
  | _ => exact hstays

theorem Kept.step (h : s.Kept) (hs : Guarded s a t) : t.Kept := by
  refine ⟨h.sound.step hs, h.sound.linked h.linked hs.1, h.told.step hs.1, ?_⟩
  obtain hm | ⟨b, hb⟩ := step_monitor hs.1
  · rw [hm]
    exact h.wakeups
  · exact h.wakeups.step hb

theorem initial_kept (queue : SocketQueue) (threadCount : Nat) (allocated : Bool) :
    (initial queue threadCount allocated).Kept := by
  constructor
  · exact initial_sound queue threadCount allocated
  · constructor
    · exact Nat.le_of_eq List.length_replicate.symm
    · intro i hm
      simp only [initial] at hm
      split at hm
      · cases hm
      · cases hm
        exact Nat.zero_le _
    · exact fun i hw => absurd rfl hw
    · exact fun i w hw => List.eq_of_mem_replicate (ListUpdate.mem_of_getElem? hw)
  · intro thread point hp
    cases hp
  · exact QueueMonitor.initial_noLostWakeup queue threadCount

end SignalState

/-- How many steps a thread is away from giving back the mutex that it holds. -/
def HandlerPoint.toUnlock : HandlerPoint → Nat
  | .shuttingDown => 2
  | .unlocking => 1
  | _ => 0

def MainPoint.toUnlock : MainPoint → Nat
  | .enqueuing _ => 2
  | .unlocking => 1
  | .shuttingDown => 2
  | .shutDown => 1
  | _ => 0

def WorkerPoint.toUnlock : WorkerPoint → Nat
  | .dequeuing => 2
  | .unlocking _ => 1
  | _ => 0

/-- How many steps a handler is away from its end, once it can have the mutex. -/
def HandlerPoint.toEnd : HandlerPoint → Nat
  | .entered => 5
  | .testing => 4
  | .locking => 3
  | .shuttingDown => 2
  | .unlocking => 1

/-- The thread that makes a step; nobody does of those that a thread only meets with. -/
def SignalAction.thread : SignalAction → Option ThreadId
  | .handle thread => some thread
  | .spawn _ => some .main
  | .accept _ => some .main
  | .enqueue _ => some .main
  | .main => some .main
  | .worker i => some (.worker i)
  | .deliver _ => none
  | .wakeUp _ => none

namespace SignalState

variable {s t : SignalState}

def toUnlock (s : SignalState) (thread : ThreadId) : Nat :=
  match s.frames thread, thread with
  | point :: _, _ => point.toUnlock
  | [], .main => s.main.toUnlock
  | [], .worker i => (s.workers i).toUnlock

def toEnd (s : SignalState) (thread : ThreadId) : Nat :=
  ((s.frames thread).map HandlerPoint.toEnd).sum

theorem toUnlock_handler (hf : s.frames thread = point :: rest) :
    s.toUnlock thread = point.toUnlock := by
  simp only [toUnlock, hf]

theorem toUnlock_main (hf : s.frames .main = []) : s.toUnlock .main = s.main.toUnlock := by
  simp only [toUnlock, hf]

theorem toUnlock_worker (hf : s.frames (.worker i) = []) :
    s.toUnlock (.worker i) = (s.workers i).toUnlock := by
  simp only [toUnlock, hf]

theorem toUnlock_le (s : SignalState) (thread : ThreadId) : s.toUnlock thread ≤ 2 := by
  cases hf : s.frames thread with
  | cons point rest =>
    rw [toUnlock_handler hf]
    cases point <;> decide
  | nil =>
    cases thread with
    | main =>
      rw [toUnlock_main hf]
      unfold MainPoint.toUnlock
      split <;> omega
    | worker i =>
      rw [toUnlock_worker hf]
      unfold WorkerPoint.toUnlock
      split <;> omega

theorem toUnlock_eq_zero (h : s.holds thread = false) : s.toUnlock thread = 0 := by
  simp only [holds] at h
  cases hf : s.frames thread with
  | cons point rest =>
    rw [hf] at h
    rw [toUnlock_handler hf]
    cases point with
    | shuttingDown | unlocking => cases h
    | _ => rfl
  | nil =>
    rw [hf] at h
    cases thread with
    | main =>
      simp only [topHolds, baseHolds] at h
      rw [toUnlock_main hf]
      cases hm : s.main with
      | enqueuing _ | unlocking | shuttingDown | shutDown =>
        rw [hm] at h
        cases h
      | _ => rfl
    | worker i =>
      simp only [topHolds, baseHolds] at h
      rw [toUnlock_worker hf]
      cases hw : s.workers i with
      | dequeuing | unlocking _ =>
        rw [hw] at h
        cases h
      | _ => rfl

/-- A step that leaves the handlers of other threads alone and does not come to the end of `main`. -/
structure Besides (thread : ThreadId) (s t : SignalState) : Prop where
  frames : ∀ other, other ≠ thread → t.frames other = s.frames other
  main : t.main = .finished → s.main = .finished

theorem besides_handler {frames : List HandlerPoint} (hm : t.main = s.main)
    (hf : t.frames = Function.update s.frames thread frames) : s.Besides thread t := by
  constructor
  · intro other hother
    rw [hf, Function.update_of_ne hother]
  · rw [hm]
    exact id

theorem handler_unlocks (hf : s.frames thread = point :: rest) (hp : point.holds = true) :
    ∃ a t, a.thread = some thread ∧ s.Acts a t ∧ s.Besides thread t ∧
      0 < s.toUnlock thread ∧
      (t.owner = none ∨ t.owner = s.owner ∧ t.toUnlock thread < s.toUnlock thread) := by
  rw [toUnlock_handler hf]
  cases point with
  | shuttingDown =>
    refine ⟨_, _, rfl, .handlerShutdown thread rest hf, besides_handler rfl rfl, Nat.zero_lt_two,
      .inr ⟨rfl, ?_⟩⟩
    rw [toUnlock_handler (Function.update_self ..)]
    exact Nat.one_lt_two
  | unlocking =>
    exact ⟨_, _, rfl, .handlerUnlocked thread rest hf, besides_handler rfl rfl, Nat.zero_lt_one,
      .inl rfl⟩
  | _ => cases hp

theorem main_unlocks (hf : s.frames .main = []) (hm : s.main.holds = true) :
    ∃ a t, a.thread = some .main ∧ s.Acts a t ∧ s.Besides .main t ∧ 0 < s.toUnlock .main ∧
      (t.owner = none ∨ t.owner = s.owner ∧ t.toUnlock .main < s.toUnlock .main) := by
  rw [toUnlock_main hf]
  cases hmain : s.main with
  | enqueuing clientFd =>
    obtain ⟨mask, result, monitor, he⟩ := s.monitor.enqueue_enabled clientFd
    refine ⟨_, _, rfl, .enqueued clientFd mask result monitor hf hmain he, ⟨fun _ _ => rfl, nofun⟩,
      Nat.zero_lt_two, .inr ⟨rfl, ?_⟩⟩
    rw [toUnlock_main]
    · exact Nat.one_lt_two
    · exact hf
  | unlocking =>
    exact ⟨_, _, rfl, .mainUnlocked hf hmain, ⟨fun _ _ => rfl, nofun⟩, Nat.zero_lt_one, .inl rfl⟩
  | shuttingDown =>
    refine ⟨_, _, rfl, .poolShutdown hf hmain, ⟨fun _ _ => rfl, nofun⟩, Nat.zero_lt_two,
      .inr ⟨rfl, ?_⟩⟩
    rw [toUnlock_main]
    · exact Nat.one_lt_two
    · exact hf
  | shutDown =>
    exact ⟨_, _, rfl, .poolUnlocked hf hmain, ⟨fun _ _ => rfl, nofun⟩, Nat.zero_lt_one, .inl rfl⟩
  | _ =>
    rw [hmain] at hm
    cases hm

theorem worker_unlocks (hl : Linked s.threadCount s.main s.workers s.monitor.waiters)
    (hf : s.frames (.worker i) = []) (hw : (s.workers i).holds = true) :
    ∃ a t, a.thread = some (.worker i) ∧ s.Acts a t ∧ s.Besides (.worker i) t ∧
      0 < s.toUnlock (.worker i) ∧
      (t.owner = none ∨
        t.owner = s.owner ∧ t.toUnlock (.worker i) < s.toUnlock (.worker i)) := by
  rw [toUnlock_worker hf]
  cases hworker : s.workers i with
  | dequeuing =>
    have hi : i < s.monitor.waiters.length := hl.present hworker nofun
    have hawake : s.monitor.waiters[i]? ≠ some .blocked := by
      intro hb
      have hplace := hl.place i _ hb
      rw [hworker] at hplace
      exact hplace rfl
    obtain ⟨result, monitor, hd⟩ := QueueMonitor.dequeue_enabled hi hawake
    cases result with
    | wait =>
      exact ⟨_, _, rfl, .waited i monitor hf hworker hd, ⟨fun _ _ => rfl, id⟩, Nat.zero_lt_two,
        .inl rfl⟩
    | closed =>
      refine ⟨_, _, rfl, .closed i monitor hf hworker hd, ⟨fun _ _ => rfl, id⟩, Nat.zero_lt_two,
        .inr ⟨rfl, ?_⟩⟩
      rw [toUnlock_worker]
      · simp only [setWorker, Function.update_self]
        exact Nat.one_lt_two
      · exact hf
    | took clientFd queue =>
      refine ⟨_, _, rfl, .took i clientFd queue monitor hf hworker hd, ⟨fun _ _ => rfl, id⟩,
        Nat.zero_lt_two, .inr ⟨rfl, ?_⟩⟩
      rw [toUnlock_worker]
      · simp only [setWorker, Function.update_self]
        exact Nat.one_lt_two
      · exact hf
  | unlocking taken =>
    cases taken with
    | none =>
      exact ⟨_, _, rfl, .workerExited i hf hworker, ⟨fun _ _ => rfl, id⟩, Nat.zero_lt_one, .inl rfl⟩
    | some clientFd =>
      exact ⟨_, _, rfl, .workerUnlocked i clientFd hf hworker, ⟨fun _ _ => rfl, id⟩,
        Nat.zero_lt_one, .inl rfl⟩
  | _ =>
    rw [hworker] at hw
    cases hw

/-- The thread that holds the mutex can go on with it, or give it back. -/
theorem Kept.unlocks (h : s.Kept) (ho : s.owner = some thread) :
    ∃ a t, a.thread = some thread ∧ s.Acts a t ∧ s.Besides thread t ∧ 0 < s.toUnlock thread ∧
      (t.owner = none ∨ t.owner = s.owner ∧ t.toUnlock thread < s.toUnlock thread) := by
  have hholds : s.holds thread = true := (h.sound.owner thread).1 ho
  cases hf : s.frames thread with
  | cons point rest =>
    rw [holds, hf] at hholds
    exact handler_unlocks hf hholds
  | nil =>
    rw [holds, hf] at hholds
    cases thread with
    | main => exact main_unlocks hf hholds
    | worker i => exact worker_unlocks h.linked hf hholds

theorem Besides.trans (h : s.Besides thread t) (h' : t.Besides thread u) : s.Besides thread u :=
  ⟨fun other hother => (h'.frames other hother).trans (h.frames other hother), fun hm =>
    h.main (h'.main hm)⟩

theorem guarded_of_acts (h : s.Acts a t) (ha : a.thread = some thread) : Guarded s a t := by
  refine ⟨h.step, ?_⟩
  cases a with
  | deliver id => cases ha
  | _ => trivial

/-- By its own steps, of which there are at most two, the thread that holds the mutex gives it
back. -/
theorem Kept.released (h : s.Kept) (ho : s.owner = some thread) :
    ∃ as t, (∀ a ∈ as, a.thread = some thread) ∧ as.length ≤ 2 ∧ Run Guarded s as t ∧ t.Kept ∧
      t.owner = none ∧ s.Besides thread t := by
  let inv : SignalState → Prop := fun u =>
    u.Kept ∧ (u.owner = some thread ∨ u.owner = none) ∧ s.Besides thread u
  have hstep : ∀ u, inv u → ¬ u.owner = none → ∃ a v, a.thread = some thread ∧ Guarded u a v ∧
      inv v ∧ v.toUnlock thread < u.toUnlock thread := by
    intro u hu hn
    obtain ⟨hk, howner, hbeside⟩ := hu
    have howns := howner.resolve_right hn
    obtain ⟨a, v, ha, hacts, hb, hpos, hafter⟩ := hk.unlocks howns
    have hguarded := guarded_of_acts hacts ha
    have hkept := hk.step hguarded
    refine ⟨a, v, ha, hguarded, ⟨hkept, ?_, hbeside.trans hb⟩, ?_⟩
    · obtain hfree | ⟨hsame, _⟩ := hafter
      · exact .inr hfree
      · exact .inl (hsame.trans howns)
    · obtain hfree | ⟨_, hlt⟩ := hafter
      · have hholds : v.holds thread = false := by
          rw [Bool.eq_false_iff]
          intro hh
          rw [(hkept.sound.owner thread).2 hh] at hfree
          cases hfree
        rw [toUnlock_eq_zero hholds]
        exact hpos
      · exact hlt
  have hstart : inv s := ⟨h, .inl ho, fun _ _ => rfl, id⟩
  obtain ⟨as, t, has, hle, hrun, ⟨hkept, _, hbeside⟩, hfree⟩ :=
    Run.to_final (fun u => u.toUnlock thread) hstep hstart
  exact ⟨as, t, has, Nat.le_trans hle (s.toUnlock_le thread), hrun, hkept, hfree, hbeside⟩

def Answered (s : SignalState) : Prop :=
  s.shouldStop = true ∧ (s.main = .finished ∨ s.monitor.queue.shutdown = true)

theorem toEnd_goes (hf : s.frames thread = point :: rest)
    (ht : t.frames = Function.update s.frames thread (later :: rest))
    (hlt : later.toEnd < point.toEnd) :
    t.toEnd thread < s.toEnd thread ∧ t.frames thread ≠ [] := by
  have hframes : t.frames thread = later :: rest := by
    rw [ht, Function.update_self]
  rw [toEnd, toEnd, hf, hframes, List.map_cons, List.sum_cons, List.map_cons, List.sum_cons]
  exact ⟨Nat.add_lt_add_right hlt _, List.cons_ne_nil _ _⟩

theorem toEnd_ends (hf : s.frames thread = point :: rest)
    (ht : t.frames = Function.update s.frames thread rest) :
    t.toEnd thread < s.toEnd thread := by
  have hpos : 0 < point.toEnd := by
    cases point <;> decide
  rw [toEnd, toEnd, hf, ht, Function.update_self, List.map_cons, List.sum_cons]
  exact Nat.lt_add_of_pos_left hpos

theorem Kept.goesOn (h : s.Kept) (ho : s.owner = none ∨ s.owner = some thread)
    (hf : s.frames thread ≠ []) :
    ∃ t, s.Acts (.handle thread) t ∧ t.main = s.main ∧
      (t.owner = none ∨ t.owner = some thread) ∧ t.toEnd thread < s.toEnd thread ∧
      (t.frames thread = [] → t.Answered) := by
  cases hframes : s.frames thread with
  | nil => exact absurd hframes hf
  | cons point rest =>
    have hbrought := h.told thread point (hframes ▸ List.mem_cons_self)
    have hgoes : ∀ (t : SignalState) (later : HandlerPoint),
        t.frames = Function.update s.frames thread (later :: rest) →
        later.toEnd < point.toEnd →
        t.toEnd thread < s.toEnd thread ∧ (t.frames thread = [] → t.Answered) := by
      intro t later ht hlt
      obtain ⟨hlower, hne⟩ := toEnd_goes hframes ht hlt
      exact ⟨hlower, fun he => absurd he hne⟩
    cases point with
    | entered => exact ⟨_, .entered thread rest hframes, rfl, ho, hgoes _ _ rfl (by decide)⟩
    | testing =>
      by_cases hm : s.main = .finished
      · exact ⟨_, .testedLate thread rest hframes hm, rfl, ho, toEnd_ends hframes rfl,
          fun _ => ⟨hbrought, .inl hm⟩⟩
      · exact ⟨_, .tested thread rest hframes hm, rfl, ho, hgoes _ _ rfl (by decide)⟩
    | locking =>
      have hfree : s.owner = none := ho.resolve_right (h.sound.safe.lock thread rest hframes)
      exact ⟨_, .handlerLocked thread rest hframes hfree, rfl, .inr rfl, hgoes _ _ rfl (by decide)⟩
    | shuttingDown =>
      exact ⟨_, .handlerShutdown thread rest hframes, rfl, ho, hgoes _ _ rfl (by decide)⟩
    | unlocking =>
      exact ⟨_, .handlerUnlocked thread rest hframes, rfl, .inl rfl, toEnd_ends hframes rfl,
        fun _ => ⟨hbrought.1, .inr hbrought.2⟩⟩

theorem toEnd_le (s : SignalState) (thread : ThreadId) :
    s.toEnd thread ≤ 5 * (s.frames thread).length := by
  have hpoint : ∀ point : HandlerPoint, point.toEnd ≤ 5 := by
    intro point
    cases point <;> decide
  rw [toEnd]
  induction s.frames thread with
  | nil => exact Nat.le_refl 0
  | cons point rest ih =>
    have hfirst := hpoint point
    rw [List.map_cons, List.sum_cons, List.length_cons]
    omega

/-- Where nobody else has the mutex, the handlers of a thread end by their own steps. -/
theorem Kept.ends (h : s.Kept) (ho : s.owner = none ∨ s.owner = some thread)
    (hf : s.frames thread ≠ []) :
    ∃ as t, (∀ a ∈ as, a = .handle thread) ∧ as.length ≤ 5 * (s.frames thread).length ∧
      Run Guarded s as t ∧ t.main = s.main ∧ t.frames thread = [] ∧ t.Answered := by
  let inv : SignalState → Prop := fun u =>
    u.Kept ∧ (u.owner = none ∨ u.owner = some thread) ∧ u.main = s.main ∧
      (u.frames thread = [] → u.Answered)
  have hstep : ∀ u, inv u → ¬ u.frames thread = [] → ∃ a v, a = .handle thread ∧ Guarded u a v ∧
      inv v ∧ v.toEnd thread < u.toEnd thread := by
    intro u hu hn
    obtain ⟨hk, howner, hmain, _⟩ := hu
    obtain ⟨v, hacts, hsame, hafter, hlt, hanswered⟩ := hk.goesOn howner hn
    have hguarded := guarded_of_acts hacts rfl
    exact ⟨_, v, rfl, hguarded, ⟨hk.step hguarded, hafter, hsame.trans hmain, hanswered⟩, hlt⟩
  have hstart : inv s := ⟨h, ho, rfl, fun he => absurd he hf⟩
  obtain ⟨as, t, has, hle, hrun, ⟨_, _, hmain, hanswered⟩, hnil⟩ :=
    Run.to_final (fun u => u.toEnd thread) hstep hstart
  exact ⟨as, t, has, Nat.le_trans hle (s.toEnd_le thread), hrun, hmain, hnil, hanswered hnil⟩

theorem Kept.waits (h : s.Kept) (hw : s.workers i = .waiting) :
    s.monitor.waiters[i]? = some .woken ∨ s.monitor.queue.shutdown = false ∧
      s.monitor.queue.contents.length ≤ s.monitor.waiters.count .woken := by
  obtain ⟨w, hi⟩ : ∃ w, s.monitor.waiters[i]? = some w :=
    ⟨_, List.getElem?_eq_getElem (h.linked.present hw nofun)⟩
  have hplace := h.linked.place i w hi
  rw [hw] at hplace
  cases w with
  | running => exact absurd rfl hplace
  | woken => exact .inl hi
  | blocked =>
    have hmem := ListUpdate.mem_of_getElem? hi
    refine .inr ⟨?_, ?_⟩
    · rw [Bool.eq_false_iff]
      exact fun hs => h.wakeups.closed hs hmem
    · rw [SocketQueue.length_contents]
      exact h.wakeups.awake hmem

end SignalState

open SignalState

end Httpd
