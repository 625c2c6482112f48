import Httpd.Lib.ConditionVariable
import Httpd.Lib.ListUpdate
import Httpd.SocketQueue

namespace Httpd
open ConditionVariable ListUpdate Transition
set_option autoImplicit true

/-- The queue with its condition variable `not_empty`; every critical section is one step. -/
structure QueueMonitor where
  queue : SocketQueue
  waiters : List Waiter
  deriving DecidableEq

namespace QueueMonitor

/-- `socket_queue_enqueue`; `mask` tells which threads its signal wakes. -/
def enqueue (m : QueueMonitor) (clientFd : Fd) (mask : List Bool) :
    Option (QueueResult × QueueMonitor) :=
  match socketQueueEnqueue m.queue clientFd with
  | (.ok, queue) => (signal mask m.waiters).map fun waiters => (.ok, ⟨queue, waiters⟩)
  | (result, queue) => some (result, { m with queue := queue })

/-- Thread `i` enters `socket_queue_dequeue`, or wakes in it and has the mutex again. -/
def dequeue (m : QueueMonitor) (i : Nat) : Option (DequeueResult × QueueMonitor) :=
  if m.waiters[i]? = some .running ∨ m.waiters[i]? = some .woken then
    match socketQueueDequeue m.queue with
    | .wait => some (.wait, { m with waiters := m.waiters.set i .blocked })
    | .closed => some (.closed, { m with waiters := m.waiters.set i .running })
    | .took fd queue => some (.took fd queue, ⟨queue, m.waiters.set i .running⟩)
  else none

def shutdown (m : QueueMonitor) : QueueMonitor :=
  ⟨socketQueueShutdown m.queue, broadcast m.waiters⟩

def wakeUp (m : QueueMonitor) (i : Nat) : Option QueueMonitor :=
  if m.waiters[i]? = some .blocked then some { m with waiters := m.waiters.set i .woken } else none

inductive Action where
  | enqueue (clientFd : Fd) (mask : List Bool)
  | dequeue (i : Nat)
  | shutdown
  | wakeUp (i : Nat)
  deriving DecidableEq

def next (m : QueueMonitor) : Action → Option QueueMonitor
  | .enqueue clientFd mask => (m.enqueue clientFd mask).map Prod.snd
  | .dequeue i => (m.dequeue i).map Prod.snd
  | .shutdown => some m.shutdown
  | .wakeUp i => m.wakeUp i

def Step (m : QueueMonitor) (a : Action) (m' : QueueMonitor) : Prop := m.next a = some m'

/-- Nobody sleeps while there is more to do than the woken threads will do, and nobody sleeps
after the shutdown. -/
structure NoLostWakeup (m : QueueMonitor) : Prop where
  awake : .blocked ∈ m.waiters → m.queue.count ≤ m.waiters.count .woken
  closed : m.queue.shutdown = true → .blocked ∉ m.waiters

theorem socketQueueEnqueue_count (q : SocketQueue) (fd : Fd) :
    (∃ q', socketQueueEnqueue q fd = (.ok, q') ∧ q.shutdown = false ∧ q'.shutdown = false ∧
        q'.count = q.count + 1) ∨
      socketQueueEnqueue q fd = (.full, q) ∨ socketQueueEnqueue q fd = (.closed, q) := by
  unfold socketQueueEnqueue
  by_cases hs : q.shutdown = true
  · exact .inr (.inr (if_pos hs))
  rw [if_neg hs]
  by_cases hf : q.count = q.capacity
  · exact .inr (.inl (if_pos hf))
  · rw [if_neg hf]
    exact .inl ⟨_, rfl, Bool.eq_false_iff.2 hs, Bool.eq_false_iff.2 hs, rfl⟩

theorem socketQueueDequeue_count (q : SocketQueue) :
    (socketQueueDequeue q = .wait ∧ q.count = 0 ∧ q.shutdown = false) ∨
      (socketQueueDequeue q = .closed ∧ q.count = 0 ∧ q.shutdown = true) ∨
      ∃ fd q', socketQueueDequeue q = .took fd q' ∧ q'.shutdown = q.shutdown ∧
        q.count = q'.count + 1 := by
  unfold socketQueueDequeue
  cases hc : q.count with
  | zero =>
    cases hs : q.shutdown with
    | true => exact .inr (.inl ⟨rfl, rfl, rfl⟩)
    | false => exact .inl ⟨rfl, rfl, rfl⟩
  | succ n => exact .inr (.inr ⟨_, _, rfl, rfl, rfl⟩)

variable {m m' : QueueMonitor}

theorem enqueue_queue (hq : m.queue.Valid) (h : m.enqueue fd mask = some (result, m')) :
    m'.queue.Valid ∧ m'.queue.capacity = m.queue.capacity ∧
      m'.queue.shutdown = m.queue.shutdown ∧
      ((result = .ok ∧ m.queue.shutdown = false ∧
          m'.queue.contents = m.queue.contents ++ [fd]) ∨
        (result ≠ .ok ∧ m'.queue.contents = m.queue.contents)) := by
  simp only [enqueue] at h
  obtain ⟨_, he⟩ | ⟨_, _, he⟩ | ⟨hs, _, q', he, hv, hc, hs', _, hq'⟩ :=
    socketQueueEnqueue_cases hq fd
  · rw [he] at h
    cases h
    exact ⟨hq, rfl, rfl, .inr ⟨nofun, rfl⟩⟩
  · rw [he] at h
    cases h
    exact ⟨hq, rfl, rfl, .inr ⟨nofun, rfl⟩⟩
  · rw [he] at h
    obtain ⟨waiters, _, hp⟩ := Option.map_eq_some_iff.1 h
    cases hp
    exact ⟨hv, hc, hs'.trans hs.symm, .inl ⟨rfl, hs, hq'⟩⟩

theorem enqueue_refuses (hq : m.queue.Valid) (h : m.enqueue fd mask = some (result, m')) :
    (result = .full → m.queue.contents.length = m.queue.capacity) ∧
      (result = .closed → m.queue.shutdown = true) := by
  simp only [enqueue] at h
  obtain ⟨hs, he⟩ | ⟨_, hl, he⟩ | ⟨_, _, q', he, _⟩ := socketQueueEnqueue_cases hq fd
  · rw [he] at h
    cases h
    exact ⟨nofun, fun _ => hs⟩
  · rw [he] at h
    cases h
    exact ⟨fun _ => hl, nofun⟩
  · rw [he] at h
    obtain ⟨waiters, _, hp⟩ := Option.map_eq_some_iff.1 h
    cases hp
    exact ⟨nofun, nofun⟩

theorem enqueue_shutdown (fd : Fd) (mask : List Bool) (hs : m.queue.shutdown = true) :
    m.enqueue fd mask = some (.closed, m) := by
  simp only [enqueue, socketQueueEnqueue, hs, if_true]

theorem dequeue_queue (hq : m.queue.Valid) (h : m.dequeue i = some (result, m')) :
    m'.queue.Valid ∧ m'.queue.capacity = m.queue.capacity ∧
      m'.queue.shutdown = m.queue.shutdown ∧
      ((result = .wait ∧ m'.queue.contents = m.queue.contents) ∨
        (result = .closed ∧ m.queue.shutdown = true ∧ m.queue.contents = [] ∧
          m'.queue.contents = m.queue.contents) ∨
        ∃ fd q, result = .took fd q ∧ m.queue.contents = fd :: m'.queue.contents) := by
  simp only [dequeue] at h
  split at h
  · obtain ⟨_, _, he⟩ | ⟨hc, hs, he⟩ | ⟨fd, q', he, hv, hcap, hs, _, hc⟩ :=
      socketQueueDequeue_cases hq
    · rw [he] at h
      cases h
      exact ⟨hq, rfl, rfl, .inl ⟨rfl, rfl⟩⟩
    · rw [he] at h
      cases h
      exact ⟨hq, rfl, rfl, .inr (.inl ⟨rfl, hs, hc, rfl⟩)⟩
    · rw [he] at h
      cases h
      exact ⟨hv, hcap, hs, .inr (.inr ⟨fd, q', rfl, hc⟩)⟩
  · cases h

theorem wakeUp_queue (h : m.wakeUp i = some m') : m'.queue = m.queue := by
  simp only [wakeUp] at h
  split at h
  · cases h
    rfl
  · cases h

theorem dequeue_outcome (h : m.dequeue i = some (result, m')) :
    m'.waiters.length = m.waiters.length ∧ m'.queue.shutdown = m.queue.shutdown ∧
      ((result = .wait ∧ m.queue.shutdown = false) ∨
        (result = .closed ∧ m.queue.shutdown = true ∧ m'.queue.count = m.queue.count) ∨
        ∃ fd q, result = .took fd q ∧ m.queue.count = m'.queue.count + 1) := by
  simp only [dequeue] at h
  split at h
  · obtain ⟨he, _, hs⟩ | ⟨he, _, hs⟩ | ⟨fd, q', he, hs, hc⟩ := socketQueueDequeue_count m.queue
    · rw [he] at h
      cases h
      exact ⟨List.length_set, rfl, .inl ⟨rfl, hs⟩⟩
    · rw [he] at h
      cases h
      exact ⟨List.length_set, rfl, .inr (.inl ⟨rfl, hs, rfl⟩)⟩
    · rw [he] at h
      cases h
      exact ⟨List.length_set, hs, .inr (.inr ⟨fd, q', rfl, hc⟩)⟩
  · cases h

theorem dequeue_enabled (hi : i < m.waiters.length) (hb : m.waiters[i]? ≠ some .blocked) :
    ∃ result m', m.dequeue i = some (result, m') := by
  have hw : m.waiters[i]? = some .running ∨ m.waiters[i]? = some .woken := by
    rw [List.getElem?_eq_getElem hi] at hb ⊢
    cases he : m.waiters[i] with
    | running => exact .inl rfl
    | blocked => exact absurd (congrArg some he) hb
    | woken => exact .inr rfl
  simp only [dequeue, if_pos hw]
  cases socketQueueDequeue m.queue with
  | wait => exact ⟨_, _, rfl⟩
  | closed => exact ⟨_, _, rfl⟩
  | took fd q => exact ⟨_, _, rfl⟩

theorem enqueue_outcome (h : m.enqueue fd mask = some (result, m')) :
    m'.waiters.length = m.waiters.length ∧ m'.queue.shutdown = m.queue.shutdown ∧
      (m.queue.shutdown = true → m'.queue.count = m.queue.count) := by
  simp only [enqueue] at h
  obtain ⟨q', he, hopen, hopen', _⟩ | he | he := socketQueueEnqueue_count m.queue fd
  · rw [he] at h
    obtain ⟨waiters, hw, hp⟩ := Option.map_eq_some_iff.1 h
    cases hp
    exact ⟨signal_length hw, hopen'.trans hopen.symm, fun hs => absurd hs (hopen ▸ nofun)⟩
  · rw [he] at h
    cases h
    exact ⟨rfl, rfl, fun _ => rfl⟩
  · rw [he] at h
    cases h
    exact ⟨rfl, rfl, fun _ => rfl⟩

theorem wakeUp_waiters (h : m.wakeUp i = some m') : m'.waiters.length = m.waiters.length := by
  simp only [wakeUp] at h
  split at h
  · cases h
    exact List.length_set
  · cases h

theorem NoLostWakeup.enqueue (h : m.NoLostWakeup) (hs : m.enqueue fd mask = some (result, m')) :
    m'.NoLostWakeup := by
  unfold QueueMonitor.enqueue at hs
  obtain ⟨q', he, _, hopen, hcount⟩ | he | he := socketQueueEnqueue_count m.queue fd
  · rw [he] at hs
    obtain ⟨waiters, hw, hp⟩ := Option.map_eq_some_iff.1 hs
    cases hp
    constructor
    · intro hb
      obtain ⟨hmem, hwoken⟩ := signal_woken hw hb
      have hawake := h.awake hmem
      rw [hcount]
      exact Nat.le_trans (Nat.succ_le_succ hawake) hwoken
    · intro hc
      rw [hopen] at hc
      cases hc
  · rw [he] at hs
    cases hs
    exact h
  · rw [he] at hs
    cases hs
    exact h

theorem NoLostWakeup.dequeue (h : m.NoLostWakeup) (hs : m.dequeue i = some (result, m')) :
    m'.NoLostWakeup := by
  unfold QueueMonitor.dequeue at hs
  split at hs
  · rename_i hw
    obtain ⟨he, hcount, hopen⟩ | ⟨he, hcount, hclosed⟩ | ⟨fd, q', he, hsame, hcount⟩ :=
      socketQueueDequeue_count m.queue
    · rw [he] at hs
      cases hs
      constructor
      · intro _
        rw [hcount]
        exact Nat.zero_le _
      · intro hc
        rw [hopen] at hc
        cases hc
    · rw [he] at hs
      cases hs
      constructor
      · intro _
        rw [hcount]
        exact Nat.zero_le _
      · intro hc hb
        exact h.closed hc (mem_set_of_ne hb nofun)
    · rw [he] at hs
      cases hs
      constructor
      · intro hb
        have hawake := h.awake (mem_set_of_ne hb nofun)
        rcases hw with hw | hw
        · have hset := count_set hw .running .woken
          simp only [reduceCtorEq, if_false] at hset
          change q'.count ≤ (m.waiters.set i .running).count .woken
          omega
        · have hset := count_set hw .running .woken
          simp only [reduceCtorEq, if_true, if_false] at hset
          change q'.count ≤ (m.waiters.set i .running).count .woken
          omega
      · intro hc hb
        exact h.closed (hsame ▸ hc) (mem_set_of_ne hb nofun)
  · cases hs

theorem NoLostWakeup.shutdown (m : QueueMonitor) : m.shutdown.NoLostWakeup :=
  ⟨fun hb => absurd hb (broadcast_blocked m.waiters), fun _ => broadcast_blocked m.waiters⟩

theorem NoLostWakeup.wakeUp (h : m.NoLostWakeup) (hs : m.wakeUp i = some m') :
    m'.NoLostWakeup := by
  unfold QueueMonitor.wakeUp at hs
  split at hs
  · rename_i hw
    cases hs
    constructor
    · intro hb
      have hawake := h.awake (mem_set_of_ne hb nofun)
      have hset := count_set hw .woken .woken
      simp only [reduceCtorEq, if_true, if_false] at hset
      change m.queue.count ≤ (m.waiters.set i .woken).count .woken
      omega
    · intro hc hb
      exact h.closed hc (mem_set_of_ne hb nofun)
  · cases hs

theorem NoLostWakeup.step (h : m.NoLostWakeup) (hs : Step m a m') : m'.NoLostWakeup := by
  cases a with
  | enqueue fd mask =>
    obtain ⟨⟨result, after⟩, he, hp⟩ := Option.map_eq_some_iff.1 hs
    cases hp
    exact h.enqueue he
  | dequeue i =>
    obtain ⟨⟨result, after⟩, he, hp⟩ := Option.map_eq_some_iff.1 hs
    cases hp
    exact h.dequeue he
  | shutdown =>
    cases hs
    exact .shutdown m
  | wakeUp i => exact h.wakeUp hs

def addThread (m : QueueMonitor) : QueueMonitor := { m with waiters := m.waiters ++ [.running] }

theorem NoLostWakeup.addThread (h : m.NoLostWakeup) : m.addThread.NoLostWakeup := by
  have hb : .blocked ∈ m.addThread.waiters → .blocked ∈ m.waiters := by
    intro hb
    cases List.mem_append.1 hb with
    | inl hb => exact hb
    | inr hb => cases List.mem_singleton.1 hb
  constructor
  · intro hmem
    apply Nat.le_trans (h.awake (hb hmem))
    exact (List.sublist_append_left _ _).count_le _
  · intro hs hmem
    exact h.closed hs (hb hmem)

def initial (queue : SocketQueue) (threads : Nat) : QueueMonitor :=
  ⟨queue, List.replicate threads .running⟩

theorem initial_noLostWakeup (queue : SocketQueue) (threads : Nat) :
    (initial queue threads).NoLostWakeup := by
  have hb : .blocked ∉ List.replicate threads Waiter.running := by
    intro h
    cases List.eq_of_mem_replicate h
  exact ⟨fun h => absurd h hb, fun _ => hb⟩

end QueueMonitor

/-- No wake-up is lost: from a queue nobody sleeps on, in every state some run reaches, if a thread
sleeps in `socket_queue_dequeue` then at least as many threads as there are queued descriptors have
been woken and have yet to take the mutex, and after the shutdown no thread sleeps. -/
theorem socketQueue_no_lost_wakeup (threads : Nat) (queue : SocketQueue)
    (as : List QueueMonitor.Action) (m : QueueMonitor)
    (hrun : Run QueueMonitor.Step (.initial queue threads) as m) :
    (.blocked ∈ m.waiters → m.queue.contents.length ≤ m.waiters.count .woken) ∧
      (m.queue.shutdown = true → .blocked ∉ m.waiters) := by
  have h : m.NoLostWakeup :=
    hrun.invariant (fun _ _ _ hi hs => hi.step hs) (QueueMonitor.initial_noLostWakeup queue threads)
  rw [m.queue.length_contents]
  exact ⟨h.awake, h.closed⟩

theorem socketQueue_no_lost_wakeup_two :
    (SocketQueue.contents ⟨[7, 0], 2, 0, 1, 1, false⟩).length ≤
      [Waiter.blocked, .woken].count .woken :=
  (socketQueue_no_lost_wakeup 2 ⟨[0, 0], 2, 0, 0, 0, false⟩
    [.dequeue 0, .dequeue 1, .enqueue 7 [false, true]]
    ⟨⟨[7, 0], 2, 0, 1, 1, false⟩, [.blocked, .woken]⟩
    (.cons rfl (.cons rfl (.cons rfl (.nil _))))).1 List.mem_cons_self

end Httpd
