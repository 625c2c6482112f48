import Httpd.Lib.Fifo
import Httpd.Lib.RingBuffer
import Httpd.Lib.Transition

namespace Httpd
open Transition
set_option autoImplicit true

abbrev Fd := Int

inductive QueueResult where
  | ok
  | full
  | closed
  deriving DecidableEq

structure SocketQueue where
  items : List Fd
  capacity : Nat
  head : Nat
  tail : Nat
  count : Nat
  shutdown : Bool
  deriving DecidableEq

/-- `created` says that the allocations and the mutex and condition initialisers succeed. -/
def socketQueueInit (capacity : Nat) (created : Bool) : Option SocketQueue :=
  if capacity = 0 ∨ !created then none
  else some ⟨List.replicate capacity 0, capacity, 0, 0, 0, false⟩

def socketQueueEnqueue (queue : SocketQueue) (clientFd : Fd) : QueueResult × SocketQueue :=
  if queue.shutdown then (.closed, queue)
  else if queue.count = queue.capacity then (.full, queue)
  else (.ok, { queue with
    items := queue.items.set queue.tail clientFd
    tail := (queue.tail + 1) % queue.capacity
    count := queue.count + 1 })

/-- One pass of `socket_queue_dequeue` through its critical section. -/
inductive DequeueResult where
  | wait
  | closed
  | took (clientFd : Fd) (queue : SocketQueue)
  deriving DecidableEq

def socketQueueDequeue (queue : SocketQueue) : DequeueResult :=
  if queue.count = 0 ∧ !queue.shutdown then .wait
  else if queue.count = 0 ∧ queue.shutdown then .closed
  else .took (queue.items.getD queue.head 0) { queue with
    head := (queue.head + 1) % queue.capacity
    count := queue.count - 1 }

def socketQueueShutdown (queue : SocketQueue) : SocketQueue := { queue with shutdown := true }

namespace SocketQueue

def contents (q : SocketQueue) : List Fd :=
  RingBuffer.window q.items q.capacity q.head q.count

/-- What links the indices of a circular buffer to each other and to its capacity. -/
structure Valid (q : SocketQueue) : Prop where
  pos : 0 < q.capacity
  size : q.items.length = q.capacity
  head_lt : q.head < q.capacity
  count_le : q.count ≤ q.capacity
  tail_eq : q.tail = (q.head + q.count) % q.capacity

theorem Valid.tail_lt {q : SocketQueue} (h : q.Valid) : q.tail < q.capacity := by
  rw [h.tail_eq]
  exact Nat.mod_lt _ h.pos

theorem length_contents (q : SocketQueue) : q.contents.length = q.count :=
  RingBuffer.window_length ..

theorem contents_eq_nil (q : SocketQueue) : q.contents = [] ↔ q.count = 0 :=
  RingBuffer.window_eq_nil ..

def toFifo (q : SocketQueue) : Fifo Fd := ⟨q.capacity, q.contents, q.shutdown⟩

end SocketQueue

theorem socketQueueInit_eq {q : SocketQueue} (h : socketQueueInit c created = some q) :
    0 < c ∧ q = ⟨List.replicate c 0, c, 0, 0, 0, false⟩ := by
  unfold socketQueueInit at h
  by_cases hc : c = 0 ∨ !created
  · rw [if_pos hc] at h
    cases h
  · rw [if_neg hc, Option.some.injEq] at h
    exact ⟨Nat.pos_of_ne_zero fun h₀ => hc (.inl h₀), h.symm⟩

theorem socketQueueInit_valid {q : SocketQueue} (h : socketQueueInit c created = some q) :
    q.Valid ∧ q.capacity = c ∧ q.toFifo = Fifo.empty c := by
  obtain ⟨hc, rfl⟩ := socketQueueInit_eq h
  exact ⟨⟨hc, List.length_replicate, hc, Nat.zero_le c, (Nat.zero_mod c).symm⟩, rfl, rfl⟩

theorem socketQueueEnqueue_cases {q : SocketQueue} (hq : q.Valid) (fd : Fd) :
    (q.shutdown = true ∧ socketQueueEnqueue q fd = (.closed, q)) ∨
    (q.shutdown = false ∧ q.contents.length = q.capacity ∧
      socketQueueEnqueue q fd = (.full, q)) ∨
    (q.shutdown = false ∧ q.contents.length < q.capacity ∧
      ∃ q', socketQueueEnqueue q fd = (.ok, q') ∧ q'.Valid ∧ q'.capacity = q.capacity ∧
        q'.shutdown = false ∧ q'.count = q.count + 1 ∧ q'.contents = q.contents ++ [fd]) := by
  obtain ⟨hpos, hsize, hhead, hcount, htail⟩ := hq
  rw [q.length_contents]
  unfold socketQueueEnqueue
  by_cases hs : q.shutdown = true
  · exact .inl ⟨hs, if_pos hs⟩
  refine .inr ?_
  rw [if_neg hs]
  have hs' : q.shutdown = false := Bool.eq_false_iff.2 hs
  by_cases hf : q.count = q.capacity
  · exact .inl ⟨hs', hf, if_pos hf⟩
  have hlt : q.count < q.capacity := Nat.lt_of_le_of_ne hcount hf
  rw [if_neg hf]
  refine .inr ⟨hs', hlt, _, rfl, ?_, rfl, hs', rfl, ?_⟩
  · refine ⟨hpos, by rw [List.length_set]; exact hsize, hhead, hlt, ?_⟩
    simp only [htail]
    exact RingBuffer.tail_push
  · simp only [SocketQueue.contents, htail]
    exact RingBuffer.window_push q.items fd hsize hlt

theorem socketQueueDequeue_cases {q : SocketQueue} (hq : q.Valid) :
    (q.contents = [] ∧ q.shutdown = false ∧ socketQueueDequeue q = .wait) ∨
    (q.contents = [] ∧ q.shutdown = true ∧ socketQueueDequeue q = .closed) ∨
    ∃ fd q', socketQueueDequeue q = .took fd q' ∧ q'.Valid ∧ q'.capacity = q.capacity ∧
      q'.shutdown = q.shutdown ∧ q.count = q'.count + 1 ∧ q.contents = fd :: q'.contents := by
  obtain ⟨hpos, hsize, hhead, hcount, htail⟩ := hq
  unfold socketQueueDequeue
  by_cases hn : q.count = 0
  · have hc : q.contents = [] := q.contents_eq_nil.2 hn
    cases hs : q.shutdown with
    | true => exact .inr (.inl ⟨hc, rfl, by simp only [hn]; rfl⟩)
    | false => exact .inl ⟨hc, rfl, by simp only [hn]; rfl⟩
  obtain ⟨n, hn'⟩ := Nat.exists_eq_succ_of_ne_zero hn
  rw [if_neg fun h => hn h.1, if_neg fun h => hn h.1]
  refine .inr (.inr ⟨_, _, rfl, ?_, rfl, rfl, by simp only; omega, ?_⟩)
  · refine ⟨hpos, hsize, Nat.mod_lt _ hpos, by simp only; omega, ?_⟩
    simp only [htail, hn', Nat.succ_eq_add_one, Nat.add_sub_cancel]
    exact RingBuffer.tail_pop
  · simp only [SocketQueue.contents, hn', Nat.succ_eq_add_one, RingBuffer.window_pop,
      Nat.add_sub_cancel, Nat.mod_eq_of_lt hhead]
    rfl

theorem socketQueueShutdown_valid {q : SocketQueue} (hq : q.Valid) :
    (socketQueueShutdown q).Valid :=
  ⟨hq.pos, hq.size, hq.head_lt, hq.count_le, hq.tail_eq⟩

namespace SocketQueue

def reply : QueueResult → Fifo.Reply Fd
  | .ok => .ok
  | .full => .full
  | .closed => .closed

def serve (q : SocketQueue) : Fifo.Call Fd → Option (Fifo.Reply Fd × SocketQueue)
  | .push fd => some (reply (socketQueueEnqueue q fd).1, (socketQueueEnqueue q fd).2)
  | .pop =>
    match socketQueueDequeue q with
    | .wait => none
    | .closed => some (.closed, q)
    | .took fd q' => some (.item fd, q')
  | .close => some (.ok, socketQueueShutdown q)

def Step (q : SocketQueue) (e : Fifo.Call Fd × Fifo.Reply Fd) (q' : SocketQueue) : Prop :=
  q.serve e.1 = some (e.2, q')

theorem serve_toFifo {q : SocketQueue} (hq : q.Valid) (call : Fifo.Call Fd) :
    q.toFifo.serve call = (q.serve call).map fun p => (p.1, p.2.toFifo) := by
  cases call with
  | push fd =>
    obtain ⟨hs, he⟩ | ⟨hs, hl, he⟩ | ⟨hs, hl, q', he, _, hc, hs', _, hq'⟩ :=
      socketQueueEnqueue_cases hq fd
    · simp only [Fifo.serve, serve, toFifo, he, hs, ↓reduceIte, Option.map_some, reply]
    · simp only [Fifo.serve, serve, toFifo, he, hs, hl, Bool.false_eq_true, ↓reduceIte,
        Option.map_some, reply]
    · simp only [Fifo.serve, serve, toFifo, he, hs, Nat.ne_of_lt hl, Bool.false_eq_true,
        ↓reduceIte, Option.map_some, reply, hc, hs', hq']
  | pop =>
    obtain ⟨hc, hs, he⟩ | ⟨hc, hs, he⟩ | ⟨fd, q', he, _, hcap, hs, _, hc⟩ :=
      socketQueueDequeue_cases hq
    · simp only [Fifo.serve, serve, toFifo, he, hc, hs, Bool.false_eq_true, ↓reduceIte,
        Option.map_none]
    · simp only [Fifo.serve, serve, toFifo, he, hc, hs, ↓reduceIte, Option.map_some]
    · simp only [Fifo.serve, serve, toFifo, he, hc, hs, hcap, Option.map_some]
  | close => rfl

theorem Step.valid {q q' : SocketQueue} (hq : q.Valid) (h : q.Step e q') :
    q'.Valid ∧ q'.capacity = q.capacity := by
  obtain ⟨call, rep⟩ := e
  cases call with
  | push fd =>
    simp only [Step, serve, Option.some.injEq, Prod.mk.injEq] at h
    obtain ⟨_, he⟩ | ⟨_, _, he⟩ | ⟨_, _, q₁, he, hv, hc, _⟩ := socketQueueEnqueue_cases hq fd
    · rw [he] at h
      exact h.2 ▸ ⟨hq, rfl⟩
    · rw [he] at h
      exact h.2 ▸ ⟨hq, rfl⟩
    · rw [he] at h
      exact h.2 ▸ ⟨hv, hc⟩
  | pop =>
    obtain ⟨_, _, he⟩ | ⟨_, _, he⟩ | ⟨fd, q₁, he, hv, hc, _⟩ := socketQueueDequeue_cases hq
    · simp only [Step, serve, he, reduceCtorEq] at h
    · simp only [Step, serve, he, Option.some.injEq, Prod.mk.injEq] at h
      exact h.2 ▸ ⟨hq, rfl⟩
    · simp only [Step, serve, he, Option.some.injEq, Prod.mk.injEq] at h
      exact h.2 ▸ ⟨hv, hc⟩
  | close =>
    simp only [Step, serve, Option.some.injEq, Prod.mk.injEq] at h
    exact h.2 ▸ ⟨socketQueueShutdown_valid hq, rfl⟩

theorem Step.toFifo {q q' : SocketQueue} (hq : q.Valid) (h : q.Step e q') :
    q.toFifo.Step e q'.toFifo := by
  unfold Fifo.Step
  rw [serve_toFifo hq, h, Option.map_some]

theorem run_refines {q q' : SocketQueue} (hq : q.Valid) (h : Run Step q es q') :
    q'.Valid ∧ q'.capacity = q.capacity ∧ Run Fifo.Step q.toFifo es q'.toFifo := by
  induction h with
  | nil => exact ⟨hq, rfl, .nil _⟩
  | cons hs _ ih =>
    obtain ⟨hv, hc⟩ := hs.valid hq
    obtain ⟨hv', hc', hr⟩ := ih hv
    exact ⟨hv', hc'.trans hc, .cons (hs.toFifo hq) hr⟩

theorem dequeue_closed_iff {q : SocketQueue} (hq : q.Valid) :
    socketQueueDequeue q = .closed ↔ q.toFifo.Finished := by
  unfold Fifo.Finished toFifo
  obtain ⟨hc, hs, he⟩ | ⟨hc, hs, he⟩ | ⟨fd, q', he, _, _, _, _, hc⟩ :=
    socketQueueDequeue_cases hq
  · simp only [he, hs, reduceCtorEq, Bool.false_eq_true, and_false]
  · simp only [he, hc, hs, and_self]
  · simp only [he, hc, reduceCtorEq, false_and]

theorem closed_forever {q q' : SocketQueue} (hq : q.Valid) (hd : socketQueueDequeue q = .closed)
    (h : Run Step q es q') : socketQueueDequeue q' = .closed := by
  obtain ⟨hv, _, hr⟩ := run_refines hq h
  rw [dequeue_closed_iff hq] at hd
  rw [dequeue_closed_iff hv]
  exact hr.invariant (fun _ _ _ hf hs => hf.step hs) hd

end SocketQueue

/-- From creation on, the circular buffer is a bounded closable FIFO: its indices stay linked,
its runs are runs of the abstract queue with the same answers, and each operation does at every
reachable state what the queue of descriptors it holds calls for. -/
theorem socketQueue_simulates_fifo (c : Nat) (q₀ : SocketQueue)
    (h₀ : socketQueueInit c true = some q₀) (es : List (Fifo.Call Fd × Fifo.Reply Fd))
    (q : SocketQueue) (hrun : Run SocketQueue.Step q₀ es q) :
    (q.head < c ∧ q.tail < c ∧ q.count ≤ c ∧ q.tail = (q.head + q.count) % c) ∧
    (∃ f : Fifo Fd, Run Fifo.Step (Fifo.empty c) es f ∧
      f.items = q.contents ∧ f.closed = q.shutdown ∧
      ∀ call, f.serve call = (q.serve call).map fun p => (p.1, p.2.toFifo)) ∧
    (∀ fd, (socketQueueEnqueue q fd).1 =
        (if q.shutdown then .closed else if q.contents.length = c then .full else .ok) ∧
      ((socketQueueEnqueue q fd).1 ≠ .ok → (socketQueueEnqueue q fd).2 = q) ∧
      ((socketQueueEnqueue q fd).1 = .ok →
        (socketQueueEnqueue q fd).2.contents = q.contents ++ [fd] ∧
        (socketQueueEnqueue q fd).2.shutdown = q.shutdown)) ∧
    (∀ fd rest, q.contents = fd :: rest →
      ∃ q', socketQueueDequeue q = .took fd q' ∧ q'.contents = rest ∧
        q'.shutdown = q.shutdown) ∧
    (socketQueueDequeue q = .closed ↔ q.shutdown = true ∧ q.contents = []) ∧
    (socketQueueDequeue q = .closed →
      ∀ es' q', Run SocketQueue.Step q es' q' → socketQueueDequeue q' = .closed) := by
  obtain ⟨hv₀, hc₀, hf₀⟩ := socketQueueInit_valid h₀
  obtain ⟨hv, hc, hr⟩ := SocketQueue.run_refines hv₀ hrun
  rw [hc₀] at hc
  rw [hf₀] at hr
  refine ⟨?_, ⟨q.toFifo, hr, rfl, rfl, SocketQueue.serve_toFifo hv⟩, ?_, ?_, ?_, ?_⟩
  · rw [← hc]
    exact ⟨hv.head_lt, hv.tail_lt, hv.count_le, hv.tail_eq⟩
  · intro fd
    rw [← hc]
    obtain ⟨hs, he⟩ | ⟨hs, hl, he⟩ | ⟨hs, hl, q', he, _, _, hs', _, hq'⟩ :=
      socketQueueEnqueue_cases hv fd
    · simp [he, hs]
    · simp [he, hs, hl]
    · simp [he, hs, Nat.ne_of_lt hl, hs', hq']
  · intro fd rest hcons
    obtain ⟨hn, _⟩ | ⟨hn, _⟩ | ⟨fd', q', he, _, _, hs', _, hq'⟩ := socketQueueDequeue_cases hv
    · rw [hn] at hcons
      cases hcons
    · rw [hn] at hcons
      cases hcons
    · rw [hq', List.cons.injEq] at hcons
      exact ⟨q', hcons.1 ▸ he, hcons.2, hs'⟩
  · rw [SocketQueue.dequeue_closed_iff hv]
    exact and_comm
  · exact fun hd es' q' h => SocketQueue.closed_forever hv hd h

theorem socketQueue_simulates_fifo_two : ∃ q : SocketQueue,
    (∃ f : Fifo Fd, f.items = q.contents) ∧ q.contents = [12] ∧ q.tail = (q.head + q.count) % 2 :=
  let calls : List (Fifo.Call Fd × Fifo.Reply Fd) :=
    [(.push 10, .ok), (.push 11, .ok), (.push 12, .full), (.pop, .item 10), (.push 12, .ok),
      (.close, .ok), (.push 13, .closed), (.pop, .item 11)]
  let q : SocketQueue := ⟨[12, 11], 2, 0, 1, 1, true⟩
  have hrun : Run SocketQueue.Step ⟨[0, 0], 2, 0, 0, 0, false⟩ calls q :=
    .cons rfl (.cons rfl (.cons rfl (.cons rfl (.cons rfl (.cons rfl (.cons rfl (.cons rfl (.nil _))))))))
  have h := socketQueue_simulates_fifo 2 _ rfl calls q hrun
  ⟨q, h.2.1.imp fun _ hf => hf.2.1, rfl, h.1.2.2.2⟩

end Httpd
