import Httpd.Lib.Ledger
import Httpd.ResponseSequence
import Httpd.Server

namespace Httpd
open ListUpdate Transition
set_option autoImplicit true

def MainPc.owned : MainPc → List Fd
  | .enqueuing clientFd => [clientFd]
  | .refusing clientFd _ => [clientFd]
  | _ => []

def WorkerPc.owned : WorkerPc → List Fd
  | .handling clientFd _ => [clientFd]
  | _ => []

/-- The calls still to be made on a socket end with the one `close` of it. -/
def ClosesLast (rest : List SocketEvent) : Prop :=
  ∃ before, rest = before ++ [.closed] ∧ .closed ∉ before

def MainPc.ClosesLast : MainPc → Prop
  | .refusing _ rest => Httpd.ClosesLast rest
  | _ => True

def WorkerPc.ClosesLast : WorkerPc → Prop
  | .handling _ rest => Httpd.ClosesLast rest
  | _ => True

theorem ClosesLast.closed (h : ClosesLast (.closed :: rest)) : rest = [] := by
  obtain ⟨before, hb, hc⟩ := h
  cases before with
  | nil => exact (List.cons.inj hb).2
  | cons e before =>
    rw [(List.cons.inj hb).1] at hc
    exact absurd List.mem_cons_self hc

theorem ClosesLast.later (h : ClosesLast (event :: rest)) (he : event ≠ .closed) :
    rest ≠ [] ∧ ClosesLast rest := by
  obtain ⟨before, hb, hc⟩ := h
  cases before with
  | nil => exact absurd (List.cons.inj hb).1 he
  | cons e before =>
    have hrest : rest = before ++ [.closed] := (List.cons.inj hb).2
    refine ⟨?_, before, hrest, fun h => hc (List.mem_cons_of_mem _ h)⟩
    rw [hrest]
    exact List.append_ne_nil_of_right_ne_nil _ (List.cons_ne_nil _ _)

theorem Connection.trace_closesLast (c : Connection) : ClosesLast c.trace := by
  refine ⟨(handleClient c).flatMap Turn.events, rfl, fun h => ?_⟩
  obtain ⟨turn, ht, he⟩ := List.mem_flatMap.1 h
  rcases clientLoop_events ht _ he with h | h <;> cases h

theorem refusal_closesLast (outcomes : List SendOutcome) : ClosesLast (refusal outcomes) := by
  refine ⟨_, rfl, fun h => ?_⟩
  have hs := (sendSimpleResponse_answers none
    (by decide : 503 < 1000) (by decide) false outcomes).sends _ h
  cases hs

/-- What each place in `server_run` knows about the threads: before a return of 0 all have been
started and joined. -/
def MainPc.Phase (n threadCount : Nat) (workers : List WorkerPc) : MainPc → Prop
  | .stopping code => code = 0 → threadCount = n
  | .joining i code => (code = 0 → threadCount = n) ∧ ∀ j < i, workers[j]? = some .exited
  | .returned code => code = 0 → ∀ j < n, workers[j]? = some .exited
  | _ => threadCount = n

theorem MainPc.Phase.mono {main : MainPc} (h : main.Phase n threadCount workers)
    (hw : ∀ j : Nat, workers[j]? = some .exited → workers'[j]? = some .exited) :
    main.Phase n threadCount workers' := by
  cases main with
  | joining i code => exact ⟨h.1, fun j hj => hw j (h.2 j hj)⟩
  | returned code => exact fun hc j hj => hw j (h hc j hj)
  | _ => exact h

namespace ServerState

def owners (s : ServerState) : List Fd :=
  s.main.owned ++ (s.monitor.queue.contents ++ s.workers.flatMap WorkerPc.owned)

/-- What every step keeps of who holds the descriptors. -/
structure Owned (c n : Nat) (s : ServerState) : Prop where
  workers : s.workers.length = n
  valid : s.monitor.queue.Valid
  capacity : s.monitor.queue.capacity = c
  ledger : Ledger s.owners s.opened s.accepted s.closed
  refusing : s.main.ClosesLast
  handling : ∀ w ∈ s.workers, w.ClosesLast

variable {s t : ServerState}

theorem Owned.toMain {main : MainPc} (h : s.Owned c n) (hs : s.main.owned = []) (hm : main.owned = [])
    (hc : main.ClosesLast) : (s.toMain main).Owned c n := by
  constructor
  · exact h.workers
  · exact h.valid
  · exact h.capacity
  · apply h.ledger.transfer
    simp only [owners, ServerState.toMain, hs, hm]
    exact .refl _
  · exact hc
  · exact h.handling

theorem Owned.setWorker (h : s.Owned c n) (hw : s.workers[i]? = some old) (ho : old.owned = [])
    (hn : new.owned = []) (hc : new.ClosesLast) : (s.setWorker i new).Owned c n := by
  constructor
  · exact List.length_set.trans h.workers
  · exact h.valid
  · exact h.capacity
  · apply h.ledger.transfer
    have hp := flatMap_set_perm hw WorkerPc.owned new
    rw [ho, hn, List.nil_append, List.nil_append] at hp
    exact (hp.append_left _).append_left _
  · exact h.refusing
  · intro w hm
    obtain hm | rfl := List.mem_or_eq_of_mem_set hm
    · exact h.handling w hm
    · exact hc

theorem Owned.mainIo (h : s.Owned c n) (hm : s.main = .refusing clientFd (event :: rest))
    (hp : s.perform clientFd event = some t) : (t.toMain (.afterIo clientFd rest)).Owned c n := by
  have hscript : Httpd.ClosesLast (event :: rest) := by
    have hr := h.refusing
    rw [hm] at hr
    exact hr
  obtain ⟨rfl, rfl⟩ | ⟨he, alive, rfl⟩ := perform_cases hp
  · cases hscript.closed
    constructor
    · exact h.workers
    · exact h.valid
    · exact h.capacity
    · apply h.ledger.release
      simp only [owners, hm]
      exact .refl _
    · trivial
    · exact h.handling
  · obtain ⟨hne, hlater⟩ := hscript.later he
    cases rest with
    | nil => exact absurd rfl hne
    | cons next rest =>
      constructor
      · exact h.workers
      · exact h.valid
      · exact h.capacity
      · apply h.ledger.transfer
        simp only [owners, ServerState.toMain, hm]
        exact .refl _
      · exact hlater
      · exact h.handling

theorem Owned.workerIo (h : s.Owned c n)
    (hw : s.workers[i]? = some (.handling clientFd (event :: rest)))
    (hp : s.perform clientFd event = some t) :
    (t.setWorker i (.afterIo clientFd rest)).Owned c n := by
  have hscript : Httpd.ClosesLast (event :: rest) := h.handling _ (mem_of_getElem? hw)
  have hset := flatMap_set_perm hw WorkerPc.owned (.afterIo clientFd rest)
  obtain ⟨rfl, rfl⟩ | ⟨he, alive, rfl⟩ := perform_cases hp
  · cases hscript.closed
    constructor
    · exact List.length_set.trans h.workers
    · exact h.valid
    · exact h.capacity
    · apply h.ledger.release
      have hrest := (hset.symm.append_left s.monitor.queue.contents).trans List.perm_middle
      exact (hrest.append_left s.main.owned).trans List.perm_middle
    · exact h.refusing
    · intro w hmem
      obtain hmem | rfl := List.mem_or_eq_of_mem_set hmem
      · exact h.handling w hmem
      · trivial
  · obtain ⟨hne, hlater⟩ := hscript.later he
    cases rest with
    | nil => exact absurd rfl hne
    | cons next rest =>
      constructor
      · exact List.length_set.trans h.workers
      · exact h.valid
      · exact h.capacity
      · apply h.ledger.transfer
        exact (hset.cons_inv.append_left _).append_left _
      · exact h.refusing
      · intro w hmem
        obtain hmem | rfl := List.mem_or_eq_of_mem_set hmem
        · exact h.handling w hmem
        · exact hlater

theorem Owned.enqueue {monitor : QueueMonitor} (h : s.Owned c n) (hm : s.main = .enqueuing clientFd)
    (he : s.monitor.enqueue clientFd mask = some (result, monitor)) :
    Owned c n { s with monitor := monitor, main := .afterEnqueue clientFd outcomes result } := by
  obtain ⟨hv, hc, _, hq⟩ := QueueMonitor.enqueue_queue h.valid he
  constructor
  · exact h.workers
  · exact hv
  · exact hc.trans h.capacity
  · apply h.ledger.transfer
    obtain ⟨rfl, _, hq⟩ | ⟨hne, hq⟩ := hq
    · simp only [owners, hm, hq, List.append_assoc]
      exact List.perm_middle
    · simp only [owners, hm, hq]
      cases result with
      | ok => exact absurd rfl hne
      | full => exact .refl _
      | closed => exact .refl _
  · cases result with
    | ok => trivial
    | full => exact refusal_closesLast outcomes
    | closed => exact ⟨[], rfl, nofun⟩
  · exact h.handling

theorem Owned.dequeue {monitor : QueueMonitor} (h : s.Owned c n)
    (hw : s.workers[i]? = some .dequeuing)
    (hd : s.monitor.dequeue i = some (result, monitor)) :
    Owned c n { s with
      monitor := monitor, workers := s.workers.set i (.afterDequeue conn result) } := by
  obtain ⟨hv, hc, _, hq⟩ := QueueMonitor.dequeue_queue h.valid hd
  have hset := flatMap_set_perm hw WorkerPc.owned (.afterDequeue conn result)
  constructor
  · exact List.length_set.trans h.workers
  · exact hv
  · exact hc.trans h.capacity
  · apply h.ledger.transfer
    obtain ⟨rfl, hq⟩ | ⟨rfl, _, _, hq⟩ | ⟨fd, q, rfl, hq⟩ := hq
    · simp only [owners, hq]
      exact (hset.append_left _).append_left _
    · simp only [owners, hq]
      exact (hset.append_left _).append_left _
    · simp only [owners, hq]
      exact ((hset.append_left _).trans List.perm_middle).append_left _
  · exact h.refusing
  · intro w hmem
    obtain hmem | rfl := List.mem_or_eq_of_mem_set hmem
    · exact h.handling w hmem
    · cases result with
      | wait => trivial
      | closed => trivial
      | took fd q => exact conn.trace_closesLast

theorem Owned.accept (h : s.Owned c n) (hm : s.main = .accepting) (hf : clientFd ∉ s.opened) :
    ((s.acquire clientFd).toMain (.enqueuing clientFd)).Owned c n := by
  constructor
  · exact h.workers
  · exact h.valid
  · exact h.capacity
  · apply h.ledger.acquire hf
    simp only [owners, hm]
    exact .refl _
  · trivial
  · exact h.handling

theorem Owned.withMonitor {monitor : QueueMonitor} (h : s.Owned c n)
    (hq : monitor.queue.contents = s.monitor.queue.contents) (hv : monitor.queue.Valid)
    (hc : monitor.queue.capacity = s.monitor.queue.capacity) :
    Owned c n { s with monitor := monitor } := by
  constructor
  · exact h.workers
  · exact hv
  · exact hc.trans h.capacity
  · apply h.ledger.transfer
    simp only [owners, hq]
    exact .refl _
  · exact h.refusing
  · exact h.handling

theorem Owned.shutdown (h : s.Owned c n) : Owned c n { s with monitor := s.monitor.shutdown } :=
  h.withMonitor rfl (socketQueueShutdown_valid h.valid) rfl

theorem Owned.step (h : s.Owned c n) (hs : Step s a t) : t.Owned c n := by
  cases hs.acts with
  | started created hm => exact h.toMain (by rw [hm]; rfl) rfl trivial
  | spawned i hm hi hw =>
    have hspawn : (s.setWorker i .dequeuing).Owned c n := h.setWorker hw rfl rfl trivial
    have hmain : (s.setWorker i .dequeuing).main.owned = [] := by
      change s.main.owned = []
      rw [hm]
      rfl
    exact hspawn.toMain hmain rfl trivial
  | spawnFailed i hm hi =>
    have hstop : (s.toMain (.stopping 1)).Owned c n := h.toMain (by rw [hm]; rfl) rfl trivial
    exact ⟨hstop.workers, hstop.valid, hstop.capacity, hstop.ledger, hstop.refusing,
      hstop.handling⟩
  | tested hm =>
    cases s.shouldStop with
    | true => exact h.toMain (by rw [hm]; rfl) rfl trivial
    | false => exact h.toMain (by rw [hm]; rfl) rfl trivial
  | accepted clientFd hm hf => exact h.accept hm hf
  | acceptInterrupted hm => exact h.toMain (by rw [hm]; rfl) rfl trivial
  | acceptFailed hm =>
    cases s.shouldStop with
    | true => exact h.toMain (by rw [hm]; rfl) rfl trivial
    | false => exact h.toMain (by rw [hm]; rfl) rfl trivial
  | enqueued clientFd mask outcomes result monitor hm he => exact h.enqueue hm he
  | mainPerformed clientFd event rest u hm hp => exact h.mainIo hm hp
  | poolShutdown code hm =>
    have hmain : s.main.owned = [] := by
      rw [hm]
      rfl
    have hjoin : (ServerState.toMain { s with monitor := s.monitor.shutdown }
      (.joining 0 code)).Owned c n := h.shutdown.toMain hmain rfl trivial
    exact hjoin
  | joinedAll code hm => exact h.toMain (by rw [hm]; rfl) rfl trivial
  | joined i code hm hi hw => exact h.toMain (by rw [hm]; rfl) rfl trivial
  | stopRequested =>
    exact ⟨h.workers, h.valid, h.capacity, h.ledger, h.refusing, h.handling⟩
  | queueShutdown hs => exact h.shutdown
  | dequeued i conn result monitor hw hd => exact h.dequeue hw hd
  | wokeUp i monitor hm =>
    have hq : monitor.queue = s.monitor.queue := QueueMonitor.wakeUp_queue hm
    exact h.withMonitor (congrArg _ hq) (hq ▸ h.valid) (congrArg _ hq)
  | workerPerformed i clientFd event rest u hw hp => exact h.workerIo hw hp
  | disconnected clientFd hf =>
    exact ⟨h.workers, h.valid, h.capacity, h.ledger, h.refusing, h.handling⟩

theorem initial_owned {queue : SocketQueue} (hq : socketQueueInit c true = some queue)
    (n : Nat) (allocated : Bool) : (initial queue n allocated).Owned c n := by
  obtain ⟨hv, hc, hf⟩ := socketQueueInit_valid hq
  have hempty : queue.contents = [] := congrArg Fifo.items hf
  have hworkers : (List.replicate n WorkerPc.unstarted).flatMap WorkerPc.owned = [] := by
    apply List.flatMap_eq_nil_iff.2
    intro w hw
    rw [List.eq_of_mem_replicate hw]
    rfl
  constructor
  · exact List.length_replicate
  · exact hv
  · exact hc
  · have hmain : (initial queue n allocated).main.owned = [] := by
      simp only [initial]
      split <;> rfl
    have howners : (initial queue n allocated).owners = [] := by
      rw [owners, hmain]
      change queue.contents ++ _ = []
      rw [hempty]
      exact hworkers
    rw [howners]
    exact .empty
  · simp only [initial]
    split <;> trivial
  · intro w hw
    rw [List.eq_of_mem_replicate hw]
    trivial

structure Phased (n : Nat) (s : ServerState) : Prop where
  exited : .exited ∈ s.workers → s.monitor.queue.shutdown = true ∧ s.monitor.queue.contents = []
  phase : s.main.Phase n s.threadCount s.workers

theorem Phased.toMain {main : MainPc} (h : s.Phased n)
    (hm : main.Phase n s.threadCount s.workers) : (s.toMain main).Phased n := ⟨h.exited, hm⟩

theorem Phased.setWorker (h : s.Phased n) (hw : s.workers[i]? = some old) (ho : old ≠ .exited)
    (hn : new ≠ .exited) : (s.setWorker i new).Phased n :=
  ⟨fun he => h.exited (mem_set_of_ne he hn),
    h.phase.mono fun _ hj => getElem?_set_stays hw ho hj new⟩

theorem Phased.perform (h : s.Phased n) (hp : s.perform clientFd event = some t) : t.Phased n := by
  obtain ⟨_, rfl⟩ | ⟨_, alive, rfl⟩ := perform_cases hp
  · exact ⟨h.exited, h.phase⟩
  · exact ⟨h.exited, h.phase⟩

theorem Phased.shutdown (h : s.Phased n) : Phased n { s with monitor := s.monitor.shutdown } :=
  ⟨fun he => ⟨rfl, (h.exited he).2⟩, h.phase⟩

theorem Phased.step (h : s.Phased n) (hq : s.monitor.queue.Valid) (hs : Step s a t) :
    t.Phased n := by
  have hphase := h.phase
  cases hs.acts with
  | started created hm =>
    rw [hm] at hphase
    exact h.toMain hphase
  | spawned i hm hi hw =>
    rw [hm] at hphase
    have hspawn : (s.setWorker i .dequeuing).Phased n := h.setWorker hw nofun nofun
    exact hspawn.toMain hphase
  | spawnFailed i hm hi => exact ⟨h.exited, nofun⟩
  | tested hm =>
    rw [hm] at hphase
    cases s.shouldStop with
    | true => exact h.toMain fun _ => hphase
    | false => exact h.toMain hphase
  | accepted clientFd hm hf =>
    rw [hm] at hphase
    exact ⟨h.exited, hphase⟩
  | acceptInterrupted hm =>
    rw [hm] at hphase
    exact h.toMain hphase
  | acceptFailed hm =>
    rw [hm] at hphase
    cases s.shouldStop with
    | true => exact h.toMain fun _ => hphase
    | false => exact h.toMain hphase
  | enqueued clientFd mask outcomes result monitor hm he =>
    rw [hm] at hphase
    obtain ⟨_, _, hsd, hcontents⟩ := QueueMonitor.enqueue_queue hq he
    constructor
    · intro hx
      obtain ⟨hshut, hempty⟩ := h.exited hx
      obtain ⟨_, hopen, _⟩ | ⟨_, hsame⟩ := hcontents
      · rw [hopen] at hshut
        cases hshut
      · exact ⟨hsd.trans hshut, hsame.trans hempty⟩
    · cases result <;> exact hphase
  | mainPerformed clientFd event rest u hm hp =>
    rw [hm] at hphase
    have hu : u.Phased n := h.perform hp
    have hthreads : u.threadCount = n := by
      obtain ⟨_, rfl⟩ | ⟨_, alive, rfl⟩ := perform_cases hp
      · exact hphase
      · exact hphase
    cases rest with
    | nil => exact hu.toMain hthreads
    | cons next rest => exact hu.toMain hthreads
  | poolShutdown code hm =>
    rw [hm] at hphase
    exact ⟨h.shutdown.exited, hphase, nofun⟩
  | joinedAll code hm =>
    rw [hm] at hphase
    exact h.toMain fun hc j hj => hphase.2 j (Nat.lt_of_lt_of_eq hj (hphase.1 hc).symm)
  | joined i code hm hi hw =>
    rw [hm] at hphase
    apply h.toMain
    refine ⟨hphase.1, fun j hj => ?_⟩
    obtain hj | rfl := Nat.lt_succ_iff_lt_or_eq.1 hj
    · exact hphase.2 j hj
    · exact hw
  | stopRequested => exact ⟨h.exited, h.phase⟩
  | queueShutdown hs => exact h.shutdown
  | dequeued i conn result monitor hw hd =>
    obtain ⟨_, _, hsd, hcontents⟩ := QueueMonitor.dequeue_queue hq hd
    constructor
    · intro hx
      obtain ⟨rfl, hsame⟩ | ⟨rfl, hshut, hempty, hsame⟩ | ⟨fd, q, rfl, htook⟩ := hcontents
      · obtain ⟨hshut, hempty⟩ := h.exited (mem_set_of_ne hx nofun)
        exact ⟨hsd.trans hshut, hsame.trans hempty⟩
      · exact ⟨hsd.trans hshut, hsame.trans hempty⟩
      · obtain ⟨_, hempty⟩ := h.exited (mem_set_of_ne hx nofun)
        rw [htook] at hempty
        cases hempty
    · apply hphase.mono
      intro j hj
      have hne : WorkerPc.dequeuing ≠ .exited := nofun
      exact getElem?_set_stays hw hne hj (.afterDequeue conn result)
  | wokeUp i monitor hm =>
    have hsame : monitor.queue = s.monitor.queue := QueueMonitor.wakeUp_queue hm
    refine ⟨fun hx => ?_, hphase⟩
    change monitor.queue.shutdown = true ∧ monitor.queue.contents = []
    rw [hsame]
    exact h.exited hx
  | workerPerformed i clientFd event rest u hw hp =>
    have hu : u.Phased n := h.perform hp
    have hworkers : u.workers[i]? = some (.handling clientFd (event :: rest)) := by
      obtain ⟨_, rfl⟩ | ⟨_, alive, rfl⟩ := perform_cases hp
      · exact hw
      · exact hw
    cases rest with
    | nil => exact hu.setWorker hworkers nofun nofun
    | cons next rest => exact hu.setWorker hworkers nofun nofun
  | disconnected clientFd hf => exact ⟨h.exited, h.phase⟩

theorem initial_phased (queue : SocketQueue) (n : Nat) (allocated : Bool) :
    (initial queue n allocated).Phased n := by
  constructor
  · intro h
    cases List.eq_of_mem_replicate h
  · simp only [initial]
    split
    · exact nofun
    · rfl

theorem Owned.length_opened (h : s.Owned c n) : s.opened.length ≤ c + n + 1 := by
  have hmain : s.main.owned.length ≤ 1 := by
    cases s.main <;> first | exact Nat.le_refl 1 | exact Nat.zero_le 1
  have hqueue : s.monitor.queue.contents.length ≤ c := by
    rw [SocketQueue.length_contents, ← h.capacity]
    exact h.valid.count_le
  have hworkers : (s.workers.flatMap WorkerPc.owned).length ≤ n := by
    have hle : ∀ w : WorkerPc, w.owned.length ≤ 1 := by
      intro w
      cases w <;> first | exact Nat.le_refl 1 | exact Nat.zero_le 1
    rw [← h.workers, ← Nat.mul_one s.workers.length]
    exact length_flatMap_le hle
  rw [h.ledger.held_length, owners, List.length_append, List.length_append]
  omega

theorem Owned.opened_empty (h : s.Owned c n) (hp : s.Phased n) (hn : 0 < n)
    (hm : s.main = .returned 0) : s.opened = [] := by
  have hexited : ∀ j < n, s.workers[j]? = some .exited := by
    have hphase := hp.phase
    rw [hm] at hphase
    exact hphase rfl
  have hworkers : s.workers.flatMap WorkerPc.owned = [] := by
    apply List.flatMap_eq_nil_iff.2
    intro w hw
    obtain ⟨j, hj, rfl⟩ := List.getElem_of_mem hw
    have he := hexited j (h.workers ▸ hj)
    rw [List.getElem?_eq_getElem hj] at he
    rw [Option.some.inj he]
    rfl
  have hqueue : s.monitor.queue.contents = [] := (hp.exited (mem_of_getElem? (hexited 0 hn))).2
  have howners : s.owners = [] := by
    rw [owners, hm, hqueue, hworkers]
    rfl
  apply List.eq_nil_of_length_eq_zero
  rw [h.ledger.held_length, howners]
  rfl

theorem run_owned (ho : s.Owned c n) (hp : s.Phased n) (hrun : Run Step s as t) :
    t.Owned c n ∧ t.Phased n := by
  induction hrun with
  | nil => exact ⟨ho, hp⟩
  | cons hs _ ih => exact ih (ho.step hs) (hp.step ho.valid hs)

end ServerState

/-- Whatever the order in which the accept loop, the workers, the clients and `server_stop` take
their steps, an open connection has one owner and a closed one has none, each is closed at most as
often as it was accepted, and no more are open than the queue, the workers and the accept loop can
hold; when `server_run` returns 0 each was closed as often as it was accepted. -/
theorem serverRun_owns (c n : Nat) (queue : SocketQueue) (allocated : Bool) (hn : 1 ≤ n)
    (hq : socketQueueInit c true = some queue) (as : List Action) (s : ServerState)
    (hrun : Run ServerState.Step (.initial queue n allocated) as s) :
    (∀ fd, s.owners.count fd = if fd ∈ s.opened then 1 else 0) ∧
      (∀ fd, s.accepted.count fd = s.closed.count fd + if fd ∈ s.opened then 1 else 0) ∧
      s.opened.Nodup ∧ s.opened.length ≤ c + n + 1 ∧
      (s.main = .returned 0 →
        s.opened = [] ∧ ∀ fd, s.closed.count fd = s.accepted.count fd) := by
  obtain ⟨ho, hp⟩ := ServerState.run_owned (ServerState.initial_owned hq n allocated)
    (ServerState.initial_phased queue n allocated) hrun
  refine ⟨ho.ledger.count_holders, ho.ledger.count_acquired, ho.ledger.nodup, ho.length_opened, ?_⟩
  intro hm
  have hempty : s.opened = [] := ho.opened_empty hp hn hm
  refine ⟨hempty, fun fd => ?_⟩
  have hcount := ho.ledger.count_acquired fd
  rw [hempty, if_neg List.not_mem_nil] at hcount
  exact hcount.symm

/-- One worker and a queue of one slot: a connection is served, one waits, one is refused with a
503, and the server is stopped while the second is still queued. -/
theorem serverRun_owns_stopped : ∃ s : ServerState, s.accepted = [5, 6, 7] ∧ s.closed = [7, 5, 6] ∧
    s.opened.length ≤ 1 + 1 + 1 ∧ s.opened = [] := by
  let c : Connection := ⟨[], [], fun _ => pageOs, [], []⟩
  let queue : SocketQueue := ⟨[0], 1, 0, 0, 0, false⟩
  let as : List Action :=
    [.spawn true, .spawn true, .test, .accept (.accepted 5), .enqueue [] [], .dequeue 0 c, .test,
      .accept (.accepted 6), .enqueue [] [], .test, .accept (.accepted 7), .enqueue [] [],
      .mainIo, .mainIo, .mainIo, .requestStop, .shutdownQueue, .workerIo 0, .workerIo 0,
      .dequeue 0 c, .test, .shutdownPool, .workerIo 0, .workerIo 0, .dequeue 0 c, .join, .join]
  let s : ServerState :=
    ⟨.returned 0, [.exited], ⟨⟨[6], 1, 0, 0, 0, true⟩, [.running]⟩, 1, true, [], [], [5, 6, 7],
      [7, 5, 6], true⟩
  have hrun : follow ServerState.next (.initial queue 1 true) as = some s := by decide +kernel
  obtain ⟨_, _, _, hlength, hreturn⟩ :=
    serverRun_owns 1 1 queue true (Nat.le_refl 1) rfl as s (run_of_follow hrun)
  exact ⟨s, rfl, rfl, hlength, (hreturn rfl).1⟩

end Httpd
