import Httpd.ThreadPool
import Httpd.Visits

namespace Httpd
open ConditionVariable Transition
set_option autoImplicit true

namespace QueueMonitor

/-- The queue with so many threads more that have not called it yet. -/
def withIdle (m : QueueMonitor) (k : Nat) : QueueMonitor :=
  { m with waiters := m.waiters ++ List.replicate k .running }

theorem enqueue_withIdle (m : QueueMonitor) (k : Nat) (clientFd : Fd) (mask : List Bool) :
    (m.withIdle k).enqueue clientFd mask =
      (m.enqueue clientFd mask).map fun (result, m) => (result, m.withIdle k) := by
  simp only [enqueue, withIdle, signal_idle]
  split
  · cases signal mask m.waiters <;> rfl
  · rfl

theorem shutdown_withIdle (m : QueueMonitor) (k : Nat) :
    (m.withIdle k).shutdown = m.shutdown.withIdle k := by
  simp only [shutdown, withIdle, broadcast_idle]

theorem dequeue_withIdle (m : QueueMonitor) (k : Nat) (hi : i < m.waiters.length) :
    (m.withIdle k).dequeue i =
      (m.dequeue i).map fun (result, m) => (result, m.withIdle k) := by
  simp only [dequeue, withIdle, List.getElem?_append_left hi, List.set_append_left _ _ hi]
  split
  · cases socketQueueDequeue m.queue <;> rfl
  · rfl

theorem blocked_withIdle (m : QueueMonitor) (k i : Nat) :
    (m.withIdle k).waiters[i]? = some .blocked ↔ m.waiters[i]? = some .blocked := by
  by_cases hi : i < m.waiters.length
  · rw [withIdle, List.getElem?_append_left hi]
  · have hle := Nat.le_of_not_lt hi
    have hidle : (List.replicate k Waiter.running)[i - m.waiters.length]? ≠ some .blocked := by
      intro h
      cases List.eq_of_mem_replicate (List.mem_of_getElem? h)
    rw [withIdle, List.getElem?_append_right hle, List.getElem?_eq_none hle]
    exact iff_of_false hidle fun h => by cases h

theorem wakeUp_withIdle (m : QueueMonitor) (k i : Nat) :
    (m.withIdle k).wakeUp i = (m.wakeUp i).map (·.withIdle k) := by
  have hiff := m.blocked_withIdle k i
  rw [wakeUp, wakeUp]
  by_cases hb : m.waiters[i]? = some .blocked
  · have hi : i < m.waiters.length := (List.getElem?_eq_some_iff.1 hb).1
    rw [if_pos hb, if_pos (hiff.2 hb)]
    simp only [withIdle, List.set_append_left _ _ hi, Option.map_some]
  · rw [if_neg hb, if_neg fun h => hb (hiff.1 h)]
    rfl

theorem withIdle_succ (m : QueueMonitor) (k : Nat) :
    m.withIdle (k + 1) = m.addThread.withIdle k := by
  rw [withIdle, withIdle, addThread, List.append_assoc]
  rfl

end QueueMonitor

def WorkerPc.inPool : WorkerPc → Option PoolWorker
  | .unstarted => none
  | .dequeuing => some .dequeuing
  | .handling clientFd _ => some (.handling clientFd)
  | .exited => some .exited

theorem WorkerPc.afterDequeue_inPool (c : Connection) (result : DequeueResult) :
    (WorkerPc.afterDequeue c result).inPool = some (.afterDequeue result) := by
  cases result <;> rfl

theorem WorkerPc.map_inPool_set {workers : List WorkerPc} {before pc : WorkerPc}
    (hi : workers[i]? = some before) (he : pc.inPool = before.inPool) :
    (workers.set i pc).map inPool = workers.map inPool := by
  obtain ⟨hlt, rfl⟩ := List.getElem?_eq_some_iff.1 hi
  rw [List.map_set, he, ← List.map_set, List.set_getElem_self]

def MainPc.inPool : MainPc → CallerPc
  | .starting i => .starting i
  | .stopping _ => .stopping
  | .joining i _ => .joining i
  | .testing | .accepting | .enqueuing _ | .refusing .. | .returned _ => .idle

def MainPc.poolResult : MainPc → Option Int
  | .starting _ => none
  | .stopping code => if code = 0 then some 0 else none
  | .joining _ code => if code = 0 then some 0 else none
  | .returned code => some (if code = 0 then 0 else -1)
  | .testing | .accepting | .enqueuing _ | .refusing .. => some 0

def MainPc.serves : MainPc → Bool
  | .testing | .accepting | .enqueuing _ | .refusing .. => true
  | .starting _ | .stopping _ | .joining .. | .returned _ => false

theorem MainPc.serves_pool {pc : MainPc} (h : pc.serves = true) :
    pc.inPool = .idle ∧ pc.poolResult = some 0 ∧ ∀ code, pc ≠ .returned code := by
  cases pc with
  | testing | accepting | enqueuing | refusing => exact ⟨rfl, rfl, fun _ he => by cases he⟩
  | starting | stopping | joining | returned => cases h

/-- The workers and the queue of the server are those of the pool and so many threads more that were
not created. -/
structure ServerState.Staffed (s : ServerState) (ws : List PoolWorker) (m : QueueMonitor)
    (k : Nat) : Prop where
  workers : s.workers.map WorkerPc.inPool = ws.map some ++ List.replicate k none
  monitor : s.monitor = m.withIdle k

structure ServerState.KeepsPool (s : ServerState) (t : PoolState) : Prop where
  invariant : ∃ n, t.Invariant n
  built : ∃ threads, t.pool.threads = some threads
  count : t.pool.threadCount = s.threadCount
  asked : t.threadCount = s.workers.length

/-- When `server_run` has returned, every worker that was created has ended and was joined once, in
the order of creation; these are all the workers if it has returned 0. -/
structure ServerState.LeavesPool (s : ServerState) (t : PoolState) (code : Nat) : Prop where
  joined : t.joined = PoolState.handles t.workers.length
  ended : ∀ w ∈ t.workers, w = .exited
  all : code = 0 → t.workers.length = s.workers.length

/-- A state of the server whose part in the pool is this state of the pool. -/
structure ServerState.RunsPool (s : ServerState) (t : PoolState) : Prop where
  staffed : ∃ k, s.Staffed t.workers t.monitor k
  main : t.main = s.main.inPool
  result : t.result = s.main.poolResult
  keeps : (∀ code, s.main ≠ .returned code) → s.KeepsPool t
  leaves : ∀ code, s.main = .returned code → s.LeavesPool t code

namespace ServerState

variable {s s' : ServerState} {t t' : PoolState} {ws : List PoolWorker} {m : QueueMonitor}

theorem Staffed.length (h : s.Staffed ws m k) : s.workers.length = ws.length + k := by
  have hlength := congrArg List.length h.workers
  rw [List.length_map, List.length_append, List.length_map, List.length_replicate] at hlength
  exact hlength

theorem Staffed.worker {i : Nat} {pc : WorkerPc} (h : s.Staffed ws m k)
    (hi : s.workers[i]? = some pc) (hpc : pc.inPool = some w) : ws[i]? = some w := by
  have hmap : (ws.map some ++ List.replicate k none)[i]? = some (some w) := by
    rw [← h.workers, List.getElem?_map, hi, Option.map_some, hpc]
  by_cases hlt : i < (ws.map some).length
  · rw [List.getElem?_append_left hlt, List.getElem?_map] at hmap
    obtain ⟨w', hw, he⟩ := Option.map_eq_some_iff.1 hmap
    rw [hw, Option.some.inj he]
  · rw [List.getElem?_append_right (Nat.le_of_not_lt hlt)] at hmap
    cases List.eq_of_mem_replicate (List.mem_of_getElem? hmap)

theorem Staffed.created (h : s.Staffed ws m k) (hi : s.workers[i]? = some pc) :
    i < ws.length ↔ pc ≠ .unstarted := by
  constructor
  · rintro hlt rfl
    have hmap : (ws.map some ++ List.replicate k none)[i]? = some none := by
      rw [← h.workers, List.getElem?_map, hi]
      rfl
    rw [List.getElem?_append_left (by rw [List.length_map]; exact hlt), List.getElem?_map] at hmap
    obtain ⟨w, _, he⟩ := Option.map_eq_some_iff.1 hmap
    cases he
  · intro hpc
    obtain ⟨w, hw⟩ : ∃ w, pc.inPool = some w := by
      cases pc with
      | unstarted => exact absurd rfl hpc
      | dequeuing | handling | exited => exact ⟨_, rfl⟩
    exact (List.getElem?_eq_some_iff.1 (h.worker hi hw)).1

theorem Staffed.set (h : s.Staffed ws m k) (hi : i < ws.length) (hpc : pc.inPool = some w)
    (hm : s'.monitor = m'.withIdle k) (hw : s'.workers = s.workers.set i pc) :
    s'.Staffed (ws.set i w) m' k := by
  refine ⟨?_, hm⟩
  rw [hw, List.map_set, h.workers, hpc, List.map_set]
  exact List.set_append_left _ _ (by rw [List.length_map]; exact hi)

theorem Staffed.spawn (h : s.Staffed ws m (k + 1)) (hm : s'.monitor = s.monitor)
    (hw : s'.workers = s.workers.set ws.length .dequeuing) :
    s'.Staffed (ws ++ [.dequeuing]) m.addThread k := by
  constructor
  · rw [hw, List.map_set, h.workers, List.map_append, List.append_assoc,
      List.set_append_right _ _ (Nat.le_of_eq (List.length_map _)), List.length_map, Nat.sub_self]
    rfl
  · rw [hm, h.monitor, QueueMonitor.withIdle_succ]

theorem Staffed.same (h : s.Staffed ws m k) (hw : s'.workers = s.workers)
    (hm : s'.monitor = s.monitor) : s'.Staffed ws m k := by
  constructor
  · rw [hw]
    exact h.workers
  · exact hm.trans h.monitor

namespace RunsPool

theorem advance (h : s.RunsPool t) (hstaffed : ∃ k, s'.Staffed ws m k)
    (hinv : ∀ n, t.Invariant n → ∃ n, PoolState.Invariant { t with workers := ws, monitor := m } n)
    (hends : (∀ w ∈ t.workers, w = .exited) → ws = t.workers)
    (hlength : s'.workers.length = s.workers.length) (hcount : s'.threadCount = s.threadCount)
    (hmain : s'.main = s.main ∨ s.main.serves = true ∧ s'.main.serves = true) :
    s'.RunsPool { t with workers := ws, monitor := m } := by
  have hpool : s'.main.inPool = s.main.inPool ∧ s'.main.poolResult = s.main.poolResult ∧
      ∀ code, s'.main = .returned code ↔ s.main = .returned code := by
    cases hmain with
    | inl he =>
      rw [he]
      exact ⟨rfl, rfl, fun _ => Iff.rfl⟩
    | inr hserves =>
      obtain ⟨hidle, hzero, hne⟩ := MainPc.serves_pool hserves.1
      obtain ⟨hidle', hzero', hne'⟩ := MainPc.serves_pool hserves.2
      exact ⟨hidle'.trans hidle.symm, hzero'.trans hzero.symm,
        fun code => iff_of_false (hne' code) (hne code)⟩
  obtain ⟨hin, hresult, hreturned⟩ := hpool
  constructor
  · exact hstaffed
  · exact h.main.trans hin.symm
  · exact h.result.trans hresult.symm
  · intro hne
    have hkeeps := h.keeps fun code he => hne code ((hreturned code).2 he)
    obtain ⟨n, hn⟩ := hkeeps.invariant
    exact ⟨hinv n hn, hkeeps.built, hkeeps.count.trans hcount.symm,
      hkeeps.asked.trans hlength.symm⟩
  · intro code he
    have hleaves := h.leaves code ((hreturned code).1 he)
    obtain rfl := hends hleaves.ended
    exact ⟨hleaves.joined, hleaves.ended, fun hc => (hleaves.all hc).trans hlength.symm⟩

theorem stutter (h : s.RunsPool t)
    (hw : s'.workers.map WorkerPc.inPool = s.workers.map WorkerPc.inPool)
    (hm : s'.monitor = s.monitor) (hcount : s'.threadCount = s.threadCount)
    (hmain : s'.main = s.main ∨ s.main.serves = true ∧ s'.main.serves = true) :
    s'.RunsPool t := by
  obtain ⟨k, hk⟩ := h.staffed
  have hstaffed : s'.Staffed t.workers t.monitor k :=
    ⟨hw.trans hk.workers, hm.trans hk.monitor⟩
  exact h.advance ⟨k, hstaffed⟩ (fun n hn => ⟨n, hn⟩) (fun _ => rfl)
    (hstaffed.length.trans hk.length.symm) hcount hmain

theorem monitor (h : s.RunsPool t) (hk : s.Staffed t.workers t.monitor k)
    (hstep : PoolState.Step t a { t with monitor := m }) (hm : s'.monitor = m.withIdle k)
    (hw : s'.workers = s.workers) (hcount : s'.threadCount = s.threadCount)
    (hmain : s'.main = s.main ∨ s.main.serves = true ∧ s'.main.serves = true) :
    ∃ bs t', Run PoolState.Step t bs t' ∧ s'.RunsPool t' := by
  have hstaffed : s'.Staffed t.workers m k := ⟨hw ▸ hk.workers, hm⟩
  exact ⟨[a], _, .single hstep, h.advance ⟨k, hstaffed⟩ (fun n hn => hn.step hstep)
    (fun _ => rfl) (congrArg List.length hw) hcount hmain⟩

theorem worker {before pc : WorkerPc} {w after : PoolWorker} (h : s.RunsPool t)
    (hk : s.Staffed t.workers t.monitor k) (hi : s.workers[i]? = some before)
    (hbefore : before.inPool = some w) (hne : w ≠ .exited) (hafter : pc.inPool = some after)
    (hstep : PoolState.Step t a { t with monitor := m, workers := t.workers.set i after })
    (hm : s'.monitor = m.withIdle k) (hw : s'.workers = s.workers.set i pc)
    (hcount : s'.threadCount = s.threadCount) (hmain : s'.main = s.main) :
    ∃ bs t', Run PoolState.Step t bs t' ∧ s'.RunsPool t' := by
  have hworker := hk.worker hi hbefore
  have hlt : i < t.workers.length := (List.getElem?_eq_some_iff.1 hworker).1
  have hends : (∀ w ∈ t.workers, w = .exited) → t.workers.set i after = t.workers :=
    fun hall => absurd (hall w (List.mem_of_getElem? hworker)) hne
  have hlength : s'.workers.length = s.workers.length := by
    rw [hw, List.length_set]
  exact ⟨[a], _, .single hstep, h.advance ⟨k, hk.set hlt hafter hm hw⟩
    (fun n hn => hn.step hstep) hends hlength hcount (.inl hmain)⟩

theorem of_keeps (hstaffed : ∃ k, s'.Staffed t'.workers t'.monitor k)
    (hmain : t'.main = s'.main.inPool) (hresult : t'.result = s'.main.poolResult)
    (hne : ∀ code, s'.main ≠ .returned code) (hkeeps : s'.KeepsPool t') : s'.RunsPool t' :=
  ⟨hstaffed, hmain, hresult, fun _ => hkeeps, fun code he => absurd he (hne code)⟩

theorem building (h : s.RunsPool t) (hm : s.main = .starting i) :
    s.KeepsPool t ∧ t.main = .starting i ∧ t.Invariant i ∧ t.Building i ∧
      t.threadCount = s.threadCount := by
  have hkeeps := h.keeps fun code he => by cases hm.symm.trans he
  obtain ⟨n, hn⟩ := hkeeps.invariant
  have hmain : t.main = .starting i := by
    rw [h.main, hm]
    rfl
  obtain ⟨rfl, hb⟩ : t.Phase n (.starting i) := hn.place hmain
  obtain ⟨rest, hpool, _⟩ := hb.pool
  have hcount : t.threadCount = s.threadCount := by
    rw [← hkeeps.count, hpool]
  exact ⟨hkeeps, hmain, hn, hb, hcount⟩

theorem started (h : s.RunsPool t) (hm : s.main = .starting s.threadCount) :
    ∃ bs t', Run PoolState.Step t bs t' ∧ (s.toMain .testing).RunsPool t' := by
  obtain ⟨hkeeps, hmain, hn, _, hcount⟩ := h.building hm
  have hstep : PoolState.Step t (.iterate true) { t with main := .idle, result := some 0 } := by
    simp only [PoolState.Step, PoolState.next, hmain, hcount, Nat.lt_irrefl, if_false]
  exact ⟨_, _, .single hstep, .of_keeps (h.staffed.imp fun _ hk => hk.same rfl rfl) rfl rfl
    (fun _ he => by cases he) ⟨hn.step hstep, hkeeps.built, hkeeps.count, hkeeps.asked⟩⟩

theorem spawned (h : s.RunsPool t) (hm : s.main = .starting i) (hi : i ≠ s.threadCount) :
    ∃ bs t', Run PoolState.Step t bs t' ∧
      ((s.setWorker i .dequeuing).toMain (.starting (i + 1))).RunsPool t' := by
  obtain ⟨hkeeps, hmain, hn, hb, hcount⟩ := h.building hm
  have hlt : i < t.threadCount := Nat.lt_of_le_of_ne hb.le (hcount ▸ hi)
  have hfirst : PoolState.Step t (.iterate true) (t.toMain (.creating i)) := by
    simp only [PoolState.Step, PoolState.next, hmain, if_pos hlt, if_true]
  have hsecond : PoolState.Step (t.toMain (.creating i)) (.create true none)
      (((t.toMain (.creating i)).spawn i).toMain (.starting (i + 1))) := rfl
  obtain ⟨n, hmid⟩ := hn.step hfirst
  obtain ⟨k, hk⟩ := h.staffed
  have hpos : k ≠ 0 := by
    have hlength := hk.length
    have hasked := hkeeps.asked
    have hworkers := hb.workers
    omega
  obtain ⟨k, rfl⟩ := Nat.exists_eq_succ_of_ne_zero hpos
  have hstaffed : ((s.setWorker i .dequeuing).toMain (.starting (i + 1))).Staffed
      (t.workers ++ [.dequeuing]) t.monitor.addThread k := by
    have hset : ((s.setWorker i .dequeuing).toMain (.starting (i + 1))).workers =
        s.workers.set t.workers.length .dequeuing := by
      rw [hb.workers]
      rfl
    exact hk.spawn rfl hset
  obtain ⟨threads, hthreads⟩ := hkeeps.built
  refine ⟨_, _, .cons hfirst (.single hsecond), .of_keeps ⟨k, hstaffed⟩ rfl hb.result
    (fun _ he => by cases he) ⟨hmid.step hsecond, ?_, hkeeps.count, ?_⟩⟩
  · have hset : (t.pool.setThread i (some t.workers.length)).threads =
        some (threads.set i (some t.workers.length)) := by
      rw [ThreadPool.setThread, hthreads]
      rfl
    exact ⟨_, hset⟩
  · exact hkeeps.asked.trans List.length_set.symm

theorem spawnFailed (h : s.RunsPool t) (hm : s.main = .starting i) (hi : i ≠ s.threadCount) :
    ∃ bs t', Run PoolState.Step t bs t' ∧
      ServerState.RunsPool { s with main := .stopping 1, threadCount := i } t' := by
  obtain ⟨hkeeps, hmain, hn, hb, hcount⟩ := h.building hm
  have hlt : i < t.threadCount := Nat.lt_of_le_of_ne hb.le (hcount ▸ hi)
  obtain ⟨threads, hthreads⟩ := hkeeps.built
  have habandon : t.abandon i =
      PoolState.toMain { t with pool := { t.pool with threadCount := i } } .stopping :=
    PoolState.enterStop_some hthreads
  have hstep : PoolState.Step t (.iterate false)
      (PoolState.toMain { t with pool := { t.pool with threadCount := i } } .stopping) := by
    simp only [PoolState.Step, PoolState.next, hmain, if_pos hlt, Bool.false_eq_true, if_false,
      habandon]
  exact ⟨_, _, .single hstep, .of_keeps (h.staffed.imp fun _ hk => hk.same rfl rfl) rfl hb.result
    (fun _ he => by cases he) ⟨hn.step hstep, ⟨threads, hthreads⟩, rfl, hkeeps.asked⟩⟩

theorem stop (h : s.RunsPool t) (hserves : s.main.serves = true) :
    ∃ bs t', Run PoolState.Step t bs t' ∧ (s.toMain (.stopping 0)).RunsPool t' := by
  obtain ⟨hidle, hzero, hne⟩ := MainPc.serves_pool hserves
  have hkeeps := h.keeps hne
  obtain ⟨n, hn⟩ := hkeeps.invariant
  obtain ⟨threads, hthreads⟩ := hkeeps.built
  have hstep : PoolState.Step t .stop (t.toMain .stopping) := by
    simp only [PoolState.Step, PoolState.next, h.main.trans hidle, if_true,
      PoolState.enterStop_some hthreads]
  exact ⟨_, _, .single hstep, .of_keeps (h.staffed.imp fun _ hk => hk.same rfl rfl) rfl
    (h.result.trans hzero) (fun _ he => by cases he)
    ⟨hn.step hstep, ⟨threads, hthreads⟩, hkeeps.count, hkeeps.asked⟩⟩

theorem poolShutdown (h : s.RunsPool t) (hm : s.main = .stopping code) :
    ∃ bs t', Run PoolState.Step t bs t' ∧ ServerState.RunsPool
      { s with monitor := s.monitor.shutdown, main := .joining 0 code } t' := by
  have hkeeps := h.keeps fun code he => by cases hm.symm.trans he
  obtain ⟨n, hn⟩ := hkeeps.invariant
  obtain ⟨k, hk⟩ := h.staffed
  have hmain : t.main = .stopping := by
    rw [h.main, hm]
    rfl
  have hresult : t.result = (MainPc.stopping code).poolResult := hm ▸ h.result
  have hstep : PoolState.Step t .shutdownPool
      { t with monitor := t.monitor.shutdown, main := .joining 0 } := if_pos hmain
  have hmonitor : s.monitor.shutdown = t.monitor.shutdown.withIdle k := by
    rw [hk.monitor, QueueMonitor.shutdown_withIdle]
  exact ⟨_, _, .single hstep, .of_keeps ⟨k, hk.workers, hmonitor⟩ rfl hresult
    (fun _ he => by cases he) ⟨hn.step hstep, hkeeps.built, hkeeps.count, hkeeps.asked⟩⟩

theorem joining (h : s.RunsPool t) (hm : s.main = .joining i code) :
    s.KeepsPool t ∧ t.main = .joining i ∧ t.Invariant s.threadCount ∧
      t.Joining s.threadCount i := by
  have hkeeps := h.keeps fun code he => by cases hm.symm.trans he
  obtain ⟨n, hn⟩ := hkeeps.invariant
  have hmain : t.main = .joining i := by
    rw [h.main, hm]
    rfl
  have hj : t.Joining n i := hn.place hmain
  obtain rfl : n = s.threadCount := hj.count.symm.trans hkeeps.count
  exact ⟨hkeeps, hmain, hn, hj⟩

theorem joined (h : s.RunsPool t) (hm : s.main = .joining i code) (hi : i ≠ s.threadCount)
    (hw : s.workers[i]? = some .exited) : ∃ bs t', Run PoolState.Step t bs t' ∧
      (s.toMain (.joining (i + 1) code)).RunsPool t' := by
  obtain ⟨hkeeps, hmain, hn, hj⟩ := h.joining hm
  obtain ⟨k, hk⟩ := h.staffed
  obtain ⟨rest, hpool⟩ := hj.stopping.pool
  have hresult : t.result = (MainPc.joining i code).poolResult := hm ▸ h.result
  have hlt : i < s.threadCount := Nat.lt_of_le_of_ne hj.le hi
  have hcount : i < t.pool.threadCount := Nat.lt_of_lt_of_eq hlt hkeeps.count.symm
  have hhandle : (t.pool.threads.bind fun threads => threads[i]?) = some (some i) := by
    rw [hpool, Option.bind_some]
    exact PoolState.handles_getElem? hlt rest
  have hjoin : t.pthreadJoin (some i) = some { t with joined := t.joined ++ [some i] } :=
    if_pos (hk.worker hw rfl)
  have hstep : PoolState.Step t .join
      (PoolState.toMain { t with joined := t.joined ++ [some i] } (.joining (i + 1))) := by
    simp only [PoolState.Step, PoolState.next, hmain, if_pos hcount, hhandle, Option.bind_some,
      hjoin, Option.map_some]
  exact ⟨_, _, .single hstep, .of_keeps ⟨k, hk.same rfl rfl⟩ rfl hresult
    (fun _ he => by cases he) ⟨hn.step hstep, hkeeps.built, hkeeps.count, hkeeps.asked⟩⟩

theorem joinedAll (h : s.RunsPool t) (hm : s.main = .joining s.threadCount code) :
    ∃ bs t', Run PoolState.Step t bs t' ∧ (s.toMain (.returned code)).RunsPool t' := by
  obtain ⟨hkeeps, hmain, hn, hj⟩ := h.joining hm
  have hlast : ¬s.threadCount < t.pool.threadCount := by
    rw [hkeeps.count]
    exact Nat.lt_irrefl _
  have hstep : PoolState.Step t .join { t with pool := ⟨none, 0⟩ }.leaveStop := by
    simp only [PoolState.Step, PoolState.next, hmain, if_neg hlast]
  obtain ⟨hmonitor, hworkers, hidle, hcleared, _⟩ := hj.finish hlast
  have hpending : t.result = if code = 0 then some 0 else none :=
    h.result.trans (congrArg MainPc.poolResult hm)
  have hresult : ({ t with pool := ⟨none, 0⟩ } : PoolState).leaveStop.result =
      some (if code = 0 then 0 else -1) := by
    rw [PoolState.leaveStop_result]
    change some (t.result.getD (-1)) = _
    rw [hpending]
    split <;> rfl
  refine ⟨_, _, .single hstep, ?_, hidle, hresult, fun hne => absurd rfl (hne code), ?_⟩
  · obtain ⟨k, hk⟩ := h.staffed
    refine ⟨k, ?_⟩
    rw [hmonitor, hworkers]
    exact hk.same rfl rfl
  · intro code' he
    cases he
    constructor
    · rw [hcleared.workers]
      exact hcleared.joined
    · exact fun w hw => hcleared.ended hw
    · intro hc
      rw [if_pos hc] at hpending
      rw [hcleared.workers]
      obtain ⟨hnone, _⟩ | ⟨_, hall⟩ := hj.stopping.caller
      · cases hnone.symm.trans hpending
      · exact hall.trans hkeeps.asked

/-- What the server does is what the pool does, one step of the server being none, one or two of
the pool. -/
theorem step (h : s.RunsPool t) (hstep : Step s a s') :
    ∃ bs t', Run PoolState.Step t bs t' ∧ s'.RunsPool t' := by
  obtain ⟨k, hk⟩ := h.staffed
  have quiet : ∀ {s' : ServerState}, s'.RunsPool t →
      ∃ bs t', Run PoolState.Step t bs t' ∧ s'.RunsPool t' := fun h' => ⟨[], t, .nil t, h'⟩
  have serves : ∀ {pc : MainPc}, s.main = pc → pc.serves = true → s.main.serves = true :=
    fun hm hs => hm ▸ hs
  cases hstep.acts with
  | started created hm => exact h.started hm
  | spawned i hm hi hw => exact h.spawned hm hi
  | spawnFailed i hm hi => exact h.spawnFailed hm hi
  | tested hm =>
    cases s.shouldStop with
    | true => exact h.stop (serves hm rfl)
    | false => exact quiet (h.stutter rfl rfl rfl (.inr ⟨serves hm rfl, rfl⟩))
  | accepted clientFd hm hf => exact quiet (h.stutter rfl rfl rfl (.inr ⟨serves hm rfl, rfl⟩))
  | acceptInterrupted hm => exact quiet (h.stutter rfl rfl rfl (.inr ⟨serves hm rfl, rfl⟩))
  | acceptFailed hm =>
    cases s.shouldStop with
    | true => exact h.stop (serves hm rfl)
    | false => exact quiet (h.stutter rfl rfl rfl (.inr ⟨serves hm rfl, rfl⟩))
  | enqueued clientFd mask outcomes result monitor hm he =>
    rw [hk.monitor, QueueMonitor.enqueue_withIdle] at he
    obtain ⟨⟨_, m⟩, hd, heq⟩ := Option.map_eq_some_iff.1 he
    cases heq
    have hpool : PoolState.Step t (.enqueue clientFd mask) { t with monitor := m } := by
      simp only [PoolState.Step, PoolState.next, hd, Option.map_some]
    exact h.monitor hk hpool rfl rfl rfl (.inr ⟨serves hm rfl, by cases result <;> rfl⟩)
  | mainPerformed clientFd event rest u hm hp =>
    obtain ⟨_, hworkers, hmonitor, hcount, _⟩ := perform_leaves hp
    exact quiet (h.stutter (congrArg (List.map WorkerPc.inPool) hworkers) hmonitor hcount
      (.inr ⟨serves hm rfl, by cases rest <;> rfl⟩))
  | poolShutdown code hm => exact h.poolShutdown hm
  | joinedAll code hm => exact h.joinedAll hm
  | joined i code hm hi hw => exact h.joined hm hi hw
  | stopRequested => exact quiet (h.stutter rfl rfl rfl (.inl rfl))
  | queueShutdown hs =>
    have hpool : PoolState.Step t .shutdownQueue { t with monitor := t.monitor.shutdown } := rfl
    have hmonitor : s.monitor.shutdown = t.monitor.shutdown.withIdle k := by
      rw [hk.monitor, QueueMonitor.shutdown_withIdle]
    exact h.monitor hk hpool hmonitor rfl rfl (.inl rfl)
  | dequeued i c result monitor hw hd =>
    have hworker : t.workers[i]? = some .dequeuing := hk.worker hw rfl
    have hne : ∀ code, s.main ≠ .returned code := by
      intro code hm
      cases (h.leaves code hm).ended _ (List.mem_of_getElem? hworker)
    obtain ⟨n, hn⟩ := (h.keeps hne).invariant
    have hlt : i < t.monitor.waiters.length := by
      rw [hn.waiters, ← hn.outcome.1]
      exact (List.getElem?_eq_some_iff.1 hworker).1
    rw [hk.monitor, QueueMonitor.dequeue_withIdle _ _ hlt] at hd
    obtain ⟨⟨_, m⟩, htaken, heq⟩ := Option.map_eq_some_iff.1 hd
    cases heq
    have hpool : PoolState.Step t (.dequeue i)
        { t with monitor := m, workers := t.workers.set i (.afterDequeue result) } := by
      simp only [PoolState.Step, PoolState.next, if_pos hworker, htaken, Option.map_some]
    exact h.worker hk hw rfl (fun he => by cases he) (WorkerPc.afterDequeue_inPool c result) hpool
      rfl rfl rfl rfl
  | wokeUp i monitor hm =>
    rw [hk.monitor, QueueMonitor.wakeUp_withIdle] at hm
    obtain ⟨m, hd, rfl⟩ := Option.map_eq_some_iff.1 hm
    have hpool : PoolState.Step t (.wakeUp i) { t with monitor := m } := by
      simp only [PoolState.Step, PoolState.next, hd, Option.map_some]
    exact h.monitor hk hpool rfl rfl rfl (.inl rfl)
  | workerPerformed i clientFd event rest u hw hp =>
    obtain ⟨hmain, hworkers, hmonitor, hcount, _⟩ := perform_leaves hp
    cases rest with
    | nil =>
      have hpool : PoolState.Step t (.handled i)
          { t with workers := t.workers.set i .dequeuing } := by
        have hworker : t.workers[i]? = some (.handling clientFd) := hk.worker hw rfl
        simp only [PoolState.Step, PoolState.next, hworker]
      have hset : (u.setWorker i (.afterIo clientFd [])).workers =
          s.workers.set i .dequeuing := congrArg (fun ws => ws.set i .dequeuing) hworkers
      exact h.worker hk hw rfl (fun he => by cases he) rfl hpool (hmonitor.trans hk.monitor) hset
        hcount hmain
    | cons next rest =>
      have hsame : ((u.setWorker i (.afterIo clientFd (next :: rest))).workers).map
          WorkerPc.inPool = s.workers.map WorkerPc.inPool := by
        change (u.workers.set i (.handling clientFd (next :: rest))).map WorkerPc.inPool = _
        rw [hworkers]
        exact WorkerPc.map_inPool_set hw rfl
      exact quiet (h.stutter hsame hmonitor hcount (.inl hmain))
  | disconnected clientFd hf => exact quiet (h.stutter rfl rfl rfl (.inl rfl))

end RunsPool

theorem initial_runsPool (pool : ThreadPool) (queue : SocketQueue) (threadCount : Nat)
    (allocated : Bool) : (initial queue threadCount allocated).RunsPool
      (.initial pool queue threadCount allocated) := by
  have hiff : ((threadCount : Int) ≤ 0 ∨ (!allocated) = true) ↔
      (threadCount = 0 ∨ (!allocated) = true) := by
    rw [Int.natCast_le_zero]
  have hworkers : (List.replicate threadCount WorkerPc.unstarted).map WorkerPc.inPool =
      ([] : List PoolWorker).map some ++ List.replicate threadCount none := List.map_replicate
  have hstaffed : (initial queue threadCount allocated).Staffed [] ⟨queue, []⟩ threadCount :=
    ⟨hworkers, rfl⟩
  by_cases hrefused : threadCount = 0 ∨ (!allocated) = true
  · have hserver : (initial queue threadCount allocated).main = .returned 1 := if_pos hrefused
    refine ⟨⟨threadCount, hstaffed⟩, ?_, ?_, fun hne => absurd hserver (hne 1), ?_⟩
    · rw [hserver]
      exact if_pos (hiff.2 hrefused)
    · rw [hserver]
      exact if_pos (hiff.2 hrefused)
    · intro code he
      obtain rfl : 1 = code := MainPc.returned.inj (hserver.symm.trans he)
      exact ⟨rfl, List.forall_mem_nil _, fun hc => by cases hc⟩
  · have hserver : (initial queue threadCount allocated).main = .starting 0 := if_neg hrefused
    obtain ⟨hpos, rfl⟩ : threadCount ≠ 0 ∧ allocated = true := by
      rw [not_or, Bool.not_eq_true', Bool.not_eq_false] at hrefused
      exact hrefused
    have hpool : (PoolState.initial pool queue threadCount true).pool =
        ⟨some (List.replicate threadCount none), threadCount⟩ := if_neg (mt hiff.1 hrefused)
    refine .of_keeps ⟨threadCount, hstaffed⟩ ?_ ?_ ?_ ⟨?_, ?_, ?_, ?_⟩
    · rw [hserver]
      exact if_neg (mt hiff.1 hrefused)
    · rw [hserver]
      exact if_neg (mt hiff.1 hrefused)
    · intro code he
      cases hserver.symm.trans he
    · exact ⟨0, PoolState.initial_invariant pool queue
        (Int.natCast_pos.2 (Nat.pos_of_ne_zero hpos))⟩
    · rw [hpool]
      exact ⟨_, rfl⟩
    · rw [hpool]
      rfl
    · exact List.length_replicate.symm

theorem RunsPool.count_joined (h : s.RunsPool t) (hm : s.main = .returned code)
    (hi : s.workers[i]? = some pc) :
    t.joined.count (some i) = if pc = .unstarted then 0 else 1 := by
  obtain ⟨k, hk⟩ := h.staffed
  have hjoined := (h.leaves code hm).joined
  have hmem : some i ∈ t.joined ↔ i < t.workers.length := by
    rw [hjoined, PoolState.handles, List.mem_map]
    constructor
    · rintro ⟨j, hj, he⟩
      cases he
      exact List.mem_range.1 hj
    · exact fun hlt => ⟨i, List.mem_range.2 hlt, rfl⟩
  have hcreated := hk.created hi
  by_cases hpc : pc = .unstarted
  · rw [if_pos hpc]
    exact List.count_eq_zero.2 fun hin => hcreated.1 (hmem.1 hin) hpc
  · rw [if_neg hpc]
    have hnodup : t.joined.Nodup := hjoined ▸ PoolState.handles_nodup _
    exact List.count_eq_one_of_mem hnodup (hmem.2 (hcreated.2 hpc))

end ServerState

open ServerState

/-- `server_run` handles its workers as `thread_pool_start` and `thread_pool_stop` do: what the
server has done in any run is what the pool has done in some run of its own. When `server_run` has
returned, each worker that was started was joined once, and no other was joined. -/
theorem serverRun_pool (pool : ThreadPool) (queue : SocketQueue) (threadCount : Nat)
    (allocated : Bool) (as : List Action) (s : ServerState)
    (hrun : Run ServerState.Step (.initial queue threadCount allocated) as s) :
    ∃ bs t, Run PoolState.Step (.initial pool queue threadCount allocated) bs t ∧ s.RunsPool t ∧
      ∀ code, s.main = .returned code → ∀ (i : Nat) pc, s.workers[i]? = some pc →
        t.joined.count (some i) = if pc = .unstarted then 0 else 1 := by
  obtain ⟨bs, t, hpool, h⟩ := hrun.follows (fun _ _ _ _ h hstep => h.step hstep)
    (initial_runsPool pool queue threadCount allocated)
  exact ⟨bs, t, hpool, h, fun code hm i pc hi => h.count_joined hm hi⟩

theorem serverRun_pool_stopped : ∃ s bs t, s.main = .returned 0 ∧
    Run PoolState.Step (.initial ⟨none, 0⟩ ⟨[0], 1, 0, 0, 0, false⟩ 1 true) bs t ∧
    ServerState.RunsPool s t := by
  obtain ⟨s, _, hrun, hm, _⟩ := stopped_run
  obtain ⟨bs, t, hpool, h, _⟩ := serverRun_pool ⟨none, 0⟩ ⟨[0], 1, 0, 0, 0, false⟩ 1 true
    stoppedActions s hrun.unrecorded
  exact ⟨s, bs, t, hm, hpool, h⟩

end Httpd
