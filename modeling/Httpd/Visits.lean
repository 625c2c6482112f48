import Httpd.Journal

namespace Httpd
open ListUpdate Transition
set_option autoImplicit true

namespace Journal

variable {s t : ServerState} {j : Journal}

def fateAt (j : Journal) (k : Nat) : Option Fate := j.visits[k]?.map Visit.fate

theorem fateAt_arrive (j : Journal) (clientFd : Fd) (k : Nat) :
    (j.arrive clientFd).fateAt k = if k = j.visits.length then some .accepted else j.fateAt k := by
  change ((j.visits ++ [_])[k]?).map Visit.fate = _
  rcases Nat.lt_trichotomy k j.visits.length with hlt | rfl | hgt
  · rw [List.getElem?_append_left hlt, if_neg (Nat.ne_of_lt hlt)]
    rfl
  · rw [List.getElem?_concat_length, if_pos rfl]
    rfl
  · rw [List.getElem?_eq_none (by rw [List.length_append]; exact hgt), if_neg (Nat.ne_of_gt hgt),
      fateAt, List.getElem?_eq_none (Nat.le_of_lt hgt)]

theorem fateAt_settle (j : Journal) (clientFd : Fd) (fate : Fate) (k : Nat) :
    (j.settle clientFd fate).fateAt k =
      if j.latest clientFd = k then (j.fateAt k).map fun _ => fate else j.fateAt k := by
  simp only [fateAt, Journal.settle, update, List.getElem?_modify, Option.map_eq_map,
    Option.map_map]
  split <;> rfl

theorem fateAt_perform (j : Journal) (clientFd : Fd) (event : SocketEvent) (k : Nat) :
    (j.perform clientFd event).fateAt k = j.fateAt k := by
  simp only [fateAt, Journal.perform, update, List.getElem?_modify, Option.map_eq_map,
    Option.map_map]
  apply congrArg (fun f => Option.map f j.visits[k]?)
  funext visit
  simp only [Function.comp_apply]
  split <;> rfl

theorem clientFds_update (j : Journal) (clientFd : Fd)
    (hf : ∀ visit : Visit, (f visit).clientFd = visit.clientFd) :
    (j.update clientFd f).visits.map Visit.clientFd = j.visits.map Visit.clientFd := by
  apply List.ext_getElem?
  intro k
  simp only [update, List.getElem?_map, List.getElem?_modify, Option.map_eq_map, Option.map_map]
  apply congrArg (fun g => Option.map g j.visits[k]?)
  funext visit
  simp only [Function.comp_apply]
  split
  · exact hf visit
  · rfl

theorem clientFds_settle (j : Journal) (clientFd : Fd) (fate : Fate) :
    (j.settle clientFd fate).visits.map Visit.clientFd = j.visits.map Visit.clientFd := by
  apply clientFds_update
  exact fun visit => rfl

theorem clientFds_perform (j : Journal) (clientFd : Fd) (event : SocketEvent) :
    (j.perform clientFd event).visits.map Visit.clientFd = j.visits.map Visit.clientFd := by
  apply clientFds_update
  exact fun visit => rfl

/-- The order of service, and what decides the fate of a connection. -/
structure Orders (j : Journal) (s : ServerState) : Prop where
  accepted : j.visits.map Visit.clientFd = s.accepted
  order : j.dequeued ++ s.monitor.queue.contents.map j.latest = j.enqueued
  ascending : j.enqueued.Pairwise (· < ·)
  recorded : ∀ k ∈ j.enqueued, k < j.visits.length
  newest : ∀ clientFd, s.main = .enqueuing clientFd → ∀ k ∈ j.enqueued, k < j.latest clientFd
  handled : ∀ k, k ∈ j.dequeued ↔ ∃ c, j.fateAt k = some (.handled c)
  full : ∀ k waiting outcomes, j.fateAt k = some (.refused waiting outcomes) →
    waiting = s.monitor.queue.capacity
  dropped : ∀ k, j.fateAt k = some .dropped → s.monitor.queue.shutdown = true

theorem Orders.unseen (h : j.Orders s) (ha : t.accepted = s.accepted)
    (hc : t.monitor.queue.contents = s.monitor.queue.contents)
    (hk : t.monitor.queue.capacity = s.monitor.queue.capacity)
    (hd : s.monitor.queue.shutdown = true → t.monitor.queue.shutdown = true)
    (hm : ∀ clientFd, t.main = .enqueuing clientFd → s.main = .enqueuing clientFd) :
    j.Orders t := by
  constructor
  · exact h.accepted.trans ha.symm
  · rw [hc]
    exact h.order
  · exact h.ascending
  · exact h.recorded
  · exact fun clientFd he => h.newest clientFd (hm clientFd he)
  · exact h.handled
  · rw [hk]
    exact h.full
  · exact fun k hf => hd (h.dropped k hf)

theorem Orders.sameQueue (h : j.Orders s) (ha : t.accepted = s.accepted)
    (hq : t.monitor.queue = s.monitor.queue)
    (hm : ∀ clientFd, t.main = .enqueuing clientFd → s.main = .enqueuing clientFd) :
    j.Orders t := by
  apply h.unseen ha (congrArg _ hq) (congrArg _ hq) _ hm
  rw [hq]
  exact id

theorem Orders.perform (h : j.Orders s) (clientFd : Fd) (event : SocketEvent) :
    (j.perform clientFd event).Orders s := by
  constructor
  · exact (j.clientFds_perform clientFd event).trans h.accepted
  · exact h.order
  · exact h.ascending
  · intro k hk
    exact Nat.lt_of_lt_of_eq (h.recorded k hk) (List.length_modify ..).symm
  · exact h.newest
  · simp only [fateAt_perform]
    exact h.handled
  · simp only [fateAt_perform]
    exact h.full
  · simp only [fateAt_perform]
    exact h.dropped

theorem Orders.arrive (h : j.Orders s) (hf : clientFd ∉ s.monitor.queue.contents) :
    (j.arrive clientFd).Orders ((s.acquire clientFd).toMain (.enqueuing clientFd)) := by
  have hold : ∀ {fate k}, fate ≠ .accepted → (j.arrive clientFd).fateAt k = some fate →
      j.fateAt k = some fate := by
    intro fate k hne hk
    rw [fateAt_arrive] at hk
    split at hk
    · exact absurd (Option.some.inj hk).symm hne
    · exact hk
  constructor
  · change (j.visits ++ [_]).map Visit.clientFd = s.accepted ++ [clientFd]
    rw [List.map_append, h.accepted]
    rfl
  · change j.dequeued ++ s.monitor.queue.contents.map _ = j.enqueued
    rw [← h.order]
    apply congrArg (j.dequeued ++ ·)
    apply List.map_congr_left
    intro fd hm
    have hne : fd ≠ clientFd := fun he => hf (he ▸ hm)
    exact Function.update_of_ne hne ..
  · exact h.ascending
  · intro k hk
    change k < (j.visits ++ [_]).length
    rw [List.length_append]
    exact Nat.lt_succ_of_lt (h.recorded k hk)
  · intro fd he k hk
    cases he
    change k < Function.update j.latest clientFd j.visits.length clientFd
    rw [Function.update_self]
    exact h.recorded k hk
  · intro k
    apply (h.handled k).trans
    constructor
    · intro hc
      obtain ⟨c, hk⟩ := hc
      refine ⟨c, ?_⟩
      have hlt : k < j.visits.length := by
        obtain ⟨visit, hv, _⟩ := Option.map_eq_some_iff.1 hk
        exact (List.getElem?_eq_some_iff.1 hv).1
      rw [fateAt_arrive, if_neg (Nat.ne_of_lt hlt)]
      exact hk
    · intro hc
      obtain ⟨c, hk⟩ := hc
      exact ⟨c, hold nofun hk⟩
  · exact fun k waiting outcomes hk => h.full k waiting outcomes (hold nofun hk)
  · exact fun k hk => h.dropped k (hold nofun hk)

theorem fateAt_settle_cases (h : (j.settle clientFd fate).fateAt k = some after) :
    (k = j.latest clientFd ∧ after = fate) ∨ j.fateAt k = some after := by
  rw [fateAt_settle] at h
  split at h
  · rename_i hk
    obtain ⟨_, _, he⟩ := Option.map_eq_some_iff.1 h
    exact .inl ⟨hk.symm, he.symm⟩
  · exact .inr h

theorem handled_settle (hu : j.fateAt (j.latest clientFd) = some old) (ho : old.settled = false) :
    (∃ c, (j.settle clientFd fate).fateAt k = some (.handled c)) ↔
      (∃ c, j.fateAt k = some (.handled c)) ∨ (k = j.latest clientFd ∧ ∃ c, fate = .handled c) := by
  constructor
  · intro h
    obtain ⟨c, hk⟩ := h
    obtain ⟨hl, he⟩ | hk := fateAt_settle_cases hk
    · exact .inr ⟨hl, c, he.symm⟩
    · exact .inl ⟨c, hk⟩
  · intro h
    rw [fateAt_settle]
    obtain ⟨c, hk⟩ | ⟨rfl, c, rfl⟩ := h
    · refine ⟨c, ?_⟩
      rw [if_neg, hk]
      intro he
      rw [he, hk] at hu
      cases hu
      cases ho
    · refine ⟨c, ?_⟩
      rw [if_pos rfl, hu]
      rfl

theorem Keeps.unsettled (h : j.Keeps ((clientFd, holding) :: held))
    (hu : ∀ visit : Visit, visit.Matches holding → visit.fate.settled = false) :
    ∃ fate, j.fateAt (j.latest clientFd) = some fate ∧ fate.settled = false := by
  obtain ⟨visit, hv, _, hm⟩ := h.present clientFd holding List.mem_cons_self
  exact ⟨visit.fate, congrArg (Option.map Visit.fate) hv, hu visit hm⟩

theorem Orders.settle (t : ServerState) (fate : Fate) (enqueued dequeued : List Nat)
    (h : j.Orders s) (hu : j.fateAt (j.latest clientFd) = some old) (ho : old.settled = false)
    (ha : t.accepted = s.accepted)
    (hcap : t.monitor.queue.capacity = s.monitor.queue.capacity)
    (hshut : t.monitor.queue.shutdown = s.monitor.queue.shutdown)
    (hm : ∀ fd, t.main = .enqueuing fd → ∀ k ∈ enqueued, k < j.latest fd)
    (hfull : ∀ waiting outcomes, fate = .refused waiting outcomes →
      waiting = s.monitor.queue.capacity)
    (hdrop : fate = .dropped → s.monitor.queue.shutdown = true)
    (horder : dequeued ++ t.monitor.queue.contents.map j.latest = enqueued)
    (hasc : enqueued.Pairwise (· < ·)) (hrec : ∀ k ∈ enqueued, k < j.visits.length)
    (hhandled : ∀ k, k ∈ dequeued ↔
      k ∈ j.dequeued ∨ (k = j.latest clientFd ∧ ∃ c, fate = .handled c)) :
    Orders { j.settle clientFd fate with enqueued := enqueued, dequeued := dequeued } t := by
  constructor
  · exact ((j.clientFds_settle clientFd fate).trans h.accepted).trans ha.symm
  · exact horder
  · exact hasc
  · intro k hk
    exact Nat.lt_of_lt_of_eq (hrec k hk) (List.length_modify ..).symm
  · exact hm
  · intro k
    rw [hhandled k, h.handled k]
    exact (handled_settle hu ho).symm
  · intro k waiting outcomes hf
    rw [hcap]
    obtain ⟨_, he⟩ | hf := fateAt_settle_cases hf
    · exact hfull waiting outcomes he.symm
    · exact h.full k waiting outcomes hf
  · intro k hf
    rw [hshut]
    obtain ⟨_, he⟩ | hf := fateAt_settle_cases hf
    · exact hdrop he.symm
    · exact h.dropped k hf

theorem Orders.enqueue {monitor : QueueMonitor} (h : j.Orders s) (hk : j.Keeps s.held)
    (hq : s.monitor.queue.Valid) (hm : s.main = .enqueuing clientFd)
    (he : s.monitor.enqueue clientFd mask = some (result, monitor)) :
    (record s (.enqueue mask outcomes) j).Orders { s with
      monitor := monitor, main := .afterEnqueue clientFd outcomes result } := by
  obtain ⟨_, hcap, hshut, hcontents⟩ := QueueMonitor.enqueue_queue hq he
  obtain ⟨hfull, hclosed⟩ := QueueMonitor.enqueue_refuses hq he
  rw [ServerState.held, hm] at hk
  obtain ⟨old, hu, ho⟩ := hk.unsettled fun visit hv => hv.1 ▸ rfl
  have hlt : j.latest clientFd < j.visits.length := by
    obtain ⟨visit, hv, _⟩ := Option.map_eq_some_iff.1 hu
    exact (List.getElem?_eq_some_iff.1 hv).1
  have hnone : ∀ fate : Fate, (∀ c, fate ≠ .handled c) → ∀ k, k ∈ j.dequeued ↔
      k ∈ j.dequeued ∨ (k = j.latest clientFd ∧ ∃ c, fate = .handled c) := by
    intro fate hf k
    constructor
    · exact .inl
    · intro hk
      obtain hk | ⟨_, c, he⟩ := hk
      · exact hk
      · exact absurd he (hf c)
  simp only [record, hm, he, Option.map_some]
  obtain ⟨rfl, _, hc⟩ | ⟨hne, hc⟩ := hcontents
  · apply h.settle { s with monitor := monitor, main := .testing } .queued
      (j.enqueued ++ [j.latest clientFd]) j.dequeued hu ho rfl hcap hshut
      (fun _ hq => by cases hq) (fun _ _ hq => by cases hq) (fun hq => by cases hq)
    · simp only [hc, List.map_append, ← List.append_assoc, h.order, List.map_singleton]
    · apply List.pairwise_append.2
      refine ⟨h.ascending, List.pairwise_singleton _ _, fun k hk l hl => ?_⟩
      rw [List.mem_singleton.1 hl]
      exact h.newest clientFd hm k hk
    · intro k hk
      cases List.mem_append.1 hk with
      | inl hk => exact h.recorded k hk
      | inr hk =>
        rw [List.mem_singleton.1 hk]
        exact hlt
    · exact hnone .queued fun _ hq => by cases hq
  · have horder : j.dequeued ++ monitor.queue.contents.map j.latest = j.enqueued := by
      rw [hc]
      exact h.order
    cases result with
    | ok => exact absurd rfl hne
    | full =>
      apply h.settle
        { s with monitor := monitor, main := .refusing clientFd (refusal outcomes) }
        (.refused s.monitor.queue.contents.length outcomes) j.enqueued j.dequeued hu ho rfl hcap
        hshut (fun _ hq => by cases hq) ?_ (fun hq => by cases hq) horder h.ascending h.recorded
      · exact hnone _ fun _ hq => by cases hq
      · intro waiting outcomes he
        cases he
        exact hfull rfl
    | closed =>
      exact h.settle { s with monitor := monitor, main := .refusing clientFd [.closed] } .dropped
        j.enqueued j.dequeued hu ho rfl hcap hshut (fun _ hq => by cases hq)
        (fun _ _ hq => by cases hq) (fun _ => hclosed rfl) horder h.ascending h.recorded
        (hnone .dropped fun _ hq => by cases hq)

theorem Orders.dequeue {monitor : QueueMonitor} (h : j.Orders s) (hk : j.Keeps s.held)
    (hq : s.monitor.queue.Valid) (hd : s.monitor.dequeue i = some (result, monitor)) :
    (record s (.dequeue i c) j).Orders { s with
      monitor := monitor, workers := s.workers.set i (.afterDequeue c result) } := by
  obtain ⟨_, hcap, hshut, hcontents⟩ := QueueMonitor.dequeue_queue hq hd
  simp only [record, hd, Option.map_some]
  obtain ⟨rfl, hc⟩ | ⟨rfl, _, _, hc⟩ | ⟨fd, q, rfl, hc⟩ := hcontents
  · exact h.unseen rfl hc hcap hshut.trans fun _ hm => hm
  · exact h.unseen rfl hc hcap hshut.trans fun _ hm => hm
  · have hheld : s.held.Perm ((fd, .queued) :: (s.main.held ++
        (monitor.queue.contents.map (·, .queued) ++ s.workers.flatMap WorkerPc.held))) := by
      simp only [ServerState.held, hc, List.map_cons, List.cons_append]
      exact List.perm_middle
    obtain ⟨fate, hu, ho⟩ := (hk.perm hheld.symm).unsettled fun visit hv => hv.1 ▸ rfl
    have horder := h.order
    rw [hc, List.map_cons] at horder
    apply h.settle
      { s with monitor := monitor, workers := s.workers.set i (.handling fd c.trace) }
      (.handled c) j.enqueued (j.dequeued ++ [j.latest fd]) hu ho rfl hcap hshut h.newest
      (fun _ _ hq => by cases hq) (fun hq => by cases hq) ((List.append_assoc ..).trans horder)
      h.ascending h.recorded
    intro k
    apply List.mem_append.trans
    apply or_congr_right
    rw [List.mem_singleton]
    exact ⟨fun hl => ⟨hl, c, rfl⟩, fun hl => hl.1⟩

theorem Orders.step (h : j.Orders s) (hk : j.Keeps s.held) (ho : s.Owned c n)
    (hs : ServerState.Step s a t) : (record s a j).Orders t := by
  cases hs.acts with
  | accepted clientFd hm hf =>
    apply h.arrive
    intro he
    apply hf
    apply ho.ledger.holders.mem_iff.1
    exact List.mem_append_right _ (List.mem_append_left _ he)
  | enqueued clientFd mask outcomes result monitor hm he => exact h.enqueue hk ho.valid hm he
  | mainPerformed clientFd event rest u hm hp =>
    simp only [record, hm]
    obtain ⟨_, _, hq, _, _, ha⟩ := ServerState.perform_leaves hp
    have hafter : ∀ fd, MainPc.afterIo clientFd rest = .enqueuing fd → s.main = .enqueuing fd := by
      intro fd he
      cases rest <;> cases he
    exact (h.perform clientFd event).sameQueue (t := u.toMain (.afterIo clientFd rest)) ha
      (congrArg QueueMonitor.queue hq) hafter
  | dequeued i conn result monitor hw hd => exact h.dequeue hk ho.valid hd
  | wokeUp i monitor hm =>
    have hq : monitor.queue = s.monitor.queue := QueueMonitor.wakeUp_queue hm
    exact h.sameQueue rfl hq fun _ hm => hm
  | workerPerformed i clientFd event rest u hw hp =>
    simp only [record, hw]
    obtain ⟨hmain, _, hq, _, _, ha⟩ := ServerState.perform_leaves hp
    exact (h.perform clientFd event).sameQueue ha (congrArg QueueMonitor.queue hq)
      fun _ he => hmain.symm.trans he
  | tested hm =>
    cases s.shouldStop with
    | true => exact h.sameQueue rfl rfl fun _ he => by cases he
    | false => exact h.sameQueue rfl rfl fun _ he => by cases he
  | acceptFailed hm =>
    cases s.shouldStop with
    | true => exact h.sameQueue rfl rfl fun _ he => by cases he
    | false => exact h.sameQueue rfl rfl fun _ he => by cases he
  | poolShutdown code hm => exact h.unseen rfl rfl rfl (fun _ => rfl) fun _ he => by cases he
  | queueShutdown hs => exact h.unseen rfl rfl rfl (fun _ => rfl) fun _ hm => hm
  | stopRequested => exact h.sameQueue rfl rfl fun _ hm => hm
  | disconnected clientFd hf => exact h.sameQueue rfl rfl fun _ hm => hm
  | _ => exact h.sameQueue rfl rfl fun _ he => by cases he

theorem empty_orders (hs : s.accepted = []) (hq : s.monitor.queue.contents = []) :
    empty.Orders s := by
  constructor
  · exact hs.symm
  · rw [hq]
    rfl
  · exact List.Pairwise.nil
  · exact nofun
  · exact nofun
  · intro k
    constructor
    · exact nofun
    · intro h
      obtain ⟨c, hk⟩ := h
      cases hk
  · exact fun k waiting outcomes hk => by cases hk
  · exact fun k hk => by cases hk

theorem run_kept (hk : j.Keeps s.held) (hj : j.Orders s) (ho : s.Owned c n) (hp : s.Phased n)
    (hrun : Run (Recording ServerState.Step record) (s, j) as (t, j')) :
    j'.Keeps t.held ∧ j'.Orders t ∧ t.Owned c n ∧ t.Phased n := by
  generalize he : (s, j) = start at hrun
  generalize he' : (t, j') = last at hrun
  induction hrun generalizing s j with
  | nil =>
    cases he
    cases he'
    exact ⟨hk, hj, ho, hp⟩
  | @cons first a mid as last hs _ ih =>
    obtain ⟨u, j''⟩ := mid
    cases he
    obtain ⟨hstep, rfl⟩ := hs
    exact ih (hk.step ho hstep) (hj.step hk ho hstep) (ho.step hstep) (hp.step ho.valid hstep) rfl
      he'

end Journal

theorem ServerState.initial_journal {queue : SocketQueue}
    (hq : socketQueueInit c true = some queue) (n : Nat) (allocated : Bool) :
    Journal.empty.Keeps (initial queue n allocated).held ∧
      Journal.empty.Orders (initial queue n allocated) := by
  have ho := initial_owned hq n allocated
  have howners : (initial queue n allocated).owners = [] := List.perm_nil.1 ho.ledger.holders
  constructor
  · have hheld : (initial queue n allocated).held = [] := by
      rw [← held_owners] at howners
      exact List.map_eq_nil_iff.1 howners
    rw [hheld]
    exact .empty
  · apply Journal.empty_orders rfl
    exact (List.append_eq_nil_iff.1 (List.append_eq_nil_iff.1 howners).2).1

theorem Journal.Keeps.performed {j : Journal} (h : j.Keeps held) (hv : visit ∈ j.visits) :
    visit.performed <+: visit.fate.script := by
  obtain ⟨k, hk⟩ := List.mem_iff_getElem?.1 hv
  obtain ⟨_, hd⟩ | ⟨hm, rfl⟩ := h.ended k visit hk
  · rw [hd]
  · obtain ⟨⟨fd, holding⟩, hmem, hfd⟩ := List.mem_map.1 hm
    obtain ⟨other, ho, _, hmatch⟩ := h.present fd holding hmem
    cases hfd
    rw [hk] at ho
    cases ho
    cases holding with
    | accepted =>
      rw [hmatch.2]
      exact List.nil_prefix
    | queued =>
      rw [hmatch.2]
      exact List.nil_prefix
    | working rest => exact ⟨rest, hmatch.2⟩

/-- In every run each accepted connection meets one fate: a worker serves it, the accept loop
refuses it because so many wait as the queue holds, or it is dropped after the shutdown. What is
done on its socket is at any time the beginning of what that fate asks for and all of it once the
connection is closed; then a served one has carried its responses, and when `server_run` returns 0
every connection has come to that. -/
theorem serverRun_serves (c n : Nat) (queue : SocketQueue) (allocated : Bool) (hn : 1 ≤ n)
    (hq : socketQueueInit c true = some queue) (as : List Action) (s : ServerState)
    (hrun : Run ServerState.Step (.initial queue n allocated) as s) :
    ∃ j, Run (Recording ServerState.Step Journal.record)
        (.initial queue n allocated, .empty) as (s, j) ∧
      j.visits.map Visit.clientFd = s.accepted ∧
      (∀ visit ∈ j.visits, visit.performed <+: visit.fate.script) ∧
      (∀ k visit, j.visits[k]? = some visit → visit.Done ∨
        (visit.clientFd ∈ s.opened ∧ j.latest visit.clientFd = k)) ∧
      (∀ visit ∈ j.visits, ∀ conn, visit.fate = .handled conn → visit.Done →
        Answered (handleClient conn) (wire visit.performed)) ∧
      (∀ visit ∈ j.visits, ∀ waiting outcomes, visit.fate = .refused waiting outcomes →
        waiting = c) ∧
      (∀ visit ∈ j.visits, visit.fate = .dropped → s.monitor.queue.shutdown = true) ∧
      (s.main = .returned 0 → ∀ visit ∈ j.visits, visit.Done) := by
  obtain ⟨j, hj⟩ := hrun.recorded Journal.record .empty
  obtain ⟨hk₀, hj₀⟩ := ServerState.initial_journal hq n allocated
  obtain ⟨hk, ho, hown, hp⟩ := Journal.run_kept hk₀ hj₀ (ServerState.initial_owned hq n allocated)
    (ServerState.initial_phased queue n allocated) hj
  have hover : ∀ k visit, j.visits[k]? = some visit → visit.Done ∨
      (visit.clientFd ∈ s.opened ∧ j.latest visit.clientFd = k) := by
    intro k visit hv
    apply (hk.ended k visit hv).imp_right
    intro hmem
    rw [ServerState.held_owners] at hmem
    exact ⟨hown.ledger.holders.mem_iff.1 hmem.1, hmem.2⟩
  have hfate : ∀ visit ∈ j.visits, ∃ k, j.fateAt k = some visit.fate := by
    intro visit hv
    obtain ⟨k, hk⟩ := List.mem_iff_getElem?.1 hv
    exact ⟨k, congrArg (Option.map Visit.fate) hk⟩
  refine ⟨j, hj, ho.accepted, fun visit hv => hk.performed hv, hover, ?_, ?_, ?_, ?_⟩
  · intro visit _ conn hf hd
    rw [hd.2, hf]
    change Answered _ (wire (_ ++ [.closed]))
    rw [wire_append]
    change Answered _ (_ ++ [])
    rw [List.append_nil]
    exact clientLoop_answered (by rw [ReadState.unread_initial]; exact Nat.lt_succ_self _)
  · intro visit hv waiting outcomes hf
    obtain ⟨k, hk⟩ := hfate visit hv
    rw [hf] at hk
    exact (ho.full k waiting outcomes hk).trans hown.capacity
  · intro visit hv hf
    obtain ⟨k, hk⟩ := hfate visit hv
    rw [hf] at hk
    exact ho.dropped k hk
  · intro hm visit hv
    obtain ⟨k, hk⟩ := List.mem_iff_getElem?.1 hv
    have hempty : s.opened = [] := hown.opened_empty hp hn hm
    apply (hover k visit hk).resolve_right
    intro hopen
    rw [hempty] at hopen
    cases hopen.1

def stoppedActions : List Action :=
  let c : Connection := ⟨[], [], fun _ => pageOs, [], []⟩
  [.spawn true, .spawn true, .test, .accept (.accepted 5), .enqueue [] [], .dequeue 0 c, .test,
    .accept (.accepted 6), .enqueue [] [], .test, .accept (.accepted 7), .enqueue [] [],
    .mainIo, .mainIo, .mainIo, .requestStop, .shutdownQueue, .workerIo 0, .workerIo 0,
    .dequeue 0 c, .test, .shutdownPool, .workerIo 0, .workerIo 0, .dequeue 0 c, .join, .join]

theorem stopped_run : ∃ s j, Run (Recording ServerState.Step Journal.record)
    (.initial ⟨[0], 1, 0, 0, 0, false⟩ 1 true, .empty) stoppedActions (s, j) ∧
    s.main = .returned 0 ∧ s.accepted = [5, 6, 7] ∧ j.enqueued = [0, 1] := by
  let next : ServerState × Journal → Action → Option (ServerState × Journal) :=
    fun p a => (p.1.next a).map fun t => (t, Journal.record p.1 a p.2)
  have hrun : (follow next (.initial ⟨[0], 1, 0, 0, 0, false⟩ 1 true, .empty)
      stoppedActions).map (fun p => (p.1.main, p.1.accepted, p.2.enqueued)) =
        some (.returned 0, [5, 6, 7], [0, 1]) := by decide +kernel
  obtain ⟨⟨s, j⟩, hf, he⟩ := Option.map_eq_some_iff.1 hrun
  exact ⟨s, j, recording_of_follow hf, congrArg Prod.fst he, congrArg (·.2.1) he,
    congrArg (·.2.2) he⟩

theorem serverRun_serves_stopped : ∃ j : Journal, j.visits.map Visit.clientFd = [5, 6, 7] ∧
    ∀ visit ∈ j.visits, visit.Done := by
  obtain ⟨s, _, hrun, hm, ha, _⟩ := stopped_run
  obtain ⟨j, _, hv, _, _, _, _, _, hdone⟩ := serverRun_serves 1 1 ⟨[0], 1, 0, 0, 0, false⟩ true
    (Nat.le_refl 1) rfl stoppedActions s hrun.unrecorded
  exact ⟨j, hv.trans ha, hdone hm⟩

theorem Journal.Orders.enqueued_iff {j : Journal} {s : ServerState} (h : j.Orders s)
    (hk : j.Keeps s.held) (k : Nat) :
    k ∈ j.enqueued ↔ j.fateAt k = some .queued ∨ ∃ conn, j.fateAt k = some (.handled conn) := by
  rw [← h.order, List.mem_append, h.handled k, or_comm]
  apply or_congr_left
  constructor
  · intro hm
    obtain ⟨fd, hfd, rfl⟩ := List.mem_map.1 hm
    have hheld : (fd, .queued) ∈ s.held :=
      List.mem_append_right _ (List.mem_append_left _ (List.mem_map_of_mem hfd))
    obtain ⟨visit, hv, _, hmatch⟩ := hk.present fd .queued hheld
    rw [Journal.fateAt, hv]
    exact congrArg some hmatch.1
  · intro hf
    obtain ⟨visit, hv, hqueued⟩ := Option.map_eq_some_iff.1 hf
    obtain ⟨hs, _⟩ | ⟨hm, rfl⟩ := hk.ended k visit hv
    · rw [hqueued] at hs
      cases hs
    · obtain ⟨⟨fd, holding⟩, hmem, hfd⟩ := List.mem_map.1 hm
      obtain ⟨other, ho, _, hmatch⟩ := hk.present fd holding hmem
      cases hfd
      rw [hv] at ho
      cases ho
      cases holding with
      | accepted => cases hqueued.symm.trans hmatch.1
      | working rest => cases (congrArg Fate.settled hqueued).symm.trans hmatch.1
      | queued => exact List.mem_map_of_mem (ServerState.mem_queue hmem)

/-- Workers take connections in the order in which these were accepted, leaving out the ones turned
away; the rest is what the queue holds, and nothing is left when `server_run` returns 0. -/
theorem serverRun_order (c n : Nat) (queue : SocketQueue) (allocated : Bool) (hn : 1 ≤ n)
    (hq : socketQueueInit c true = some queue) (as : List Action) (s : ServerState) (j : Journal)
    (hrun : Run (Recording ServerState.Step Journal.record)
      (.initial queue n allocated, .empty) as (s, j)) :
    j.dequeued ++ s.monitor.queue.contents.map j.latest = j.enqueued ∧
      j.enqueued.Pairwise (· < ·) ∧
      (∀ k, k ∈ j.dequeued ↔ ∃ conn, j.fateAt k = some (.handled conn)) ∧
      (∀ k, k ∈ j.enqueued ↔
        j.fateAt k = some .queued ∨ ∃ conn, j.fateAt k = some (.handled conn)) ∧
      (s.main = .returned 0 → j.dequeued = j.enqueued) := by
  obtain ⟨hk₀, hj₀⟩ := ServerState.initial_journal hq n allocated
  obtain ⟨hk, ho, _, hp⟩ := Journal.run_kept hk₀ hj₀ (ServerState.initial_owned hq n allocated)
    (ServerState.initial_phased queue n allocated) hrun
  refine ⟨ho.order, ho.ascending, ho.handled, ho.enqueued_iff hk, fun hm => ?_⟩
  have hphase := hp.phase
  rw [hm] at hphase
  have hexited : s.workers[0]? = some .exited := hphase rfl 0 hn
  have horder := ho.order
  rw [(hp.exited (mem_of_getElem? hexited)).2, List.map_nil, List.append_nil] at horder
  exact horder

theorem serverRun_order_stopped : ∃ j : Journal, j.enqueued = [0, 1] ∧ j.dequeued = [0, 1] := by
  obtain ⟨s, j, hrun, hm, _, he⟩ := stopped_run
  obtain ⟨_, _, _, _, hreturn⟩ := serverRun_order 1 1 ⟨[0], 1, 0, 0, 0, false⟩ true
    (Nat.le_refl 1) rfl stoppedActions s j hrun
  exact ⟨j, he, (hreturn hm).trans he⟩

end Httpd
