import Httpd.Ownership

namespace Httpd
open ListUpdate Transition
set_option autoImplicit true

/-- What becomes of a connection that was accepted; one that is refused finds so many waiting. -/
inductive Fate where
  | accepted
  | queued
  | handled (c : Connection)
  | refused (waiting : Nat) (outcomes : List SendOutcome)
  | dropped

def Fate.script : Fate → List SocketEvent
  | .accepted | .queued => []
  | .handled c => c.trace
  | .refused _ outcomes => refusal outcomes
  | .dropped => [.closed]

def Fate.settled : Fate → Bool
  | .accepted | .queued => false
  | .handled _ | .refused .. | .dropped => true

/-- A connection from its acceptance on, with the calls that were made on its socket. -/
structure Visit where
  clientFd : Fd
  fate : Fate
  performed : List SocketEvent

/-- The visits in the order of their acceptance, the latest one on each descriptor, and those that
entered and left the queue, in order. -/
structure Journal where
  visits : List Visit
  latest : Fd → Nat
  enqueued : List Nat
  dequeued : List Nat

namespace Journal

def empty : Journal := ⟨[], fun _ => 0, [], []⟩

def arrive (j : Journal) (clientFd : Fd) : Journal :=
  { j with
    visits := j.visits ++ [⟨clientFd, .accepted, []⟩]
    latest := Function.update j.latest clientFd j.visits.length }

def update (j : Journal) (clientFd : Fd) (f : Visit → Visit) : Journal :=
  { j with visits := j.visits.modify (j.latest clientFd) f }

def settle (j : Journal) (clientFd : Fd) (fate : Fate) : Journal :=
  j.update clientFd fun visit => { visit with fate := fate }

def perform (j : Journal) (clientFd : Fd) (event : SocketEvent) : Journal :=
  j.update clientFd fun visit => { visit with performed := visit.performed ++ [event] }

def record (s : ServerState) (a : Action) (j : Journal) : Journal :=
  match a with
  | .accept (.accepted clientFd) => j.arrive clientFd
  | .enqueue mask outcomes =>
    match s.main with
    | .enqueuing clientFd =>
      match (s.monitor.enqueue clientFd mask).map Prod.fst with
      | some .ok =>
        { j.settle clientFd .queued with enqueued := j.enqueued ++ [j.latest clientFd] }
      | some .full =>
        j.settle clientFd (.refused s.monitor.queue.contents.length outcomes)
      | some .closed => j.settle clientFd .dropped
      | none => j
    | _ => j
  | .dequeue i c =>
    match (s.monitor.dequeue i).map Prod.fst with
    | some (.took clientFd _) =>
      { j.settle clientFd (.handled c) with dequeued := j.dequeued ++ [j.latest clientFd] }
    | _ => j
  | .mainIo =>
    match s.main with
    | .refusing clientFd (event :: _) => j.perform clientFd event
    | _ => j
  | .workerIo i =>
    match s.workers[i]? with
    | some (.handling clientFd (event :: _)) => j.perform clientFd event
    | _ => j
  | _ => j

end Journal

/-- How a connection that is open is held, with the calls still to be made on it. -/
inductive Holding where
  | accepted
  | queued
  | working (rest : List SocketEvent)

def Visit.Matches (visit : Visit) : Holding → Prop
  | .accepted => visit.fate = .accepted ∧ visit.performed = []
  | .queued => visit.fate = .queued ∧ visit.performed = []
  | .working rest => visit.fate.settled = true ∧ visit.performed ++ rest = visit.fate.script

def Visit.Done (visit : Visit) : Prop :=
  visit.fate.settled = true ∧ visit.performed = visit.fate.script

namespace Journal

/-- Each open connection has its visit, and every other visit is over. -/
structure Keeps (j : Journal) (held : List (Fd × Holding)) : Prop where
  nodup : (held.map Prod.fst).Nodup
  present : ∀ clientFd holding, (clientFd, holding) ∈ held →
    ∃ visit, j.visits[j.latest clientFd]? = some visit ∧ visit.clientFd = clientFd ∧
      visit.Matches holding
  ended : ∀ (k : Nat) visit, j.visits[k]? = some visit → visit.Done ∨
    visit.clientFd ∈ held.map Prod.fst ∧ j.latest visit.clientFd = k

variable {j : Journal} {held held' : List (Fd × Holding)} {f : Visit → Visit}

theorem Keeps.perm (h : j.Keeps held) (hp : held'.Perm held) : j.Keeps held' := by
  constructor
  · exact (hp.map Prod.fst).nodup_iff.2 h.nodup
  · exact fun clientFd holding hm => h.present clientFd holding (hp.mem_iff.1 hm)
  · exact fun k visit hk => (h.ended k visit hk).imp_right fun hv =>
      ⟨(hp.map Prod.fst).mem_iff.2 hv.1, hv.2⟩

theorem Keeps.empty : empty.Keeps [] :=
  ⟨List.nodup_nil, nofun, fun k visit hk => by cases hk⟩

theorem Keeps.accept (h : j.Keeps held) (hfd : clientFd ∉ held.map Prod.fst) :
    (j.arrive clientFd).Keeps ((clientFd, .accepted) :: held) := by
  constructor
  · exact List.nodup_cons.2 ⟨hfd, h.nodup⟩
  · intro fd holding hm
    cases List.mem_cons.1 hm with
    | inl he =>
      cases he
      refine ⟨⟨clientFd, .accepted, []⟩, ?_, rfl, rfl, rfl⟩
      change (_ ++ [_])[Function.update j.latest clientFd j.visits.length clientFd]? = _
      rw [Function.update_self, List.getElem?_concat_length]
    | inr hm =>
      obtain ⟨visit, hv, hfd', hmatch⟩ := h.present fd holding hm
      have hne : fd ≠ clientFd := fun he => hfd (he ▸ List.mem_map_of_mem hm)
      refine ⟨visit, ?_, hfd', hmatch⟩
      change (_ ++ [_])[Function.update j.latest clientFd j.visits.length fd]? = _
      rw [Function.update_of_ne hne]
      rw [List.getElem?_append_left (List.getElem?_eq_some_iff.1 hv).1]
      exact hv
  · intro k visit hk
    change (j.visits ++ [_])[k]? = some visit at hk
    change visit.Done ∨ visit.clientFd ∈ clientFd :: _ ∧
      Function.update j.latest clientFd j.visits.length visit.clientFd = k
    rcases Nat.lt_trichotomy k j.visits.length with hlt | rfl | hgt
    · rw [List.getElem?_append_left hlt] at hk
      apply (h.ended k visit hk).imp_right
      intro hv
      have hne : visit.clientFd ≠ clientFd := fun he => hfd (he ▸ hv.1)
      rw [Function.update_of_ne hne]
      exact ⟨List.mem_cons_of_mem _ hv.1, hv.2⟩
    · rw [List.getElem?_concat_length] at hk
      cases hk
      exact .inr ⟨List.mem_cons_self, Function.update_self ..⟩
    · rw [List.getElem?_eq_none (by rw [List.length_append]; exact hgt)] at hk
      cases hk

theorem Keeps.present_update (h : j.Keeps ((clientFd, old) :: held)) (hm : (fd, holding) ∈ held) :
    ∃ visit, (j.update clientFd f).visits[j.latest fd]? = some visit ∧ visit.clientFd = fd ∧
      visit.Matches holding := by
  obtain ⟨mine, hmine, hfd, _⟩ := h.present clientFd old List.mem_cons_self
  obtain ⟨visit, hv, hfd', hmatch⟩ := h.present fd holding (List.mem_cons_of_mem _ hm)
  have hnodup : clientFd ∉ held.map Prod.fst := (List.nodup_cons.1 h.nodup).1
  have hne : j.latest clientFd ≠ j.latest fd := by
    intro he
    rw [he, hv] at hmine
    cases hmine
    exact hnodup (hfd ▸ hfd' ▸ List.mem_map_of_mem hm)
  exact ⟨visit, (List.getElem?_modify_ne f j.visits hne).trans hv, hfd', hmatch⟩

theorem Keeps.ended_update (h : j.Keeps ((clientFd, old) :: held))
    (hk : (j.update clientFd f).visits[k]? = some visit) :
    (∃ before, visit = f before ∧ before.clientFd = clientFd ∧ before.Matches old ∧
      k = j.latest clientFd) ∨
    visit.Done ∨ visit.clientFd ∈ held.map Prod.fst ∧ j.latest visit.clientFd = k := by
  obtain ⟨mine, hmine, hfd, hmatch⟩ := h.present clientFd old List.mem_cons_self
  by_cases he : j.latest clientFd = k
  · subst he
    change (j.visits.modify (j.latest clientFd) f)[j.latest clientFd]? = _ at hk
    rw [List.getElem?_modify_eq, hmine] at hk
    cases hk
    exact .inl ⟨mine, rfl, hfd, hmatch, rfl⟩
  · change (j.visits.modify (j.latest clientFd) f)[k]? = _ at hk
    rw [List.getElem?_modify_ne f j.visits he] at hk
    apply Or.inr
    apply (h.ended k visit hk).imp_right
    intro hv
    have hne : visit.clientFd ≠ clientFd := fun hc => he (hc ▸ hv.2)
    exact ⟨(List.mem_cons.1 hv.1).resolve_left hne, hv.2⟩

theorem Keeps.change (h : j.Keeps ((clientFd, old) :: held))
    (hf : ∀ visit : Visit, visit.Matches old → (f visit).clientFd = visit.clientFd ∧
      (f visit).Matches new) : (j.update clientFd f).Keeps ((clientFd, new) :: held) := by
  constructor
  · exact h.nodup
  · intro fd holding hm
    cases List.mem_cons.1 hm with
    | inl he =>
      cases he
      obtain ⟨mine, hmine, hfd, hmatch⟩ := h.present clientFd old List.mem_cons_self
      obtain ⟨hc, hnew⟩ := hf mine hmatch
      refine ⟨f mine, ?_, hc.trans hfd, hnew⟩
      change (j.visits.modify (j.latest clientFd) f)[j.latest clientFd]? = _
      rw [List.getElem?_modify_eq, hmine]
      rfl
    | inr hm => exact h.present_update hm
  · intro k visit hk
    obtain ⟨before, rfl, hfd, hmatch, rfl⟩ | hd | ⟨hv, hl⟩ := h.ended_update hk
    · rw [(hf before hmatch).1, hfd]
      exact .inr ⟨List.mem_cons_self, rfl⟩
    · exact .inl hd
    · exact .inr ⟨List.mem_cons_of_mem _ hv, hl⟩

theorem Keeps.close (h : j.Keeps ((clientFd, old) :: held))
    (hf : ∀ visit : Visit, visit.Matches old → (f visit).Done) :
    (j.update clientFd f).Keeps held := by
  constructor
  · exact (List.nodup_cons.1 h.nodup).2
  · exact fun fd holding hm => h.present_update hm
  · intro k visit hk
    obtain ⟨before, rfl, hfd, hmatch, rfl⟩ | hd | hv := h.ended_update hk
    · exact .inl (hf before hmatch)
    · exact .inl hd
    · exact .inr hv

end Journal

def MainPc.held : MainPc → List (Fd × Holding)
  | .enqueuing clientFd => [(clientFd, .accepted)]
  | .refusing clientFd rest => [(clientFd, .working rest)]
  | _ => []

def WorkerPc.held : WorkerPc → List (Fd × Holding)
  | .handling clientFd rest => [(clientFd, .working rest)]
  | _ => []

namespace ServerState

def held (s : ServerState) : List (Fd × Holding) :=
  s.main.held ++ (s.monitor.queue.contents.map (·, .queued) ++ s.workers.flatMap WorkerPc.held)

theorem held_owners (s : ServerState) : s.held.map Prod.fst = s.owners := by
  have hmain : s.main.held.map Prod.fst = s.main.owned := by cases s.main <;> rfl
  have hworker : ∀ w : WorkerPc, w.held.map Prod.fst = w.owned := by
    intro w
    cases w <;> rfl
  simp only [held, owners, List.map_append, hmain, List.map_map, List.map_flatMap, hworker]
  apply congrArg (s.main.owned ++ ·)
  apply congrArg (· ++ s.workers.flatMap WorkerPc.owned)
  exact List.map_id _

variable {s t : ServerState} {j : Journal}

theorem mem_queue (h : (fd, .queued) ∈ s.held) : fd ∈ s.monitor.queue.contents := by
  rcases List.mem_append.1 h with hm | hm
  · cases hmain : s.main with
    | enqueuing clientFd =>
      rw [hmain] at hm
      cases List.mem_singleton.1 hm
    | refusing clientFd rest =>
      rw [hmain] at hm
      cases List.mem_singleton.1 hm
    | _ =>
      rw [hmain] at hm
      cases hm
  · rcases List.mem_append.1 hm with hm | hm
    · obtain ⟨_, hfd, he⟩ := List.mem_map.1 hm
      cases he
      exact hfd
    · obtain ⟨w, _, hw⟩ := List.mem_flatMap.1 hm
      cases w with
      | handling clientFd rest => cases List.mem_singleton.1 hw
      | _ => cases hw

theorem held_worker (hw : s.workers[i]? = some old) :
    ∃ others, s.held.Perm (old.held ++ others) ∧
      ∀ new, (s.setWorker i new).held.Perm (new.held ++ others) := by
  obtain ⟨before, after, hl, hset⟩ := set_split hw
  let front := s.main.held ++ (s.monitor.queue.contents.map (·, Holding.queued) ++
    before.flatMap WorkerPc.held)
  have hmiddle : ∀ w : WorkerPc,
      (s.main.held ++ (s.monitor.queue.contents.map (·, Holding.queued) ++
        (before ++ w :: after).flatMap WorkerPc.held)).Perm
      (w.held ++ (front ++ after.flatMap WorkerPc.held)) := by
    intro w
    have hfront : s.main.held ++ (s.monitor.queue.contents.map (·, Holding.queued) ++
        (before ++ w :: after).flatMap WorkerPc.held) =
        front ++ (w.held ++ after.flatMap WorkerPc.held) := by
      simp only [front, List.flatMap_append, List.flatMap_cons, List.append_assoc]
    rw [hfront]
    exact List.perm_append_comm_assoc front w.held _
  refine ⟨front ++ after.flatMap WorkerPc.held, ?_, fun new => ?_⟩
  · rw [held, hl]
    exact hmiddle old
  · change (s.main.held ++ (_ ++ (s.workers.set i new).flatMap WorkerPc.held)).Perm _
    rw [hset new]
    exact hmiddle new

end ServerState

namespace Journal

variable {s t : ServerState} {j : Journal}

theorem Keeps.toMain {main : MainPc} (h : j.Keeps s.held) (hs : s.main.held = [])
    (hm : main.held = []) : j.Keeps (s.toMain main).held := by
  simp only [ServerState.held, ServerState.toMain, hs, hm] at h ⊢
  exact h

theorem Keeps.perform (h : j.Keeps ((clientFd, .working (event :: rest)) :: held))
    (hc : ClosesLast (event :: rest)) :
    (event = .closed → (j.perform clientFd event).Keeps held) ∧
      (event ≠ .closed → (j.perform clientFd event).Keeps ((clientFd, .working rest) :: held)) := by
  constructor
  · intro he
    subst he
    cases hc.closed
    exact h.close fun visit hm => hm
  · intro he
    apply h.change
    intro visit hm
    exact ⟨rfl, hm.1, (List.append_assoc visit.performed [event] rest).trans hm.2⟩

theorem Keeps.mainPerformed (h : j.Keeps s.held) (hc : s.main.ClosesLast)
    (hm : s.main = .refusing clientFd (event :: rest)) (hp : s.perform clientFd event = some t) :
    (j.perform clientFd event).Keeps (t.toMain (.afterIo clientFd rest)).held := by
  have hscript : ClosesLast (event :: rest) := by
    rw [hm] at hc
    exact hc
  have hheld : j.Keeps ((clientFd, .working (event :: rest)) ::
      (s.monitor.queue.contents.map (·, .queued) ++ s.workers.flatMap WorkerPc.held)) := by
    rw [ServerState.held, hm] at h
    exact h
  obtain ⟨hclose, hgo⟩ := hheld.perform hscript
  obtain ⟨rfl, rfl⟩ | ⟨he, alive, rfl⟩ := ServerState.perform_cases hp
  · cases hscript.closed
    exact hclose rfl
  · obtain ⟨hne, _⟩ := hscript.later he
    cases rest with
    | nil => exact absurd rfl hne
    | cons next rest => exact hgo he

theorem Keeps.workerPerformed (h : j.Keeps s.held) (hc : ∀ w ∈ s.workers, w.ClosesLast)
    (hw : s.workers[i]? = some (.handling clientFd (event :: rest)))
    (hp : s.perform clientFd event = some t) :
    (j.perform clientFd event).Keeps (t.setWorker i (.afterIo clientFd rest)).held := by
  have hscript : ClosesLast (event :: rest) := hc _ (mem_of_getElem? hw)
  obtain ⟨others, hs, ht⟩ := ServerState.held_worker hw
  obtain ⟨hclose, hgo⟩ := (h.perm hs.symm).perform hscript
  obtain ⟨rfl, rfl⟩ | ⟨he, alive, rfl⟩ := ServerState.perform_cases hp
  · cases hscript.closed
    exact (hclose rfl).perm (ht .dequeuing)
  · obtain ⟨hne, _⟩ := hscript.later he
    cases rest with
    | nil => exact absurd rfl hne
    | cons next rest => exact (hgo he).perm (ht (.handling clientFd (next :: rest)))

theorem Keeps.settle (h : j.Keeps ((clientFd, holding) :: held))
    (hu : ∀ visit : Visit, visit.Matches holding → visit.performed = []) :
    (j.settle clientFd .queued).Keeps ((clientFd, .queued) :: held) ∧
      ∀ fate : Fate, fate.settled = true →
        (j.settle clientFd fate).Keeps ((clientFd, .working fate.script) :: held) := by
  constructor
  · apply h.change
    intro visit hm
    exact ⟨rfl, rfl, hu visit hm⟩
  · intro fate hf
    apply h.change
    intro visit hm
    refine ⟨rfl, hf, ?_⟩
    change visit.performed ++ fate.script = fate.script
    rw [hu visit hm, List.nil_append]

theorem Keeps.enqueue {monitor : QueueMonitor} (h : j.Keeps s.held) (hq : s.monitor.queue.Valid)
    (hm : s.main = .enqueuing clientFd)
    (he : s.monitor.enqueue clientFd mask = some (result, monitor)) :
    (record s (.enqueue mask outcomes) j).Keeps (ServerState.held { s with
      monitor := monitor, main := .afterEnqueue clientFd outcomes result }) := by
  obtain ⟨_, _, _, hcontents⟩ := QueueMonitor.enqueue_queue hq he
  have hheld : j.Keeps ((clientFd, .accepted) ::
      (s.monitor.queue.contents.map (·, .queued) ++ s.workers.flatMap WorkerPc.held)) := by
    rw [ServerState.held, hm] at h
    exact h
  obtain ⟨hqueued, hsettled⟩ := hheld.settle fun visit hv => hv.2
  simp only [record, hm, he, Option.map_some]
  obtain ⟨rfl, _, hc⟩ | ⟨hne, hc⟩ := hcontents
  · have hkeeps : (j.settle clientFd .queued).Keeps (ServerState.held { s with
        monitor := monitor, main := .testing }) := by
      apply hqueued.perm
      simp only [ServerState.held, hc, List.map_append, List.append_assoc]
      exact List.perm_middle
    exact ⟨hkeeps.nodup, hkeeps.present, hkeeps.ended⟩
  · cases result with
    | ok => exact absurd rfl hne
    | full =>
      simp only [ServerState.held, hc]
      exact hsettled (.refused s.monitor.queue.contents.length outcomes) rfl
    | closed =>
      simp only [ServerState.held, hc]
      exact hsettled .dropped rfl

theorem Keeps.dequeue {monitor : QueueMonitor} (h : j.Keeps s.held) (hq : s.monitor.queue.Valid)
    (hw : s.workers[i]? = some .dequeuing)
    (hd : s.monitor.dequeue i = some (result, monitor)) :
    (record s (.dequeue i c) j).Keeps (ServerState.held { s with
      monitor := monitor, workers := s.workers.set i (.afterDequeue c result) }) := by
  obtain ⟨_, _, _, hcontents⟩ := QueueMonitor.dequeue_queue hq hd
  let u : ServerState := { s with monitor := monitor }
  obtain ⟨others, hs, ht⟩ := u.held_worker hw
  have hto : ∀ new : WorkerPc, (u.setWorker i new).held.Perm (new.held ++ u.held) :=
    fun new => (ht new).trans (hs.symm.append_left new.held)
  simp only [record, hd, Option.map_some]
  obtain ⟨rfl, hc⟩ | ⟨rfl, _, _, hc⟩ | ⟨fd, q, rfl, hc⟩ := hcontents
  · have hsame : u.held = s.held := by simp only [ServerState.held, u, hc]
    exact h.perm (hsame ▸ hto .dequeuing)
  · have hsame : u.held = s.held := by simp only [ServerState.held, u, hc]
    exact h.perm (hsame ▸ hto .exited)
  · have htook : s.held.Perm ((fd, .queued) :: u.held) := by
      simp only [ServerState.held, u, hc, List.map_cons, List.cons_append]
      exact List.perm_middle
    have hkeeps := ((h.perm htook.symm).settle fun visit hv => hv.2).2 (.handled c) rfl
    have hafter := hkeeps.perm (hto (.handling fd c.trace))
    exact ⟨hafter.nodup, hafter.present, hafter.ended⟩

theorem Keeps.step (h : j.Keeps s.held) (ho : s.Owned c n) (hs : ServerState.Step s a t) :
    (record s a j).Keeps t.held := by
  cases hs.acts with
  | started created hm => exact h.toMain (by rw [hm]; rfl) rfl
  | spawned i hm hi hw =>
    obtain ⟨others, hsheld, ht⟩ := ServerState.held_worker hw
    have hspawn : j.Keeps (s.setWorker i .dequeuing).held :=
      h.perm ((ht .dequeuing).trans hsheld.symm)
    have hmain : (s.setWorker i .dequeuing).main.held = [] := by
      change s.main.held = []
      rw [hm]
      rfl
    exact hspawn.toMain hmain rfl
  | spawnFailed i hm hi => exact h.toMain (by rw [hm]; rfl) rfl
  | tested hm =>
    cases s.shouldStop with
    | true => exact h.toMain (by rw [hm]; rfl) rfl
    | false => exact h.toMain (by rw [hm]; rfl) rfl
  | accepted clientFd hm hf =>
    have hfd : clientFd ∉ s.held.map Prod.fst := by
      rw [ServerState.held_owners]
      exact fun he => hf (ho.ledger.holders.mem_iff.1 he)
    have hkeeps := h.accept hfd
    have hsheld : s.held = s.monitor.queue.contents.map (·, .queued) ++
        s.workers.flatMap WorkerPc.held := by
      rw [ServerState.held, hm]
      rfl
    rw [hsheld] at hkeeps
    exact hkeeps
  | acceptInterrupted hm => exact h.toMain (by rw [hm]; rfl) rfl
  | acceptFailed hm =>
    cases s.shouldStop with
    | true => exact h.toMain (by rw [hm]; rfl) rfl
    | false => exact h.toMain (by rw [hm]; rfl) rfl
  | enqueued clientFd mask outcomes result monitor hm he => exact h.enqueue ho.valid hm he
  | mainPerformed clientFd event rest u hm hp =>
    simp only [record, hm]
    exact h.mainPerformed ho.refusing hm hp
  | poolShutdown code hm => exact h.toMain (by rw [hm]; rfl) rfl
  | joinedAll code hm => exact h.toMain (by rw [hm]; rfl) rfl
  | joined i code hm hi hw => exact h.toMain (by rw [hm]; rfl) rfl
  | stopRequested => exact h
  | queueShutdown hs => exact h
  | dequeued i conn result monitor hw hd => exact h.dequeue ho.valid hw hd
  | wokeUp i monitor hm =>
    have hq : monitor.queue = s.monitor.queue := QueueMonitor.wakeUp_queue hm
    have hsame : ServerState.held { s with monitor := monitor } = s.held := by
      simp only [ServerState.held, hq]
    rw [hsame]
    exact h
  | workerPerformed i clientFd event rest u hw hp =>
    simp only [record, hw]
    exact h.workerPerformed ho.handling hw hp
  | disconnected clientFd hf => exact h

end Journal

end Httpd
