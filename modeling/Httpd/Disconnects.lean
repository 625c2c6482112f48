import Httpd.Ownership

namespace Httpd
open ListUpdate Transition
set_option autoImplicit true

namespace ServerState

def sendsToGone (s : ServerState) : Action → Bool
  | .mainIo =>
    match s.main with
    | .refusing clientFd (event :: _) => event.isSend && decide (clientFd ∈ s.gone)
    | _ => false
  | .workerIo i =>
    match s.workers[i]? with
    | some (.handling clientFd (event :: _)) => event.isSend && decide (clientFd ∈ s.gone)
    | _ => false
  | _ => false

/-- A step in which nobody sends to a client that has gone. -/
def Considerate (s : ServerState) (a : Action) (t : ServerState) : Prop :=
  Step s a t ∧ s.sendsToGone a = false

/-- The server as it would be had no client gone. -/
def forget (s : ServerState) : ServerState := { s with gone := [] }

variable {s t : ServerState}

theorem perform_alive (h : s.perform clientFd event = some t) :
    t.alive = (s.alive && !(event.isSend && decide (clientFd ∈ s.gone))) := by
  cases event with
  | closed | received _ | recvInterrupted | recvFailed =>
    cases h
    exact (Bool.and_true _).symm
  | sent _ | sendInterrupted | sendFailed =>
    simp only [perform] at h
    split at h
    · cases h
    · rename_i hg
      cases h
      rw [decide_eq_false hg]
      exact (Bool.and_true _).symm
  | sendBroken =>
    simp only [perform] at h
    split at h
    · rename_i hg
      cases h
      rw [decide_eq_true hg]
      exact (Bool.and_false _).symm
    · cases h

theorem Acts.alive (h : s.Acts a t) : t.alive = (s.alive && !s.sendsToGone a) := by
  cases h with
  | mainPerformed clientFd event rest u hm hp =>
    simp only [sendsToGone, hm]
    have hu : u.alive = _ := perform_alive hp
    exact hu
  | workerPerformed i clientFd event rest u hw hp =>
    simp only [sendsToGone, hw]
    have hu : u.alive = _ := perform_alive hp
    exact hu
  | _ => exact (Bool.and_true _).symm

theorem run_of_dead (ha : s.alive = false) (hrun : Run Step s as t) : as = [] ∧ t = s := by
  cases hrun with
  | nil => exact ⟨rfl, rfl⟩
  | cons hs _ =>
    have hlive : s.alive = true := hs.act.1
    rw [ha] at hlive
    cases hlive

theorem Considerate.alive (h : Considerate s a t) : t.alive = true := by
  rw [h.1.acts.alive, h.1.act.1, h.2]
  rfl

theorem run_considerate_alive (ha : s.alive = true) (hrun : Run Considerate s as t) :
    t.alive = true := by
  induction hrun with
  | nil => exact ha
  | cons hs _ ih => exact ih hs.alive

theorem run_alive_considerate (ht : t.alive = true) (hrun : Run Step s as t) :
    Run Considerate s as t := by
  induction hrun with
  | nil => exact .nil _
  | @cons s a u as t hs hr ih =>
    have halive := hs.acts.alive
    rw [hs.act.1, Bool.true_and] at halive
    cases hg : s.sendsToGone a with
    | false => exact .cons ⟨hs, hg⟩ (ih ht)
    | true =>
      rw [hg] at halive
      obtain ⟨_, rfl⟩ := run_of_dead halive hr
      rw [halive] at ht
      cases ht

theorem perform_forget (h : s.perform clientFd event = some t)
    (hg : (event.isSend && decide (clientFd ∈ s.gone)) = false) :
    s.forget.perform clientFd event = some t.forget := by
  cases event with
  | closed | received _ | recvInterrupted | recvFailed =>
    cases h
    rfl
  | sent _ | sendInterrupted | sendFailed =>
    simp only [perform] at h
    split at h
    · cases h
    · cases h
      have hn : clientFd ∉ s.forget.gone := List.not_mem_nil
      simp only [perform, if_neg hn]
  | sendBroken =>
    simp only [perform] at h
    split at h
    · rename_i hmem
      rw [decide_eq_true hmem] at hg
      cases hg
    · cases h

def disconnects : Action → Bool
  | .disconnect _ => true
  | _ => false

theorem Acts.forget (h : s.Acts a t) (hg : s.sendsToGone a = false)
    (hq : disconnects a = false) : s.forget.act a = some t.forget := by
  cases h with
  | started created hm => simp only [act, ServerState.forget, hm, if_true, toMain]
  | spawned i hm hi hw =>
    simp only [act, ServerState.forget, hm, if_neg hi, hw, if_true]
    rfl
  | spawnFailed i hm hi =>
    simp only [act, ServerState.forget, hm, if_neg hi, Bool.false_eq_true, if_false]
  | tested hm =>
    simp only [act, ServerState.forget, hm]
    rfl
  | accepted clientFd hm hf =>
    simp only [act, ServerState.forget, hm, if_neg hf]
    rfl
  | acceptInterrupted hm =>
    simp only [act, ServerState.forget, hm]
    rfl
  | acceptFailed hm =>
    simp only [act, ServerState.forget, hm]
    rfl
  | enqueued clientFd mask outcomes result monitor hm he =>
    simp only [act, ServerState.forget, hm, he]
    rfl
  | mainPerformed clientFd event rest u hm hp =>
    simp only [sendsToGone, hm] at hg
    have hu : s.forget.perform clientFd event = some u.forget := perform_forget hp hg
    have hm' : s.forget.main = .refusing clientFd (event :: rest) := hm
    simp only [act, hm', hu]
    rfl
  | poolShutdown code hm => simp only [act, ServerState.forget, hm]
  | joinedAll code hm =>
    simp only [act, ServerState.forget, hm, if_true]
    rfl
  | joined i code hm hi hw =>
    simp only [act, ServerState.forget, hm, if_neg hi, hw, if_true]
    rfl
  | stopRequested => rfl
  | queueShutdown hs =>
    simp only [act, ServerState.forget, hs]
    rfl
  | dequeued i conn result monitor hw hd =>
    simp only [act, ServerState.forget, hw, if_true]
    rw [hd]
    rfl
  | wokeUp i monitor hm =>
    simp only [act, ServerState.forget, hm]
    rfl
  | workerPerformed i clientFd event rest u hw hp =>
    simp only [sendsToGone, hw] at hg
    have hu : s.forget.perform clientFd event = some u.forget := perform_forget hp hg
    have hw' : s.forget.workers[i]? = some (.handling clientFd (event :: rest)) := hw
    simp only [act, hw', hu]
    rfl
  | disconnected clientFd hf => cases hq

theorem Considerate.forget (h : Considerate s a t) :
    if !disconnects a then Step s.forget a t.forget else t.forget = s.forget := by
  have ha : s.forget.alive = true := h.1.act.1
  cases hq : disconnects a with
  | false =>
    have hact : s.forget.act a = some t.forget := h.1.acts.forget h.2 hq
    exact (if_pos ha).trans hact
  | true =>
    cases h.1.acts with
    | disconnected clientFd hf => rfl
    | _ => cases hq

theorem run_forget (hrun : Run Considerate s as t) :
    Run Step s.forget (as.filter fun a => !disconnects a) t.forget := by
  have hstep : ∀ (s : ServerState) (a : Action) (t s' : ServerState), s' = s.forget →
      Considerate s a t →
      if !disconnects a then ∃ t', Step s' a t' ∧ t' = t.forget else s' = t.forget := by
    intro s a t s' hs' hc
    have hforget := hc.forget
    rw [hs']
    cases hq : disconnects a with
    | false =>
      rw [hq] at hforget
      exact ⟨_, hforget, rfl⟩
    | true =>
      rw [hq] at hforget
      exact hforget.symm
  obtain ⟨t', hr, rfl⟩ := hrun.simulate hstep rfl
  exact hr

/-- A worker whose client has gone, with no `send` ahead of it, closes the connection by its own
steps. -/
theorem Owned.closes (h : s.Owned c n) (ha : s.alive = true)
    (hw : s.workers[i]? = some (.handling clientFd rest)) (hr : ∀ e ∈ rest, e.isSend = false) :
    ∃ t, Run Considerate s (List.replicate rest.length (.workerIo i)) t ∧
      clientFd ∉ t.opened ∧ t.closed = s.closed ++ [clientFd] := by
  induction rest generalizing s with
  | nil =>
    obtain ⟨before, hb, _⟩ : ClosesLast [] := h.handling _ (mem_of_getElem? hw)
    exact absurd hb.symm (List.append_ne_nil_of_right_ne_nil _ (List.cons_ne_nil _ _))
  | cons event rest ih =>
    have hscript : ClosesLast (event :: rest) := h.handling _ (mem_of_getElem? hw)
    have hevent : event.isSend = false := hr _ List.mem_cons_self
    have hg : s.sendsToGone (.workerIo i) = false := by
      simp only [sendsToGone, hw, hevent, Bool.false_and]
    have hstep : ∀ {u : ServerState}, s.perform clientFd event = some u →
        Considerate s (.workerIo i) (u.setWorker i (.afterIo clientFd rest)) := by
      intro u hu
      refine ⟨?_, hg⟩
      simp only [Step, next, if_pos ha, act, hw, hu]
      rfl
    have hnodup : s.opened.Nodup := h.ledger.nodup
    cases event with
    | closed =>
      cases hscript.closed
      exact ⟨_, .single (hstep rfl), hnodup.not_mem_erase, rfl⟩
    | received _ | recvInterrupted | recvFailed =>
      obtain ⟨hne, _⟩ := hscript.later (by intro he; cases he)
      have hfirst := hstep rfl
      have hlt : i < s.workers.length := (List.getElem?_eq_some_iff.1 hw).1
      have hnext : (s.setWorker i (.afterIo clientFd rest)).workers[i]? =
          some (.handling clientFd rest) := by
        cases rest with
        | nil => exact absurd rfl hne
        | cons next rest => exact List.getElem?_set_self hlt
      obtain ⟨t, hrun, hopen, hclosed⟩ :=
        ih (h.step hfirst.1) ha hnext (fun e he => hr e (List.mem_cons_of_mem _ he))
      exact ⟨t, .cons hfirst hrun, hopen, hclosed⟩
    | sent _ | sendInterrupted | sendFailed | sendBroken => cases hevent

/-- What the clients' going does to a run: nothing but that their own connections are closed. -/
structure Isolated (start : ServerState) (as : List Action) (s : ServerState) : Prop where
  alive : s.alive = true
  undisturbed : Run Step start (as.filter fun a => !disconnects a) s.forget
  pending : s.main.ClosesLast ∧ ∀ w ∈ s.workers, w.ClosesLast
  closes : ∀ (i : Nat) clientFd rest, s.workers[i]? = some (.handling clientFd rest) →
    (∀ e ∈ rest, e.isSend = false) →
    ∃ t, Run Considerate s (List.replicate rest.length (.workerIo i)) t ∧ clientFd ∉ t.opened
  drained : s.main = .returned 0 → ∀ fd, s.closed.count fd = s.accepted.count fd

end ServerState

/-- In a run of the server the clients' going stays without effect on the process, the accept loop
and the other connections if and only if no thread calls `send` after the client it sends to has
gone. -/
theorem serverRun_isolates (c n : Nat) (queue : SocketQueue) (allocated : Bool) (hn : 1 ≤ n)
    (hq : socketQueueInit c true = some queue) (as : List Action) (s : ServerState)
    (hrun : Run ServerState.Step (.initial queue n allocated) as s) :
    ServerState.Isolated (.initial queue n allocated) as s ↔
      Run ServerState.Considerate (.initial queue n allocated) as s := by
  obtain ⟨ho, hp⟩ := ServerState.run_owned (ServerState.initial_owned hq n allocated)
    (ServerState.initial_phased queue n allocated) hrun
  constructor
  · intro hi
    exact ServerState.run_alive_considerate hi.alive hrun
  · intro hc
    have ha : s.alive = true := ServerState.run_considerate_alive rfl hc
    constructor
    · exact ha
    · exact ServerState.run_forget hc
    · exact ⟨ho.refusing, ho.handling⟩
    · intro i clientFd rest hw hr
      obtain ⟨t, ht, hopen, _⟩ := ho.closes ha hw hr
      exact ⟨t, ht, hopen⟩
    · intro hm fd
      have hcount := ho.ledger.count_acquired fd
      rw [ho.opened_empty hp hn hm, if_neg List.not_mem_nil] at hcount
      exact hcount.symm

def quietConnection : Connection := ⟨[], [], fun _ => pageOs, [], []⟩

def quietActions : List Action :=
  [.spawn true, .spawn true, .test, .accept (.accepted 5), .enqueue [] [], .disconnect 5,
    .dequeue 0 quietConnection, .workerIo 0, .workerIo 0]

theorem serverRun_isolates_quiet : ∃ s : ServerState, s.closed = [5] ∧
    ServerState.Isolated (.initial ⟨[0], 1, 0, 0, 0, false⟩ 1 true) quietActions s := by
  let s : ServerState :=
    ⟨.testing, [.dequeuing], ⟨⟨[5], 1, 0, 0, 0, false⟩, [.running]⟩, 1, false, [], [], [5], [5],
      true⟩
  have hrun : follow ServerState.next (.initial ⟨[0], 1, 0, 0, 0, false⟩ 1 true) quietActions =
    some s := by decide +kernel
  have hlive : Run ServerState.Considerate (.initial ⟨[0], 1, 0, 0, 0, false⟩ 1 true)
      quietActions s :=
    ServerState.run_alive_considerate rfl (run_of_follow hrun)
  exact ⟨s, rfl, (serverRun_isolates 1 1 _ true (Nat.le_refl 1) rfl quietActions s
    (run_of_follow hrun)).2 hlive⟩

def brokenConnection : Connection :=
  ⟨[], [], fun _ => pageOs, [.data 120 (ascii "\r\n\r\n")], [.broken]⟩

def brokenActions : List Action :=
  [.spawn true, .spawn true, .spawn true, .test, .accept (.accepted 5), .enqueue [] [], .test,
    .accept (.accepted 6), .enqueue [] [], .dequeue 0 brokenConnection, .dequeue 1 quietConnection,
    .workerIo 0, .disconnect 5, .workerIo 0]

/-- The `send` to the client that has gone ends the process, with the other connection open. -/
theorem brokenPipe_not_isolated : ∃ s : ServerState,
    Run ServerState.Step (.initial ⟨[0, 0], 2, 0, 0, 0, false⟩ 2 true) brokenActions s ∧
      6 ∈ s.opened ∧ s.alive = false ∧
      ¬ ServerState.Isolated (.initial ⟨[0, 0], 2, 0, 0, 0, false⟩ 2 true) brokenActions s := by
  let s : ServerState :=
    ⟨.testing, [.handling 5 [.closed], .handling 6 quietConnection.trace],
      ⟨⟨[5, 6], 2, 0, 0, 0, false⟩, [.running, .running]⟩, 2, false, [6, 5], [5], [5, 6], [],
      false⟩
  have hrun : follow ServerState.next (.initial ⟨[0, 0], 2, 0, 0, 0, false⟩ 2 true)
      brokenActions = some s := by decide +kernel
  refine ⟨s, run_of_follow hrun, List.mem_cons_self, rfl, ?_⟩
  intro hi
  cases hi.alive

end Httpd
