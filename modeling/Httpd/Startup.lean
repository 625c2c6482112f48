import Httpd.CommandLine
import Httpd.Lib.Custody
import Httpd.Ownership

namespace Httpd
open Custody ListUpdate Transition
set_option autoImplicit true

/-- What `server_init` sets up, and what it must take down again. -/
inductive Resource where
  | queue
  | items
  | queueMutex
  | notEmpty
  | notFull
  | log
  | logFile
  | logMutex
  | addresses
  | socket (fd : Fd)
  deriving DecidableEq

/-- The structure whose memory a resource lies in. -/
def Resource.within : Resource → Option Resource
  | .items | .queueMutex | .notEmpty | .notFull => some .queue
  | .logFile | .logMutex => some .log
  | _ => none

abbrev Events := List (Event Resource)

structure QueueCalls where
  created : Bool
  items : Bool
  mutex : Bool
  notEmpty : Bool
  notFull : Bool

def QueueCalls.all (calls : QueueCalls) : Bool :=
  calls.created && calls.items && calls.mutex && calls.notEmpty && calls.notFull

/-- `socket_queue_init` with what it acquires and gives back. -/
def queueInit (capacity : Nat) (calls : QueueCalls) : Events × Option SocketQueue :=
  if capacity = 0 then ([], none)
  else if !calls.created then ([], none)
  else if !calls.items then ([.acquired .queue, .released .queue], none)
  else if !calls.mutex then
    ([.acquired .queue, .acquired .items, .released .items, .released .queue], none)
  else if !calls.notEmpty then
    ([.acquired .queue, .acquired .items, .acquired .queueMutex, .released .queueMutex,
      .released .items, .released .queue], none)
  else if !calls.notFull then
    ([.acquired .queue, .acquired .items, .acquired .queueMutex, .acquired .notEmpty,
      .released .notEmpty, .released .queueMutex, .released .items, .released .queue], none)
  else
    ([.acquired .queue, .acquired .items, .acquired .queueMutex, .acquired .notEmpty,
      .acquired .notFull], some ⟨List.replicate capacity 0, capacity, 0, 0, 0, false⟩)

def socketQueueDestroy : Events :=
  [.released .notEmpty, .released .notFull, .released .queueMutex, .released .items,
    .released .queue]

structure LogCalls where
  created : Bool
  opened : Bool
  mutex : Bool

def LogCalls.all (calls : LogCalls) : Bool := calls.created && calls.opened && calls.mutex

def accessLogOpen (calls : LogCalls) : Events × Bool :=
  if !calls.created then ([], false)
  else if !calls.opened then ([.acquired .log, .released .log], false)
  else if !calls.mutex then
    ([.acquired .log, .acquired .logFile, .released .logFile, .released .log], false)
  else ([.acquired .log, .acquired .logFile, .acquired .logMutex], true)

def accessLogClose : Events := [.released .logMutex, .released .logFile, .released .log]

/-- An address `getaddrinfo` has found, with what `socket`, `bind` and `listen` answer there. -/
structure Address where
  fd : Option Fd
  bound : Bool
  listening : Bool

def Address.usable (a : Address) : Option Fd := if a.bound && a.listening then a.fd else none

/-- The loop of `create_listening_socket` over the addresses. -/
def tryAddresses : List Address → Events × Option Fd
  | [] => ([], none)
  | a :: rest =>
    match a.fd with
    | none => tryAddresses rest
    | some fd =>
      if a.bound && a.listening then ([.acquired (.socket fd)], some fd)
      else
        let (events, result) := tryAddresses rest
        (.acquired (.socket fd) :: .released (.socket fd) :: events, result)

def printInt (n : Int) : Bytes := if n < 0 then 45 :: decimal n.natAbs else decimal n.natAbs

def createListeningSocket (config : ServerConfig)
    (getaddrinfo : Bytes → Bytes → Option (List Address)) : Events × Option Fd :=
  match getaddrinfo config.host (snprintf 16 (printInt config.port)).2 with
  | none => ([], none)
  | some addresses =>
    let (events, fd) := tryAddresses addresses
    (.acquired .addresses :: events ++ [.released .addresses], fd)

/-- `struct server`; a descriptor of -1 is none. -/
structure Server where
  config : ServerConfig
  listenFd : Option Fd
  shouldStop : Bool
  queue : Option SocketQueue
  accessLog : Bool

structure SystemCalls where
  queue : QueueCalls
  log : LogCalls
  getaddrinfo : Bytes → Bytes → Option (List Address)

def toSize (n : Int) : Nat := (n % 2 ^ 64).toNat

/-- `server_init`; the last component tells whether it returns 0. -/
def serverInit (config : ServerConfig) (calls : SystemCalls) : Events × Server × Bool :=
  let server : Server := ⟨config, none, false, none, false⟩
  match queueInit (toSize config.queueCapacity) calls.queue with
  | (events, none) => (events, server, false)
  | (events, some queue) =>
    let server := { server with queue := some queue }
    match accessLogOpen calls.log with
    | (logEvents, false) =>
      (events ++ logEvents ++ socketQueueDestroy, { server with queue := none }, false)
    | (logEvents, true) =>
      let server := { server with accessLog := true }
      match createListeningSocket config calls.getaddrinfo with
      | (socketEvents, none) =>
        (events ++ logEvents ++ socketEvents ++ accessLogClose ++ socketQueueDestroy,
          { server with accessLog := false, queue := none }, false)
      | (socketEvents, some fd) =>
        (events ++ logEvents ++ socketEvents, { server with listenFd := some fd }, true)

/-- `server_stop`, when nothing interrupts it. -/
def serverStop (server : Server) : Events × Server :=
  (server.listenFd.toList.map fun fd => .released (.socket fd),
    { server with
      shouldStop := true, listenFd := none, queue := server.queue.map socketQueueShutdown })

def serverDestroy (server : Server) : Events × Server :=
  (server.listenFd.toList.map (fun fd => .released (.socket fd)) ++
      (if server.accessLog then accessLogClose else []) ++
      (if server.queue.isSome then socketQueueDestroy else []),
    { server with listenFd := none, accessLog := false, queue := none })

def serverStops : Nat → Server → Events × Server
  | 0, server => ([], server)
  | k + 1, server =>
    let (events, server) := serverStop server
    let (later, server) := serverStops k server
    (events ++ later, server)

/-- How `main` can go: its exit code with what was acquired and released, and the state in which
`server_run` returned if it was called. The calls of `server_stop` are whole, one after the other,
and none comes after `server_destroy` has begun; what is used in between is left out. -/
inductive MainRuns (args : List Bytes) (calls : SystemCalls) :
    Events → Option ServerState → Nat → Prop where
  | usage (hp : parseOptions args = none) : MainRuns args calls [] none 1
  | failed (hp : parseOptions args = some config)
      (hi : serverInit config calls = (events, server, false)) : MainRuns args calls events none 1
  | ran (hp : parseOptions args = some config)
      (hi : serverInit config calls = (events, server, true)) (hq : server.queue = some queue)
      (hrun : Run ServerState.Step
        (.initial queue config.threadCount.toNat allocated) as s)
      (hm : s.main = .returned code)
      (hs : serverStops stops server = (stopEvents, stopped)) :
      MainRuns args calls (events ++ stopEvents ++ (serverDestroy stopped).1) (some s) code

namespace Resource

def ofQueue : List Resource := [.notFull, .notEmpty, .queueMutex, .items, .queue]

def ofLog : List Resource := [.logMutex, .logFile, .log]

end Resource

open Resource

theorem queueInit_cases (capacity : Nat) (calls : QueueCalls) :
    (∃ events, queueInit capacity calls = (events, none) ∧ Orderly within [] events [] ∧
        ¬ (0 < capacity ∧ calls.all = true)) ∨
      ∃ events queue, queueInit capacity calls = (events, some queue) ∧
        Orderly within [] events ofQueue ∧ 0 < capacity ∧ calls.all = true ∧
        socketQueueInit capacity true = some queue := by
  obtain ⟨created, items, mutex, notEmpty, notFull⟩ := calls
  unfold queueInit
  by_cases hc : capacity = 0
  · rw [if_pos hc]
    exact .inl ⟨_, rfl, rfl, fun h => absurd hc (Nat.ne_of_gt h.1)⟩
  rw [if_neg hc]
  cases created with
  | false => exact .inl ⟨_, rfl, rfl, fun h => Bool.false_ne_true h.2⟩
  | true =>
    cases items with
    | false => exact .inl ⟨_, rfl, rfl, fun h => Bool.false_ne_true h.2⟩
    | true =>
      cases mutex with
      | false => exact .inl ⟨_, rfl, rfl, fun h => Bool.false_ne_true h.2⟩
      | true =>
        cases notEmpty with
        | false => exact .inl ⟨_, rfl, rfl, fun h => Bool.false_ne_true h.2⟩
        | true =>
          cases notFull with
          | false => exact .inl ⟨_, rfl, rfl, fun h => Bool.false_ne_true h.2⟩
          | true =>
            refine .inr ⟨_, _, rfl, rfl, Nat.pos_of_ne_zero hc, rfl, ?_⟩
            exact if_neg (not_or.2 ⟨hc, Bool.false_ne_true⟩)

theorem accessLogOpen_cases (calls : LogCalls) :
    (∃ events, accessLogOpen calls = (events, false) ∧
        Orderly within ofQueue events ofQueue ∧ calls.all = false) ∨
      ∃ events, accessLogOpen calls = (events, true) ∧
        Orderly within ofQueue events (ofLog ++ ofQueue) ∧ calls.all = true := by
  obtain ⟨created, opened, mutex⟩ := calls
  unfold accessLogOpen
  cases created with
  | false => exact .inl ⟨_, rfl, rfl, rfl⟩
  | true =>
    cases opened with
    | false => exact .inl ⟨_, rfl, rfl, rfl⟩
    | true =>
      cases mutex with
      | false => exact .inl ⟨_, rfl, rfl, rfl⟩
      | true => exact .inr ⟨_, rfl, rfl, rfl⟩

theorem socketQueueDestroy_orderly : Orderly within ofQueue socketQueueDestroy [] := rfl

theorem accessLogClose_orderly : Orderly within (ofLog ++ ofQueue) accessLogClose ofQueue := rfl

theorem within_ne_socket (x : Resource) (fd : Fd) : within x ≠ some (.socket fd) := by
  cases x <;> nofun

theorem within_ne_addresses (x : Resource) : within x ≠ some .addresses := by
  cases x <;> nofun

theorem socket_acquired {held : List Resource} (h : .socket fd ∉ held) :
    Orderly within held [.acquired (.socket fd)] (.socket fd :: held) := by
  have hok : .socket fd ∉ held ∧ ∀ p ∈ within (.socket fd), p ∈ held := ⟨h, nofun⟩
  simp only [Orderly, follow, Custody.next, if_pos hok, Option.bind_some]

theorem socket_released (held : List Resource) :
    Orderly within (.socket fd :: held) [.released (.socket fd)] held := by
  have hok : .socket fd ∈ .socket fd :: held ∧
      ∀ x ∈ .socket fd :: held, within x ≠ some (.socket fd) :=
    ⟨List.mem_cons_self, fun x _ => within_ne_socket x fd⟩
  simp only [Orderly, follow, Custody.next, if_pos hok, Option.bind_some, List.erase_cons_head]

theorem tryAddresses_cases {held : List Resource} (hh : ∀ fd, .socket fd ∉ held)
    (addresses : List Address) :
    (∃ events, tryAddresses addresses = (events, none) ∧ Orderly within held events held ∧
        ∀ a ∈ addresses, a.usable = none) ∨
      ∃ events fd before a after, tryAddresses addresses = (events, some fd) ∧
        Orderly within held events (.socket fd :: held) ∧ addresses = before ++ a :: after ∧
        (∀ b ∈ before, b.usable = none) ∧ a.usable = some fd := by
  induction addresses with
  | nil => exact .inl ⟨[], rfl, rfl, nofun⟩
  | cons a rest ih =>
    simp only [tryAddresses]
    cases hfd : a.fd with
    | none =>
      have hnone : a.usable = none := by
        rw [Address.usable, hfd, ite_self]
      obtain ⟨events, he, ho, hrest⟩ | ⟨events, fd, before, b, after, he, ho, hl, hb, hu⟩ := ih
      · exact .inl ⟨events, he, ho, List.forall_mem_cons.2 ⟨hnone, hrest⟩⟩
      · refine .inr ⟨events, fd, a :: before, b, after, he, ho, ?_, ?_, hu⟩
        · rw [hl]
          rfl
        · exact List.forall_mem_cons.2 ⟨hnone, hb⟩
    | some fd =>
      by_cases hok : (a.bound && a.listening) = true
      · simp only [if_pos hok]
        have hu : a.usable = some fd := by
          rw [Address.usable, if_pos hok, hfd]
        exact .inr ⟨_, fd, [], a, rest, rfl, socket_acquired (hh fd), rfl, nofun, hu⟩
      · simp only [if_neg hok]
        have hnone : a.usable = none := if_neg hok
        have hbrief : Orderly within held [.acquired (.socket fd), .released (.socket fd)] held :=
          (socket_acquired (hh fd)).append (socket_released held)
        obtain ⟨events, he, ho, hrest⟩ | ⟨events, fd', before, b, after, he, ho, hl, hb, hu⟩ := ih
        · rw [he]
          exact .inl ⟨_, rfl, hbrief.append ho, List.forall_mem_cons.2 ⟨hnone, hrest⟩⟩
        · rw [he]
          refine .inr ⟨_, fd', a :: before, b, after, rfl, hbrief.append ho, ?_, ?_, hu⟩
          · rw [hl]
            rfl
          · exact List.forall_mem_cons.2 ⟨hnone, hb⟩

theorem printInt_fits (hl : -2147483648 ≤ n) (hh : n ≤ 2147483647) :
    (snprintf 16 (printInt n)).2 = printInt n := by
  apply List.take_of_length_le
  have hdigits : (decimal n.natAbs).length ≤ 10 := decimal_length (by decide) (by omega)
  rw [printInt]
  split
  · rw [List.length_cons]
    omega
  · omega

inductive Listening (found : Option (List Address)) : Option Fd → Prop where
  | failed (h : ∀ addresses, found = some addresses → ∀ a ∈ addresses, a.usable = none) :
      Listening found none
  | first (h : found = some (before ++ a :: after)) (hb : ∀ b ∈ before, b.usable = none)
      (hu : a.usable = some fd) : Listening found (some fd)

theorem Listening.unusable (h : Listening found none) : ¬ Listening found (some fd) := by
  intro h'
  cases h with
  | failed hnone =>
    cases h' with
    | first hf hb hu =>
      rw [hnone _ hf _ (List.mem_append_right _ List.mem_cons_self)] at hu
      cases hu

theorem createListeningSocket_cases {held : List Resource} (ha : .addresses ∉ held)
    (hs : ∀ fd, .socket fd ∉ held) (config : ServerConfig)
    (getaddrinfo : Bytes → Bytes → Option (List Address)) :
    ∃ events fd, createListeningSocket config getaddrinfo = (events, fd) ∧
      Listening (getaddrinfo config.host (snprintf 16 (printInt config.port)).2) fd ∧
      Orderly within held events ((fd.toList.map .socket) ++ held) := by
  unfold createListeningSocket
  cases hfound : getaddrinfo config.host (snprintf 16 (printInt config.port)).2 with
  | none =>
    refine ⟨[], none, rfl, .failed ?_, rfl⟩
    intro found hf
    cases hf
  | some addresses =>
    have hacquired : Orderly within held [.acquired .addresses] (.addresses :: held) := by
      have hok : .addresses ∉ held ∧ ∀ p ∈ within .addresses, p ∈ held := by
        refine ⟨ha, fun p hp => ?_⟩
        cases hp
      simp only [Orderly, follow, Custody.next, if_pos hok, Option.bind_some]
    have hreleased : ∀ front : List Resource, (∀ x ∈ front, x ≠ .addresses) →
        Orderly within (front ++ .addresses :: held) [.released .addresses] (front ++ held) := by
      intro front hf
      have hok : .addresses ∈ front ++ .addresses :: held ∧
          ∀ x ∈ front ++ .addresses :: held, within x ≠ some .addresses :=
        ⟨List.mem_append_right _ List.mem_cons_self, fun x _ => within_ne_addresses x⟩
      have hnot : .addresses ∉ front := fun hm => hf _ hm rfl
      simp only [Orderly, follow, Custody.next, if_pos hok, Option.bind_some,
        List.erase_append_right _ hnot, List.erase_cons_head]
    have hsockets : ∀ fd, .socket fd ∉ .addresses :: held := by
      intro fd hm
      cases List.mem_cons.1 hm with
      | inl he => cases he
      | inr hm => exact hs fd hm
    obtain ⟨events, he, ho, hnone⟩ | ⟨events, fd, before, a, after, he, ho, hl, hb, hu⟩ :=
      tryAddresses_cases hsockets addresses
    · simp only [he]
      refine ⟨_, none, rfl, .failed ?_, ?_⟩
      · intro found hf
        cases hf
        exact hnone
      · exact (hacquired.append ho).append (hreleased [] (List.forall_mem_nil _))
    · simp only [he]
      refine ⟨_, some fd, rfl, .first (congrArg some hl) hb hu, ?_⟩
      apply (hacquired.append ho).append (hreleased [.socket fd] _)
      intro x hx
      rw [List.mem_singleton.1 hx]
      intro he
      cases he

theorem serverInit_outcome (config : ServerConfig) (calls : SystemCalls)
    (hl : -2147483648 ≤ config.port) (hh : config.port ≤ 2147483647) :
    (∃ events server, serverInit config calls = (events, server, false) ∧
        Orderly within [] events [] ∧ server = ⟨config, none, false, none, false⟩ ∧
        ¬ (0 < toSize config.queueCapacity ∧ calls.queue.all = true ∧ calls.log.all = true ∧
          ∃ fd, Listening (calls.getaddrinfo config.host (printInt config.port)) (some fd))) ∨
      ∃ events server fd queue, serverInit config calls = (events, server, true) ∧
        Orderly within [] events (.socket fd :: (ofLog ++ ofQueue)) ∧
        server = ⟨config, some fd, false, some queue, true⟩ ∧
        socketQueueInit (toSize config.queueCapacity) true = some queue ∧
        0 < toSize config.queueCapacity ∧ calls.queue.all = true ∧ calls.log.all = true ∧
        Listening (calls.getaddrinfo config.host (printInt config.port)) (some fd) := by
  simp only [serverInit]
  obtain ⟨events, hq, ho, hnot⟩ | ⟨events, queue, hq, ho, hc, hcalls, hinit⟩ :=
    queueInit_cases (toSize config.queueCapacity) calls.queue
  · rw [hq]
    exact .inl ⟨_, _, rfl, ho, rfl, fun h => hnot ⟨h.1, h.2.1⟩⟩
  rw [hq]
  obtain ⟨logEvents, hlog, hol, hbad⟩ | ⟨logEvents, hlog, hol, hgood⟩ :=
    accessLogOpen_cases calls.log
  · simp only [hlog]
    refine .inl ⟨_, _, rfl, (ho.append hol).append socketQueueDestroy_orderly, rfl, ?_⟩
    intro h
    rw [hbad] at h
    exact Bool.false_ne_true h.2.2.1
  simp only [hlog]
  have haddresses : .addresses ∉ ofLog ++ ofQueue := by decide
  have hsockets : ∀ fd, .socket fd ∉ ofLog ++ ofQueue := by
    intro fd hm
    simp only [ofLog, ofQueue, List.cons_append, List.nil_append, List.mem_cons, reduceCtorEq,
      List.not_mem_nil, or_self] at hm
  obtain ⟨socketEvents, listenFd, hs, hlisten, hos⟩ :=
    createListeningSocket_cases haddresses hsockets config calls.getaddrinfo
  rw [printInt_fits hl hh] at hlisten
  simp only [hs]
  cases listenFd with
  | none =>
    refine .inl ⟨_, _, rfl, ?_, rfl, ?_⟩
    · exact (((ho.append hol).append hos).append accessLogClose_orderly).append
        socketQueueDestroy_orderly
    · intro h
      obtain ⟨fd, hfd⟩ := h.2.2.2
      exact hlisten.unusable hfd
  | some fd =>
    exact .inr ⟨_, _, fd, queue, rfl, (ho.append hol).append hos, rfl, hinit, hc, hcalls, hgood,
      hlisten⟩

/-- `server_init` sets up everything or nothing: it succeeds exactly if the queue has a capacity,
all calls for it and for the log do, and some address found for the host and the port as a numeral
can be listened on. Then it listens on the first such address; otherwise all it acquired has been
released, once each and parts before what they lie in. -/
theorem serverInit_all_or_nothing (config : ServerConfig) (calls : SystemCalls)
    (hl : -2147483648 ≤ config.port) (hh : config.port ≤ 2147483647) :
    ∃ events server ok, serverInit config calls = (events, server, ok) ∧
      (ok = true ↔ 0 < toSize config.queueCapacity ∧ calls.queue.all = true ∧
        calls.log.all = true ∧
        ∃ fd, Listening (calls.getaddrinfo config.host (printInt config.port)) (some fd)) ∧
      (ok = true → ∃ fd queue, server = ⟨config, some fd, false, some queue, true⟩ ∧
        Listening (calls.getaddrinfo config.host (printInt config.port)) (some fd) ∧
        socketQueueInit (toSize config.queueCapacity) true = some queue ∧
        Orderly within [] events (.socket fd :: (ofLog ++ ofQueue))) ∧
      (ok = false → Orderly within [] events [] ∧
        server = ⟨config, none, false, none, false⟩) := by
  obtain ⟨events, server, hinit, ho, rfl, hnot⟩ |
    ⟨events, server, fd, queue, hinit, ho, hserver, hq, hc, hcalls, hlog, hlisten⟩ :=
    serverInit_outcome config calls hl hh
  · refine ⟨events, _, false, hinit, ?_, nofun, fun _ => ⟨ho, rfl⟩⟩
    exact ⟨nofun, fun h => absurd h hnot⟩
  · refine ⟨events, server, true, hinit, ?_, fun _ => ⟨fd, queue, hserver, hlisten, hq, ho⟩, nofun⟩
    exact ⟨fun _ => ⟨hc, hcalls, hlog, fd, hlisten⟩, fun _ => rfl⟩

def thirdUsable : SystemCalls where
  queue := ⟨true, true, true, true, true⟩
  log := ⟨true, true, true⟩
  getaddrinfo := fun _ _ => some [⟨none, true, true⟩, ⟨some 3, false, true⟩, ⟨some 4, true, true⟩]

theorem serverInit_all_or_nothing_third : ∃ events server,
    serverInit defaultConfig thirdUsable = (events, server, true) ∧ server.listenFd = some 4 := by
  obtain ⟨events, server, ok, hinit, hiff, htrue, _⟩ :=
    serverInit_all_or_nothing defaultConfig thirdUsable (by decide) (by decide)
  have hlisten : Listening (thirdUsable.getaddrinfo defaultConfig.host
      (printInt defaultConfig.port)) (some 4) := by
    have hfound : thirdUsable.getaddrinfo defaultConfig.host (printInt defaultConfig.port) =
        some ([⟨none, true, true⟩, ⟨some 3, false, true⟩] ++ ⟨some 4, true, true⟩ :: []) := rfl
    exact .first hfound (by decide) rfl
  have hok : ok = true := hiff.2 ⟨by decide, rfl, rfl, 4, hlisten⟩
  obtain ⟨fd, queue, hserver, _⟩ := htrue hok
  have hfd : server.listenFd = some 4 := by
    have hcomputed : (serverInit defaultConfig thirdUsable).2.1.listenFd = some 4 := rfl
    rw [hinit] at hcomputed
    exact hcomputed
  exact ⟨events, server, hok ▸ hinit, hfd⟩

theorem serverStops_orderly {server : Server} (k : Nat) :
    ∃ events stopped, serverStops k server = (events, stopped) ∧
      Orderly within ((server.listenFd.toList.map .socket) ++ (ofLog ++ ofQueue)) events
        ((stopped.listenFd.toList.map .socket) ++ (ofLog ++ ofQueue)) ∧
      stopped.accessLog = server.accessLog ∧ stopped.queue.isSome = server.queue.isSome := by
  induction k generalizing server with
  | zero => exact ⟨[], server, rfl, rfl, rfl, rfl⟩
  | succ k ih =>
    obtain ⟨later, stopped, hs, ho, hlog, hqueue⟩ := @ih (serverStop server).2
    refine ⟨(serverStop server).1 ++ later, stopped, ?_, ?_, hlog, ?_⟩
    · simp only [serverStops, hs]
    · apply Orderly.append _ ho
      change Orderly within _ _ (ofLog ++ ofQueue)
      cases hfd : server.listenFd with
      | none =>
        simp only [serverStop, hfd]
        exact rfl
      | some fd =>
        simp only [serverStop, hfd]
        exact socket_released _
    · rw [hqueue]
      change (server.queue.map _).isSome = _
      exact Option.isSome_map

theorem serverDestroy_orderly {server : Server} (hl : server.accessLog = true)
    (hq : server.queue.isSome = true) :
    Orderly within ((server.listenFd.toList.map .socket) ++ (ofLog ++ ofQueue))
      (serverDestroy server).1 [] := by
  have hrest : Orderly within (ofLog ++ ofQueue) (accessLogClose ++ socketQueueDestroy) [] := rfl
  simp only [serverDestroy, hl, hq, if_true]
  cases server.listenFd with
  | none => exact hrest
  | some fd => exact (socket_released (ofLog ++ ofQueue)).append hrest

theorem toSize_small {n : Int} (hl : 1 ≤ n) (hh : n ≤ 65535) :
    1 ≤ toSize n ∧ toSize n ≤ 65535 := by
  rw [toSize]
  omega

/-- Whatever the command line is, whatever fails and however often the server is stopped before it
is destroyed, when `main` returns all that was acquired has been released, once each and parts
before what they lie in. A server that runs has from 1 to 65535 threads and slots for waiting
connections, and has closed every connection it accepted if it returns 0. -/
theorem main_cleans_up (args : List Bytes) (calls : SystemCalls) (events : Events)
    (served : Option ServerState) (code : Nat) (h : MainRuns args calls events served code) :
    Orderly within [] events [] ∧
      (∀ r, events.count (.acquired r) = events.count (.released r)) ∧
      ∀ s, served = some s →
        (1 ≤ s.workers.length ∧ s.workers.length ≤ 65535) ∧
        (1 ≤ s.monitor.queue.capacity ∧ s.monitor.queue.capacity ≤ 65535) ∧
        (code = 0 → s.opened = [] ∧ ∀ fd, s.closed.count fd = s.accepted.count fd) := by
  cases h with
  | usage hp => exact ⟨rfl, fun r => rfl, nofun⟩
  | @failed config _ server hp hi =>
    obtain ⟨⟨hlow, hhigh⟩, _, _⟩ := parseOptions_bounds hp
    obtain ⟨_, _, hinit, ho, _⟩ | ⟨_, _, _, _, hinit, _⟩ :=
      serverInit_outcome config calls (by omega) (by omega)
    · rw [hi] at hinit
      cases hinit
      exact ⟨ho, ho.balanced, nofun⟩
    · rw [hi] at hinit
      cases hinit
  | @ran config startEvents server queue allocated as s _ stops stopEvents stopped hp hi hq hrun hm
      hs =>
    obtain ⟨⟨hlow, hhigh⟩, ⟨htlow, hthigh⟩, hqlow, hqhigh⟩ := parseOptions_bounds hp
    obtain ⟨_, _, hinit, _⟩ | ⟨_, _, fd, queue', hinit, ho, hserver, hqueue, _⟩ :=
      serverInit_outcome config calls (by omega) (by omega)
    · rw [hi] at hinit
      cases hinit
    · rw [hi] at hinit
      cases hinit
      cases hserver
      cases hq
      obtain ⟨_, _, hstops, hso, hlog, hsome⟩ := serverStops_orderly stops
      rw [hs] at hstops
      cases hstops
      have hall := (ho.append hso).append (serverDestroy_orderly hlog hsome)
      refine ⟨hall, hall.balanced, ?_⟩
      intro t ht
      cases ht
      obtain ⟨hown, hphased⟩ := ServerState.run_owned
        (ServerState.initial_owned hqueue config.threadCount.toNat allocated)
        (ServerState.initial_phased queue config.threadCount.toNat allocated) hrun
      rw [hown.workers, hown.capacity]
      refine ⟨by omega, toSize_small hqlow hqhigh, ?_⟩
      intro hcode
      rw [hcode] at hm
      have hempty : s.opened = [] := hown.opened_empty hphased (by omega) hm
      refine ⟨hempty, fun fd => ?_⟩
      have hcount := hown.ledger.count_acquired fd
      rw [hempty, if_neg List.not_mem_nil] at hcount
      exact hcount.symm

theorem main_cleans_up_served : ∃ events s,
    MainRuns [ascii "-t1", ascii "-q", ascii "1"] thirdUsable events (some s) 0 ∧
      s.accepted = [5] ∧ s.closed.count 5 = 1 ∧
      ∀ r, events.count (.acquired r) = events.count (.released r) := by
  let c : Connection := ⟨[], [], fun _ => pageOs, [], []⟩
  let config : ServerConfig := { defaultConfig with threadCount := 1, queueCapacity := 1 }
  let queue : SocketQueue := ⟨[0], 1, 0, 0, 0, false⟩
  let as : List Action :=
    [.spawn true, .spawn true, .test, .accept (.accepted 5), .enqueue [] [], .dequeue 0 c,
      .requestStop, .shutdownQueue, .workerIo 0, .workerIo 0, .dequeue 0 c, .test, .shutdownPool,
      .join, .join]
  have hpairs : (follow ServerState.next (.initial queue 1 true) as).map
      (fun s => (s.main, s.accepted)) = some (.returned 0, [5]) := by decide +kernel
  obtain ⟨s, hs, he⟩ := Option.map_eq_some_iff.1 hpairs
  have hm : s.main = .returned 0 := congrArg Prod.fst he
  have ha : s.accepted = [5] := congrArg Prod.snd he
  have hp : parseOptions [ascii "-t1", ascii "-q", ascii "1"] = some config := by decide +kernel
  let server : Server := ⟨config, some 4, false, some queue, true⟩
  have hstops : serverStops 2 server = (_, _) := rfl
  have hmain : MainRuns [ascii "-t1", ascii "-q", ascii "1"] thirdUsable _ (some s) 0 :=
    .ran hp rfl rfl (run_of_follow hs) hm hstops
  obtain ⟨_, hcount, hserved⟩ := main_cleans_up _ _ _ _ _ hmain
  obtain ⟨_, _, hclosed⟩ := hserved s rfl
  refine ⟨_, s, hmain, ha, ?_, hcount⟩
  rw [(hclosed rfl).2 5, ha]
  rfl

end Httpd
