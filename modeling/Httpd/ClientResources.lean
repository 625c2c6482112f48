import Httpd.ClientLoop
import Httpd.Lib.Custody

namespace Httpd
open Custody
set_option autoImplicit true

/-- What `handle_client` may hold: its socket, the stream of a file that it sends, and the page of
a directory. -/
inductive ClientResource where
  | socket
  | stream
  | page
  deriving DecidableEq

def ClientResource.within : ClientResource → Option ClientResource := fun _ => none

open ClientResource

/-- What `handle_client` does: a call on its socket, or one of the calls with which it obtains,
uses and gives back what else it holds. -/
inductive Deed where
  | socket (event : SocketEvent)
  | fopen
  | fseeko
  | fread
  | fclose
  | fileBuildDirectoryListing
  | readPage
  | free
  deriving DecidableEq

namespace Deed

def socketEvent : Deed → Option SocketEvent
  | .socket event => some event
  | _ => none

def custody : Deed → Event ClientResource
  | .socket .closed => .released .socket
  | .socket _ => .used .socket
  | .fopen => .acquired .stream
  | .fseeko => .used .stream
  | .fread => .used .stream
  | .fclose => .released .stream
  | .fileBuildDirectoryListing => .acquired .page
  | .readPage => .used .page
  | .free => .released .page

end Deed

def SendRun.deeds (run : SendRun) : List Deed := run.events.map .socket

def sendFileLoopDeeds : Nat → Nat → Bytes → List Nat → List SendOutcome → List Deed
  | 0, _, _, _, _ => [.fclose]
  | fuel + 1, remaining, file, freads, outcomes =>
    if remaining = 0 then [.fclose]
    else
      let want := if remaining < readBufferSize then remaining else readBufferSize
      let (buffer, file, freads) := fread want file freads
      .fread ::
        if buffer = [] then [.fclose]
        else
          let sent := sendAll outcomes buffer
          sent.deeds ++
            if sent.ok then
              sendFileLoopDeeds fuel (remaining - buffer.length) file freads sent.rest
            else [.fclose]

def sendFileDeeds (os : Os) (request : HttpRequest) (info : FileInfo) (keepAlive : Bool)
    (outcomes : List SendOutcome) : List Deed :=
  match os.fopen info.resolvedPath with
  | none => (sendSimpleResponse (some request) 500 internalServerError false outcomes).run.deeds
  | some file =>
    .fopen ::
      match resolveRange request info.size with
      | none => .fclose :: (sendRangeNotSatisfiable request info.size keepAlive outcomes).run.deeds
      | some range =>
        (if range.isPartial then [.fseeko] else []) ++
          if range.isPartial ∧ !os.fseeko range.start then
            .fclose ::
              (sendSimpleResponse (some request) 500 internalServerError false outcomes).run.deeds
          else
            let sent := sendHeaders (rangeAnswer os request info keepAlive file range).head outcomes
            sent.deeds ++
              if !sent.ok then [.fclose]
              else if request.method = .head then [.fclose]
              else
                let file := if range.isPartial then file.drop range.start.toNat else file
                sendFileLoopDeeds range.length.toNat range.length.toNat file os.freads sent.rest

def sendDirectoryDeeds (os : Os) (request : HttpRequest) (info : FileInfo) (keepAlive : Bool)
    (outcomes : List SendOutcome) : List Deed :=
  match (fileBuildDirectoryListing 64 os request.path.str info.resolvedPath).1 with
  -- a listing that fails has freed what it had built
  | none => (sendSimpleResponse (some request) 500 internalServerError false outcomes).run.deeds
  | some body =>
    let text := headerText (some request) 200 (ascii "OK")
      [(ascii "Content-Type", ascii "text/html"),
        (ascii "Content-Length", decimal body.length),
        (ascii "Connection", connectionText keepAlive)]
    let sent := sendHeaders text outcomes
    .fileBuildDirectoryListing ::
      (sent.deeds ++
        if !sent.ok then [.free]
        else if request.method = .head then [.free]
        else .readPage :: ((sendAll sent.rest body).deeds ++ [.free]))

def respondDeeds (os : Os) (docRoot : Bytes) (request : HttpRequest) (keepAlive : Bool)
    (outcomes : List SendOutcome) : List Deed :=
  if request.method = .unsupported then
    (sendSimpleResponse (some request) 501 (ascii "Not Implemented\n") keepAlive outcomes).run.deeds
  else
    match fileStatPath os docRoot request.path.str with
    | .error failure =>
      let status := statusFromFileResult failure
      let body := (snprintf 128 (decimal status ++ 32 :: httpStatusText status ++ [lf])).2
      (sendSimpleResponse (some request) status body keepAlive outcomes).run.deeds
    | .ok info =>
      match info.kind with
      | .directory => sendDirectoryDeeds os request info keepAlive outcomes
      | .regular => sendFileDeeds os request info keepAlive outcomes

def passDeeds (c : Connection) (k : Nat) (s : ReadState) (outcomes : List SendOutcome) :
    List Deed :=
  let result := readNextRequest s
  result.events.map .socket ++
    match result.outcome with
    | .eof => []
    | .bad => (sendSimpleResponse none 400 (ascii "Bad Request\n") false outcomes).run.deeds
    | .request request _ _ =>
      respondDeeds (c.os k) c.docRoot request (httpShouldKeepAlive request) outcomes

def clientLoopDeeds (c : Connection) : Nat → Nat → ReadState → List SendOutcome → List (List Deed)
  | 0, _, _, _ => []
  | fuel + 1, k, s, outcomes =>
    passDeeds c k s outcomes ::
      match (clientPass c k s outcomes).2 with
      | none => []
      | some (s, outcomes) => clientLoopDeeds c fuel (k + 1) s outcomes

def handleClientDeeds (c : Connection) : List (List Deed) :=
  clientLoopDeeds c ((streamOf c.arrivals).length + 1) 0 (.initial c.arrivals) c.outcomes

/-- Deeds that do this to the socket, in order, and lead from what is held before to what is held
after. -/
structure Tidy (held : List ClientResource) (deeds : List Deed) (events : List SocketEvent)
    (held' : List ClientResource) : Prop where
  calls : deeds.filterMap Deed.socketEvent = events
  orderly : Orderly within held (deeds.map Deed.custody) held'

namespace Tidy

theorem append (h : Tidy held deeds events held') (h' : Tidy held' later events' held'') :
    Tidy held (deeds ++ later) (events ++ events') held'' := by
  constructor
  · rw [List.filterMap_append, h.calls, h'.calls]
  · rw [List.map_append]
    exact h.orderly.append h'.orderly

theorem silent (h : Tidy held deeds [] mid) (h' : Tidy mid later events held') :
    Tidy held (deeds ++ later) events held' := h.append h'

theorem cons (hdeed : deed.socketEvent = none)
    (hnext : next within held deed.custody = some mid) (h : Tidy mid deeds events held') :
    Tidy held (deed :: deeds) events held' := by
  constructor
  · rw [List.filterMap_cons_none hdeed]
    exact h.calls
  · exact .cons hnext h.orderly

theorem nil (held : List ClientResource) : Tidy held [] [] held := ⟨rfl, .nil held⟩

theorem socket {events : List SocketEvent} (hheld : .socket ∈ held) (h : .closed ∉ events) :
    Tidy held (events.map .socket) events held := by
  constructor
  · rw [List.filterMap_map]
    exact List.filterMap_some
  · apply Orderly.uses hheld
    intro event hevent
    rw [List.map_map] at hevent
    obtain ⟨call, hcall, rfl⟩ := List.mem_map.1 hevent
    cases call with
    | closed => exact absurd hcall h
    | received | recvInterrupted | recvFailed | sent | sendInterrupted | sendFailed | sendBroken =>
      rfl

end Tidy

theorem andThen_events (first : SendRun) (next : List SendOutcome → SendRun) :
    (first.andThen next).events =
      first.events ++ if first.ok then (next first.rest).events else [] := by
  rw [SendRun.andThen]
  cases first.ok with
  | true => rfl
  | false => exact (List.append_nil _).symm

theorem reply_events (answer : Answer) (headOnly : Bool) (outcomes : List SendOutcome) :
    (answer.reply headOnly outcomes).run.events = (sendHeaders answer.head outcomes).events ++
      if (sendHeaders answer.head outcomes).ok then
        (if headOnly then SendRun.done (sendHeaders answer.head outcomes).rest
          else answer.body.send (sendHeaders answer.head outcomes).rest).events
      else [] := andThen_events _ _

theorem closed_notMem_sends {events : List SocketEvent} (h : ∀ e ∈ events, e.isSend = true) :
    .closed ∉ events := by
  intro hmem
  cases h _ hmem

theorem sendAll_tidy (r : ClientResource) (outcomes : List SendOutcome) (data : Bytes) :
    Tidy [r, .socket] (sendAll outcomes data).deeds (sendAll outcomes data).events [r, .socket] :=
  .socket (List.mem_cons_of_mem r List.mem_cons_self)
    (closed_notMem_sends (sendAll_sends outcomes data).sends)

theorem sendHeaders_tidy (r : ClientResource) {text : Bytes} (h : text ≠ [])
    (outcomes : List SendOutcome) :
    Tidy [r, .socket] (sendHeaders text outcomes).deeds (sendHeaders text outcomes).events
      [r, .socket] :=
  .socket (List.mem_cons_of_mem r List.mem_cons_self)
    (closed_notMem_sends (sendHeaders_sends h outcomes).sends)

theorem reply_tidy {answer : Answer} (h : answer.head ≠ []) (headOnly : Bool)
    (outcomes : List SendOutcome) : Tidy [.socket] (answer.reply headOnly outcomes).run.deeds
      (answer.reply headOnly outcomes).run.events [.socket] := by
  have hsends := (sendHeaders_sends h outcomes).andThen (answer.body_sends headOnly)
  exact .socket List.mem_cons_self (closed_notMem_sends hsends.sends)

theorem sendSimpleResponse_tidy (request : Option HttpRequest) (status : Nat) (body : Bytes)
    (keepAlive : Bool) (outcomes : List SendOutcome) :
    Tidy [.socket] (sendSimpleResponse request status body keepAlive outcomes).run.deeds
      (sendSimpleResponse request status body keepAlive outcomes).run.events [.socket] := by
  rw [sendSimpleResponse_eq]
  exact reply_tidy (headerText_ne_nil _ _ _ _) _ outcomes

theorem sendRangeNotSatisfiable_tidy (request : HttpRequest) (fileSize : UInt64)
    (keepAlive : Bool) (outcomes : List SendOutcome) :
    Tidy [.socket] (sendRangeNotSatisfiable request fileSize keepAlive outcomes).run.deeds
      (sendRangeNotSatisfiable request fileSize keepAlive outcomes).run.events [.socket] := by
  rw [sendRangeNotSatisfiable_eq]
  exact reply_tidy (headerText_ne_nil _ _ _ _) _ outcomes

theorem fclose_tidy : Tidy [.stream, .socket] [.fclose] [] [.socket] := ⟨rfl, rfl⟩

theorem free_tidy : Tidy [.page, .socket] [.free] [] [.socket] := ⟨rfl, rfl⟩

theorem sendFileLoop_tidy (fuel remaining : Nat) (file : Bytes) (freads : List Nat)
    (outcomes : List SendOutcome) :
    Tidy [.stream, .socket] (sendFileLoopDeeds fuel remaining file freads outcomes)
      (sendFileLoop fuel remaining file freads outcomes).events [.socket] := by
  induction fuel generalizing remaining file freads outcomes with
  | zero => exact fclose_tidy
  | succ fuel ih =>
    rw [sendFileLoopDeeds, sendFileLoop]
    by_cases hdone : remaining = 0
    · rw [if_pos hdone, if_pos hdone]
      exact fclose_tidy
    simp only [if_neg hdone]
    generalize fread (if remaining < readBufferSize then remaining else readBufferSize) file
      freads = piece
    obtain ⟨buffer, file, freads⟩ := piece
    apply Tidy.cons rfl rfl
    dsimp only
    by_cases hend : buffer = []
    · rw [if_pos hend, if_pos hend]
      exact fclose_tidy
    rw [if_neg hend, if_neg hend, andThen_events]
    apply (sendAll_tidy .stream outcomes buffer).append
    cases (sendAll outcomes buffer).ok with
    | true => exact ih _ file freads _
    | false => exact fclose_tidy

theorem fseeko_tidy (isPartial : Bool) :
    Tidy [.stream, .socket] (if isPartial then [.fseeko] else []) [] [.stream, .socket] := by
  cases isPartial with
  | true => exact ⟨rfl, rfl⟩
  | false => exact .nil _

theorem rangeAnswer_head (os : Os) (request : HttpRequest) (info : FileInfo) (keepAlive : Bool)
    (file : Bytes) (range : ByteRange) :
    (rangeAnswer os request info keepAlive file range).head ≠ [] := by
  rw [rangeAnswer]
  cases range.isPartial with
  | true => exact headerText_ne_nil _ _ _ _
  | false => exact headerText_ne_nil _ _ _ _

theorem sendFile_tidy (os : Os) (request : HttpRequest) (info : FileInfo) (keepAlive : Bool)
    (outcomes : List SendOutcome) :
    Tidy [.socket] (sendFileDeeds os request info keepAlive outcomes)
      (sendFileResponse os request info keepAlive outcomes).run.events [.socket] := by
  have hfallback := sendSimpleResponse_tidy (some request) 500 internalServerError false outcomes
  rw [sendFileDeeds, sendFileResponse_eq, fileAnswer]
  cases os.fopen info.resolvedPath with
  | none =>
    dsimp only
    rw [← sendSimpleResponse_eq]
    exact hfallback
  | some file =>
    apply Tidy.cons rfl rfl
    cases resolveRange request info.size with
    | none =>
      apply Tidy.cons rfl rfl
      dsimp only
      rw [← sendRangeNotSatisfiable_eq]
      exact sendRangeNotSatisfiable_tidy request info.size keepAlive outcomes
    | some range =>
      apply (fseeko_tidy range.isPartial).silent
      dsimp only
      by_cases hseek : range.isPartial ∧ !os.fseeko range.start
      · rw [if_pos hseek, if_pos hseek, ← sendSimpleResponse_eq]
        exact .cons rfl rfl hfallback
      rw [if_neg hseek, if_neg hseek]
      rw [reply_events, headOnly_iff]
      apply (sendHeaders_tidy .stream (rangeAnswer_head _ _ _ _ _ _) outcomes).append
      generalize sendHeaders (rangeAnswer os request info keepAlive file range).head outcomes = sent
      cases sent.ok with
      | false => exact fclose_tidy
      | true =>
        by_cases hhead : request.method = .head
        · rw [decide_eq_true hhead]
          simp only [hhead, if_true]
          exact fclose_tidy
        · rw [decide_eq_false hhead]
          simp only [hhead, if_false]
          exact sendFileLoop_tidy _ _ _ _ _

theorem sendDirectory_tidy (os : Os) (request : HttpRequest) (info : FileInfo) (keepAlive : Bool)
    (outcomes : List SendOutcome) :
    Tidy [.socket] (sendDirectoryDeeds os request info keepAlive outcomes)
      (sendDirectoryResponse os request info keepAlive outcomes).run.events [.socket] := by
  rw [sendDirectoryDeeds, sendDirectoryResponse]
  cases (fileBuildDirectoryListing 64 os request.path.str info.resolvedPath).1 with
  | none => exact sendSimpleResponse_tidy (some request) 500 internalServerError false outcomes
  | some body =>
    apply Tidy.cons rfl rfl
    dsimp only [SendRun.report]
    rw [andThen_events]
    apply (sendHeaders_tidy .page (headerText_ne_nil _ _ _ _) outcomes).append
    generalize sendHeaders _ outcomes = sent
    cases sent.ok with
    | false => exact free_tidy
    | true =>
      by_cases hhead : request.method = .head
      · simp only [hhead, if_true]
        exact free_tidy
      · simp only [hhead, if_false]
        have hsent := (sendAll_tidy .page sent.rest body).append free_tidy
        rw [List.append_nil] at hsent
        exact .cons rfl rfl hsent

theorem respond_tidy (os : Os) (docRoot : Bytes) (request : HttpRequest) (keepAlive : Bool)
    (outcomes : List SendOutcome) :
    Tidy [.socket] (respondDeeds os docRoot request keepAlive outcomes)
      (respond os docRoot request keepAlive outcomes).run.events [.socket] := by
  rw [respondDeeds, respond]
  by_cases hmethod : request.method = .unsupported
  · rw [if_pos hmethod, if_pos hmethod]
    exact sendSimpleResponse_tidy _ _ _ _ outcomes
  rw [if_neg hmethod, if_neg hmethod]
  cases fileStatPath os docRoot request.path.str with
  | error failure => exact sendSimpleResponse_tidy _ _ _ _ outcomes
  | ok info =>
    dsimp only
    cases info.kind with
    | directory => exact sendDirectory_tidy os request info keepAlive outcomes
    | regular => exact sendFile_tidy os request info keepAlive outcomes

theorem closed_notMem_receives {events : List SocketEvent}
    (h : ∀ e ∈ events, e.isReceive = true) : .closed ∉ events := by
  intro hmem
  cases h _ hmem

/-- Whatever a pass comes to, it leaves no more than the socket behind. -/
theorem pass_tidy (c : Connection) (k : Nat) (s : ReadState) (outcomes : List SendOutcome) :
    Tidy [.socket] (passDeeds c k s outcomes) (clientPass c k s outcomes).1.events [.socket] := by
  have hread : Tidy [.socket] ((readNextRequest s).events.map .socket) (readNextRequest s).events
      [.socket] :=
    .socket List.mem_cons_self (closed_notMem_receives (readNextRequest_events s))
  rw [passDeeds, clientPass]
  cases (readNextRequest s).outcome with
  | eof =>
    dsimp only
    rw [List.append_nil]
    exact hread
  | bad => exact hread.append (sendSimpleResponse_tidy _ _ _ _ outcomes)
  | request request requestLine head => exact hread.append (respond_tidy _ _ _ _ outcomes)

theorem clientLoop_tidy (c : Connection) (fuel k : Nat) (s : ReadState)
    (outcomes : List SendOutcome) :
    (clientLoopDeeds c fuel k s outcomes).map (List.filterMap Deed.socketEvent) =
        (clientLoop c fuel k s outcomes).map Turn.events ∧
      ∀ deeds ∈ clientLoopDeeds c fuel k s outcomes,
        Orderly within [.socket] (deeds.map Deed.custody) [.socket] := by
  induction fuel generalizing k s outcomes with
  | zero => exact ⟨rfl, List.forall_mem_nil _⟩
  | succ fuel ih =>
    have hpass := pass_tidy c k s outcomes
    rw [clientLoopDeeds, clientLoop]
    generalize clientPass c k s outcomes = pass at hpass ⊢
    obtain ⟨turn, next⟩ := pass
    rw [List.map_cons, hpass.calls]
    cases next with
    | none => exact ⟨rfl, List.forall_mem_singleton.2 hpass.orderly⟩
    | some next =>
      obtain ⟨hcalls, hrest⟩ := ih (k + 1) next.1 next.2
      constructor
      · rw [List.map_cons, hcalls]
      · exact List.forall_mem_cons.2 ⟨hpass.orderly, hrest⟩

/-- Whatever fails, no stream and no page outlives the answer that it was obtained for: each pass
gives back once what it obtains and uses nothing that it has given back, and what it does to the
socket is what the loop does. The socket is closed last. -/
theorem handleClient_tidy (c : Connection) :
    (handleClientDeeds c).map (List.filterMap Deed.socketEvent) =
        (handleClient c).map Turn.events ∧
      (∀ deeds ∈ handleClientDeeds c,
        Orderly within [.socket] (deeds.map Deed.custody) [.socket] ∧
        ∀ r, (deeds.map Deed.custody).count (.acquired r) =
          (deeds.map Deed.custody).count (.released r)) ∧
      Orderly within [.socket]
        (((handleClientDeeds c).flatten ++ [Deed.socket .closed]).map Deed.custody) [] := by
  obtain ⟨hcalls, hpasses⟩ := clientLoop_tidy c ((streamOf c.arrivals).length + 1) 0
    (.initial c.arrivals) c.outcomes
  have hclose : Orderly within [ClientResource.socket]
      ([Deed.socket .closed].map Deed.custody) [] := rfl
  refine ⟨hcalls, ?_, ?_⟩
  · intro deeds hdeeds
    have horderly := hpasses deeds hdeeds
    exact ⟨horderly, fun r => Nat.add_right_cancel (horderly.count r)⟩
  · rw [List.map_append, List.map_flatten]
    exact (Orderly.flatten (List.forall_mem_map.2 hpasses)).append hclose

end Httpd
