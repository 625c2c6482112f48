import Httpd.HttpParser

namespace Httpd
open Scan
set_option autoImplicit true

def readBufferSize : Nat := 8192

/-- One result the kernel has in store for the `recv` calls on a connection; the data of one
arrival may take several calls to fetch. When the list is used up the stream has ended. -/
inductive Arrival where
  | data (first : UInt8) (rest : Bytes)
  | interrupted
  | failed
  deriving DecidableEq

def Arrival.bytes : Arrival → Bytes
  | .data first rest => first :: rest
  | _ => []

def streamOf (arrivals : List Arrival) : Bytes := arrivals.flatMap Arrival.bytes

theorem streamOf_single (bytes : Bytes) :
    streamOf (bytes.map fun b => .data b []) = bytes := by
  induction bytes with
  | nil => rfl
  | cons b bytes ih => exact congrArg (b :: ·) ih

theorem single_notFailed (bytes : Bytes) : .failed ∉ bytes.map fun b => Arrival.data b [] := by
  intro h
  obtain ⟨b, _, he⟩ := List.mem_map.1 h
  cases he

/-- A `recv` never stores more than the space it is offered. -/
inductive RecvResult (space : Nat) where
  | received (chunk : Bytes) (fits : chunk.length ≤ space)
  | interrupted
  | failed

def putBack (chunk : Bytes) (arrivals : List Arrival) : List Arrival :=
  match chunk with
  | [] => arrivals
  | first :: rest => .data first rest :: arrivals

def recv (space : Nat) : List Arrival → RecvResult space × List Arrival
  | [] => (.received [] (Nat.zero_le space), [])
  | .data first rest :: arrivals =>
    (.received ((first :: rest).take space) (List.length_take_le space _),
      putBack ((first :: rest).drop space) arrivals)
  | .interrupted :: arrivals => (.interrupted, arrivals)
  | .failed :: arrivals => (.failed, arrivals)

/-- The array `buffer` of a connection and how much of it is in use. -/
structure ReadBuffer where
  data : Bytes
  buffered : Nat
  size_eq : data.length = readBufferSize
  buffered_le : buffered ≤ readBufferSize
  deriving DecidableEq

namespace ReadBuffer

def empty : ReadBuffer := ⟨List.replicate readBufferSize 0, 0, List.length_replicate, by decide⟩

def contents (b : ReadBuffer) : Bytes := b.data.take b.buffered

theorem contents_length (b : ReadBuffer) : b.contents.length = b.buffered := by
  rw [contents, List.length_take, b.size_eq, Nat.min_eq_left b.buffered_le]

def store (b : ReadBuffer) (chunk : Bytes) (h : chunk.length ≤ readBufferSize - b.buffered) :
    ReadBuffer where
  data := b.data.take b.buffered ++ chunk ++ b.data.drop (b.buffered + chunk.length)
  buffered := b.buffered + chunk.length
  size_eq := by
    have := b.buffered_le
    simp only [List.length_append, List.length_take, List.length_drop, b.size_eq]
    omega
  buffered_le := by
    have := b.buffered_le
    omega

/-- The `memmove` that drops the first bytes in use. -/
def consume (b : ReadBuffer) (n : Nat) (h : n ≤ b.buffered) : ReadBuffer where
  data := (b.data.drop n).take (b.buffered - n) ++ b.data.drop (b.buffered - n)
  buffered := b.buffered - n
  size_eq := by
    have := b.buffered_le
    simp only [List.length_append, List.length_take, List.length_drop, b.size_eq]
    omega
  buffered_le := Nat.le_trans (Nat.sub_le _ _) b.buffered_le

theorem contents_store (b : ReadBuffer) (chunk : Bytes)
    (h : chunk.length ≤ readBufferSize - b.buffered) :
    (b.store chunk h).contents = b.contents ++ chunk := by
  have hl := b.contents_length
  simp only [contents, store] at hl ⊢
  exact List.take_left' (by rw [List.length_append, hl])

theorem contents_consume (b : ReadBuffer) (n : Nat) (h : n ≤ b.buffered) :
    (b.consume n h).contents = b.contents.drop n := by
  simp only [contents, consume]
  rw [List.take_left', List.drop_take]
  have := b.buffered_le
  rw [List.length_take, List.length_drop, b.size_eq]
  omega

end ReadBuffer

def findHeaderEnd (buffer : Bytes) : Option Nat :=
  (firstOccurrence (crlf ++ crlf) buffer).map (· + 4)

theorem findHeaderEnd_le (h : findHeaderEnd buffer = some n) : 4 ≤ n ∧ n ≤ buffer.length := by
  obtain ⟨i, hi, rfl⟩ := Option.map_eq_some_iff.1 h
  have := firstOccurrence_bound hi
  simp only [crlf, List.length_append, List.length_cons, List.length_nil] at this
  omega

theorem ReadBuffer.header_le (b : ReadBuffer) (h : findHeaderEnd b.contents = some n) :
    n ≤ b.buffered :=
  Nat.le_trans (findHeaderEnd_le h).2 (Nat.le_of_eq b.contents_length)

/-- The bytes `extract_request_line` stores before the terminator. -/
def extractRequestLine (buffer : Bytes) (requestLineSize : Nat) : Bytes :=
  let lineLen := (firstOccurrence crlf buffer).getD buffer.length
  buffer.take (if lineLen ≥ requestLineSize then requestLineSize - 1 else lineLen)

def requestLineSize : Nat := 256

inductive SocketEvent where
  | received (chunk : Bytes)
  | recvInterrupted
  | recvFailed
  | sent (chunk : Bytes)
  | sendInterrupted
  | sendFailed
  | sendBroken
  | closed
  deriving DecidableEq

def SocketEvent.isReceive : SocketEvent → Bool
  | .received _ | .recvInterrupted | .recvFailed => true
  | _ => false

def SocketEvent.isSend : SocketEvent → Bool
  | .sent _ | .sendInterrupted | .sendFailed | .sendBroken => true
  | _ => false

/-- What `read_next_request` returns: 1 with the request and the head it was parsed from, 0 at
the end of the stream, or -1. -/
inductive ReadOutcome where
  | request (request : HttpRequest) (requestLine head : Bytes)
  | eof
  | bad
  deriving DecidableEq

structure ReadState where
  buffer : ReadBuffer
  arrivals : List Arrival
  deriving DecidableEq

/-- One pass of the loop of `read_next_request`; without an outcome it goes round again. -/
structure ReadRound where
  outcome : Option ReadOutcome
  events : List SocketEvent
  state : ReadState

def readRound (s : ReadState) : ReadRound :=
  match h : findHeaderEnd s.buffer.contents with
  | some headerLength =>
    let head := s.buffer.contents.take headerLength
    match httpParseRequest head with
    | none => ⟨some .bad, [], s⟩
    | some request =>
      ⟨some (.request request (extractRequestLine head requestLineSize) head), [],
        ⟨s.buffer.consume headerLength (s.buffer.header_le h), s.arrivals⟩⟩
  | none =>
    if s.buffer.buffered = readBufferSize then ⟨some .bad, [], s⟩
    else
      match recv (readBufferSize - s.buffer.buffered) s.arrivals with
      | (.interrupted, arrivals) => ⟨none, [.recvInterrupted], ⟨s.buffer, arrivals⟩⟩
      | (.failed, arrivals) => ⟨some .bad, [.recvFailed], ⟨s.buffer, arrivals⟩⟩
      | (.received chunk fits, arrivals) =>
        if chunk = [] then
          ⟨some (if s.buffer.buffered = 0 then .eof else .bad), [.received []],
            ⟨s.buffer, arrivals⟩⟩
        else ⟨none, [.received chunk], ⟨s.buffer.store chunk fits, arrivals⟩⟩

def pending (arrivals : List Arrival) : Nat := (arrivals.map fun a => a.bytes.length + 1).sum

structure ReadResult where
  outcome : ReadOutcome
  events : List SocketEvent
  state : ReadState

def readLoop : Nat → ReadState → ReadResult
  | 0, s => ⟨.bad, [], s⟩
  | fuel + 1, s =>
    let round := readRound s
    match round.outcome with
    | some outcome => ⟨outcome, round.events, round.state⟩
    | none =>
      let result := readLoop fuel round.state
      { result with events := round.events ++ result.events }

def readNextRequest (s : ReadState) : ReadResult := readLoop (pending s.arrivals + 1) s

/-- The line `handle_client` logs when no request could be read. -/
def badRequestLine (buffer : ReadBuffer) : Bytes :=
  if buffer.buffered > 0 then extractRequestLine buffer.contents requestLineSize
  else ascii "<invalid request>"

theorem putBack_stream (chunk : Bytes) (arrivals : List Arrival) :
    streamOf (putBack chunk arrivals) = chunk ++ streamOf arrivals := by
  cases chunk <;> rfl

theorem putBack_pending (chunk : Bytes) (arrivals : List Arrival) :
    pending (putBack chunk arrivals) ≤ chunk.length + 1 + pending arrivals := by
  cases chunk with
  | nil => exact Nat.le_add_left _ _
  | cons c chunk => exact Nat.le_refl _

inductive RoundCases (s : ReadState) : ReadRound → Prop where
  | rejected (hf : findHeaderEnd s.buffer.contents = some n)
      (hp : httpParseRequest (s.buffer.contents.take n) = none) :
      RoundCases s ⟨some .bad, [], s⟩
  | accepted (hf : findHeaderEnd s.buffer.contents = some n)
      (hp : httpParseRequest (s.buffer.contents.take n) = some request)
      (hb : b.contents = s.buffer.contents.drop n) :
      RoundCases s ⟨some (.request request
        (extractRequestLine (s.buffer.contents.take n) requestLineSize)
        (s.buffer.contents.take n)), [], ⟨b, s.arrivals⟩⟩
  | full (hf : findHeaderEnd s.buffer.contents = none)
      (hl : s.buffer.contents.length = readBufferSize) : RoundCases s ⟨some .bad, [], s⟩
  | interrupted (hf : findHeaderEnd s.buffer.contents = none)
      (ha : s.arrivals = .interrupted :: arrivals) :
      RoundCases s ⟨none, [.recvInterrupted], ⟨s.buffer, arrivals⟩⟩
  | failed (hf : findHeaderEnd s.buffer.contents = none) (ha : s.arrivals = .failed :: arrivals) :
      RoundCases s ⟨some .bad, [.recvFailed], ⟨s.buffer, arrivals⟩⟩
  | ended (hf : findHeaderEnd s.buffer.contents = none) (ha : s.arrivals = []) :
      RoundCases s ⟨some (if s.buffer.contents = [] then .eof else .bad), [.received []], s⟩
  | more (hf : findHeaderEnd s.buffer.contents = none) (hc : chunk ≠ [])
      (hb : b.contents = s.buffer.contents ++ chunk)
      (hs : chunk ++ streamOf arrivals = streamOf s.arrivals)
      (hp : pending arrivals < pending s.arrivals)
      (hi : ∀ a ∈ arrivals, a = .failed → a ∈ s.arrivals) :
      RoundCases s ⟨none, [.received chunk], ⟨b, arrivals⟩⟩

theorem readRound_cases (s : ReadState) : RoundCases s (readRound s) := by
  unfold readRound
  split
  · rename_i n hf
    simp only
    cases hp : httpParseRequest (s.buffer.contents.take n) with
    | none => exact .rejected hf hp
    | some request => exact .accepted hf hp (s.buffer.contents_consume n _)
  · rename_i hf
    by_cases hl : s.buffer.buffered = readBufferSize
    · rw [if_pos hl]
      exact .full hf (s.buffer.contents_length.trans hl)
    rw [if_neg hl]
    obtain ⟨b, arrivals⟩ := s
    have hpos : 0 < readBufferSize - b.buffered := by
      have := b.buffered_le
      simp only at hl
      omega
    cases arrivals with
    | nil =>
      have he : (b.buffered = 0) = (b.contents = []) := by
        rw [← List.length_eq_zero_iff, b.contents_length]
      simp only [recv, ↓reduceIte, he]
      exact .ended hf rfl
    | cons a arrivals =>
      cases a with
      | interrupted => exact .interrupted hf rfl
      | failed => exact .failed hf rfl
      | data first rest =>
        have hne : (first :: rest).take (readBufferSize - b.buffered) ≠ [] := by
          obtain ⟨k, hk⟩ := Nat.exists_eq_succ_of_ne_zero (Nat.ne_of_gt hpos)
          rw [hk, List.take_succ_cons]
          exact List.cons_ne_nil _ _
        simp only [recv, if_neg hne]
        refine .more hf hne (b.contents_store _ _) ?_ ?_ ?_
        · rw [putBack_stream, ← List.append_assoc, List.take_append_drop]
          rfl
        · refine Nat.lt_of_le_of_lt (putBack_pending _ _) ?_
          simp only [pending, List.map_cons, List.sum_cons, Arrival.bytes, List.length_drop,
            List.length_cons]
          omega
        · intro a ha hfail
          subst hfail
          cases hd : (first :: rest).drop (readBufferSize - b.buffered) with
          | nil =>
            rw [hd] at ha
            exact List.mem_cons_of_mem _ ha
          | cons c cs =>
            rw [hd] at ha
            rcases List.mem_cons.1 ha with he | ha
            · cases he
            · exact List.mem_cons_of_mem _ ha

theorem readRound_pending {s : ReadState} (h : (readRound s).outcome = none) :
    pending (readRound s).state.arrivals < pending s.arrivals := by
  have hc := readRound_cases s
  revert hc h
  generalize readRound s = r
  intro h hc
  cases hc with
  | interrupted _ ha =>
    rw [ha]
    simp only [pending, List.map_cons, List.sum_cons, Arrival.bytes, List.length_nil]
    omega
  | more _ _ _ _ hp _ => exact hp
  | _ => cases h

theorem readLoop_fuel {s : ReadState} (h : pending s.arrivals < fuel)
    (h' : pending s.arrivals < fuel') : readLoop fuel s = readLoop fuel' s := by
  induction fuel generalizing fuel' s with
  | zero => cases h
  | succ fuel ih =>
    cases fuel' with
    | zero => cases h'
    | succ fuel' =>
      simp only [readLoop]
      cases ho : (readRound s).outcome with
      | some o => rfl
      | none =>
        have hp := readRound_pending ho
        have he : readLoop fuel (readRound s).state = readLoop fuel' (readRound s).state :=
          ih (by omega) (by omega)
        simp only [he]

theorem readNextRequest_eq (s : ReadState) :
    readNextRequest s =
      match (readRound s).outcome with
      | some outcome => ⟨outcome, (readRound s).events, (readRound s).state⟩
      | none =>
        { readNextRequest (readRound s).state with
          events := (readRound s).events ++ (readNextRequest (readRound s).state).events } := by
  unfold readNextRequest
  rw [readLoop]
  simp only
  cases ho : (readRound s).outcome with
  | some o => rfl
  | none =>
    have he : readLoop (pending s.arrivals) (readRound s).state =
        readLoop (pending (readRound s).state.arrivals + 1) (readRound s).state :=
      readLoop_fuel (readRound_pending ho) (Nat.lt_succ_self _)
    simp only [he]

theorem readRound_events (s : ReadState) : ∀ e ∈ (readRound s).events, e.isReceive = true := by
  have hc := readRound_cases s
  revert hc
  generalize readRound s = r
  intro hc
  cases hc with
  | rejected _ _ => nofun
  | accepted _ _ _ => nofun
  | full _ _ => nofun
  | interrupted _ _ => exact List.forall_mem_singleton.2 rfl
  | failed _ _ => exact List.forall_mem_singleton.2 rfl
  | ended _ _ => exact List.forall_mem_singleton.2 rfl
  | more _ _ _ _ _ _ => exact List.forall_mem_singleton.2 rfl

theorem readNextRequest_events (s : ReadState) :
    ∀ e ∈ (readNextRequest s).events, e.isReceive = true := by
  induction hn : pending s.arrivals using Nat.strongRecOn generalizing s with
  | ind n ih =>
    subst hn
    rw [readNextRequest_eq]
    cases ho : (readRound s).outcome with
    | some outcome => exact readRound_events s
    | none =>
      intro e he
      rcases List.mem_append.1 he with he | he
      · exact readRound_events s e he
      · exact ih _ (readRound_pending ho) _ rfl e he

end Httpd
