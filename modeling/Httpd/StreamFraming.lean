import Httpd.RequestReader
import Httpd.Lib.Transition

namespace Httpd
open Scan Transition
set_option autoImplicit true

def ReadState.unread (s : ReadState) : Bytes := s.buffer.contents ++ streamOf s.arrivals

/-- How a stream begins, told from its bytes alone. -/
inductive Frame where
  | request (request : HttpRequest) (requestLine head rest : Bytes)
  | eof
  | bad (requestLine : Bytes)

def frame (stream : Bytes) : Frame :=
  let window := stream.take readBufferSize
  match findHeaderEnd window with
  | some headerLength =>
    let head := stream.take headerLength
    match httpParseRequest head with
    | some request =>
      .request request (extractRequestLine head requestLineSize) head (stream.drop headerLength)
    | none => .bad (extractRequestLine head requestLineSize)
  | none => if stream = [] then .eof else .bad (extractRequestLine window requestLineSize)

/-- A call of `read_next_request` gives what the frame says and leaves the rest unread. -/
inductive Follows (r : ReadResult) : Frame → Prop where
  | request (ho : r.outcome = .request request requestLine head)
      (hu : r.state.unread = rest) (hf : .failed ∉ r.state.arrivals) :
      Follows r (.request request requestLine head rest)
  | eof (ho : r.outcome = .eof) : Follows r .eof
  | bad (ho : r.outcome = .bad) (hl : badRequestLine r.state.buffer = requestLine) :
      Follows r (.bad requestLine)

theorem Follows.of_events (h : Follows r f) : Follows { r with events := events } f := by
  cases h with
  | request ho hu hf => exact .request ho hu hf
  | eof ho => exact .eof ho
  | bad ho hl => exact .bad ho hl

theorem findHeaderEnd_append {buffer : Bytes} (t : Bytes) (h : findHeaderEnd buffer = some n) :
    findHeaderEnd (buffer ++ t) = some n := by
  obtain ⟨i, hi, rfl⟩ := Option.map_eq_some_iff.1 h
  have := firstOccurrence_append t (by decide) hi
  simp only [findHeaderEnd, this, Option.map_some]

theorem findHeaderEnd_take {buffer : Bytes} (h : findHeaderEnd buffer = some n) :
    findHeaderEnd (buffer.take n) = some n := by
  obtain ⟨i, hi, rfl⟩ := Option.map_eq_some_iff.1 h
  obtain ⟨u, v, he, hl⟩ := firstOccurrence_spec hi
  have ht : buffer.take (i + 4) = u ++ (crlf ++ crlf) := by
    rw [he]
    exact List.take_left' (by simp only [List.length_append, hl]; rfl)
  obtain ⟨j, hj⟩ := exists_firstOccurrence (List.suffix_append u (crlf ++ crlf)).isInfix
  have hne : crlf ++ crlf ≠ [] := by decide
  have hwhole := firstOccurrence_append v hne hj
  rw [← he, hi] at hwhole
  rw [ht, findHeaderEnd, hj, ← hwhole]
  rfl

theorem extractRequestLine_append {buffer : Bytes} (t : Bytes) (size : Nat)
    (h : firstOccurrence crlf buffer = some i) :
    extractRequestLine (buffer ++ t) size = extractRequestLine buffer size := by
  have hb := firstOccurrence_bound h
  have ha := firstOccurrence_append t (by decide) h
  simp only [extractRequestLine, ha, h, Option.getD_some]
  rw [List.take_append_of_le_length]
  split <;> omega

theorem exists_crlf_of_findHeaderEnd {buffer : Bytes} (h : findHeaderEnd buffer = some n) :
    ∃ i, firstOccurrence crlf (buffer.take n) = some i := by
  obtain ⟨j, hj, rfl⟩ := Option.map_eq_some_iff.1 h
  obtain ⟨u, v, he, hl⟩ := firstOccurrence_spec hj
  have ht : buffer.take (j + 4) = u ++ (crlf ++ crlf) := by
    rw [he]
    exact List.take_left' (by simp only [List.length_append, hl]; rfl)
  rw [ht]
  clear * -
  induction u with
  | nil => exact ⟨0, rfl⟩
  | cons c u ih =>
    obtain ⟨i, hi⟩ := ih
    by_cases hp : crlf <+: c :: (u ++ (crlf ++ crlf))
    · exact ⟨0, by rw [List.cons_append, firstOccurrence, if_pos hp]⟩
    · exact ⟨i + 1, by rw [List.cons_append, firstOccurrence, if_neg hp, hi]; rfl⟩

theorem badRequestLine_of_ne_nil {b : ReadBuffer} (h : b.contents ≠ []) :
    badRequestLine b = extractRequestLine b.contents requestLineSize := by
  have hpos : 0 < b.buffered := by
    rw [← b.contents_length]
    exact List.length_pos_iff.2 h
  rw [badRequestLine, if_pos hpos]

section Window

variable {b : ReadBuffer} {t : Bytes}

theorem window_eq (b : ReadBuffer) (t : Bytes) :
    (b.contents ++ t).take readBufferSize =
      b.contents ++ t.take (readBufferSize - b.buffered) := by
  have hl : b.contents.length ≤ readBufferSize := b.contents_length ▸ b.buffered_le
  rw [List.take_append, List.take_of_length_le hl, b.contents_length]

theorem take_of_findHeaderEnd (h : findHeaderEnd b.contents = some n) :
    (b.contents ++ t).take n = b.contents.take n :=
  List.take_append_of_le_length (findHeaderEnd_le h).2

theorem frame_of_accepted (hf : findHeaderEnd b.contents = some n)
    (hp : httpParseRequest (b.contents.take n) = some request) :
    frame (b.contents ++ t) = .request request
      (extractRequestLine (b.contents.take n) requestLineSize) (b.contents.take n)
      (b.contents.drop n ++ t) := by
  simp only [frame, window_eq, findHeaderEnd_append _ hf, take_of_findHeaderEnd hf, hp,
    List.drop_append_of_le_length (findHeaderEnd_le hf).2]

theorem frame_of_rejected (hf : findHeaderEnd b.contents = some n)
    (hp : httpParseRequest (b.contents.take n) = none) :
    frame (b.contents ++ t) = .bad (extractRequestLine b.contents requestLineSize) := by
  obtain ⟨i, hi⟩ := exists_crlf_of_findHeaderEnd hf
  have he := extractRequestLine_append (b.contents.drop n) requestLineSize hi
  rw [List.take_append_drop] at he
  simp only [frame, window_eq, findHeaderEnd_append _ hf, take_of_findHeaderEnd hf, hp, he]

theorem frame_of_full (hf : findHeaderEnd b.contents = none)
    (hl : b.contents.length = readBufferSize) :
    frame (b.contents ++ t) = .bad (extractRequestLine b.contents requestLineSize) := by
  have hne : b.contents ++ t ≠ [] := by
    intro he
    rw [(List.append_eq_nil_iff.1 he).1] at hl
    cases hl
  have hw : (b.contents ++ t).take readBufferSize = b.contents := List.take_left' hl
  simp only [frame, hw, hf, if_neg hne]

theorem frame_of_ended (hf : findHeaderEnd b.contents = none) :
    frame b.contents = if b.contents = [] then .eof
      else .bad (extractRequestLine b.contents requestLineSize) := by
  have hl : b.contents.length ≤ readBufferSize := b.contents_length ▸ b.buffered_le
  simp only [frame, List.take_of_length_le hl, hf]

end Window

theorem window_head (h : findHeaderEnd head = some head.length) (hl : head.length ≤ readBufferSize)
    (rest : Bytes) : findHeaderEnd ((head ++ rest).take readBufferSize) = some head.length := by
  rw [List.take_append, List.take_of_length_le hl]
  exact findHeaderEnd_append _ h

theorem frame_head (h : findHeaderEnd head = some head.length) (hl : head.length ≤ readBufferSize)
    (hp : httpParseRequest head = some request) (rest : Bytes) :
    frame (head ++ rest) =
      .request request (extractRequestLine head requestLineSize) head rest := by
  simp only [frame, window_head h hl, List.take_left, hp, List.drop_left]

theorem frame_refusedHead (h : findHeaderEnd head = some head.length)
    (hl : head.length ≤ readBufferSize) (hp : httpParseRequest head = none) (rest : Bytes) :
    ∃ requestLine, frame (head ++ rest) = .bad requestLine := by
  simp only [frame, window_head h hl, List.take_left, hp]
  exact ⟨_, rfl⟩

theorem frame_longHead (h : findHeaderEnd head = some head.length)
    (hl : readBufferSize < head.length) (rest : Bytes) :
    ∃ requestLine, frame (head ++ rest) = .bad requestLine := by
  have hwindow : findHeaderEnd ((head ++ rest).take readBufferSize) = none := by
    cases hf : findHeaderEnd ((head ++ rest).take readBufferSize) with
    | none => rfl
    | some n =>
      have hn := (findHeaderEnd_le hf).2
      have hall := findHeaderEnd_append (head.drop readBufferSize) hf
      rw [List.take_append_of_le_length (Nat.le_of_lt hl), List.take_append_drop, h] at hall
      cases hall
      rw [List.length_take] at hn
      omega
  have hne : head ++ rest ≠ [] := by
    intro he
    rw [(List.append_eq_nil_iff.1 he).1] at hl
    cases hl
  simp only [frame, hwindow, if_neg hne]
  exact ⟨_, rfl⟩

/-- Every call of `read_next_request` answers what the unread bytes say, however they arrive. -/
theorem readNextRequest_follows (s : ReadState) (hs : .failed ∉ s.arrivals) :
    Follows (readNextRequest s) (frame s.unread) := by
  induction hn : pending s.arrivals using Nat.strongRecOn generalizing s with
  | ind n ih =>
    subst hn
    have hc := readRound_cases s
    have hd := @readRound_pending s
    rw [readNextRequest_eq]
    revert hc hd
    generalize readRound s = r
    intro hc hd
    cases hc with
    | rejected hf hp =>
      rw [ReadState.unread, frame_of_rejected hf hp]
      refine .bad rfl (badRequestLine_of_ne_nil ?_)
      intro he
      rw [he] at hf
      cases hf
    | accepted hf hp hb =>
      rw [ReadState.unread, frame_of_accepted hf hp]
      refine .request rfl ?_ hs
      rw [ReadState.unread, hb]
    | full hf hl =>
      rw [ReadState.unread, frame_of_full hf hl]
      refine .bad rfl (badRequestLine_of_ne_nil ?_)
      intro he
      rw [he] at hl
      cases hl
    | @interrupted arrivals hf ha =>
      have hu : s.unread = ReadState.unread ⟨s.buffer, arrivals⟩ := by
        rw [ReadState.unread, ha]
        rfl
      rw [ha] at hs
      rw [hu]
      exact (ih _ (hd rfl) _ (fun h => hs (List.mem_cons_of_mem _ h)) rfl).of_events
    | failed hf ha =>
      rw [ha] at hs
      exact absurd List.mem_cons_self hs
    | ended hf ha =>
      have hu : s.unread = s.buffer.contents := by
        rw [ReadState.unread, ha]
        exact List.append_nil _
      rw [hu, frame_of_ended hf]
      by_cases he : s.buffer.contents = []
      · simp only [if_pos he]
        exact .eof rfl
      · simp only [if_neg he]
        exact .bad rfl (badRequestLine_of_ne_nil he)
    | @more chunk arrivals b hf hne hb hstream hp hi =>
      have hu : s.unread = ReadState.unread ⟨b, arrivals⟩ := by
        rw [ReadState.unread, ReadState.unread, hb, List.append_assoc, hstream]
      rw [hu]
      exact (ih _ (hd rfl) _ (fun h => hs (hi _ h rfl)) rfl).of_events

def ReadStep (s : ReadState) (r : ReadRound) (t : ReadState) : Prop := r = readRound s ∧ t = r.state

def SocketEvent.receivedBytes : SocketEvent → Bytes
  | .received chunk => chunk
  | _ => []

def ReadOutcome.consumedBytes : ReadOutcome → Bytes
  | .request _ _ head => head
  | _ => []

def receivedBytes (rounds : List ReadRound) : Bytes :=
  rounds.flatMap fun r => r.events.flatMap SocketEvent.receivedBytes

def consumedBytes (rounds : List ReadRound) : Bytes :=
  rounds.flatMap fun r => r.outcome.toList.flatMap ReadOutcome.consumedBytes

theorem receivedBytes_cons (r : ReadRound) (rounds : List ReadRound) :
    receivedBytes (r :: rounds) = receivedBytes [r] ++ receivedBytes rounds := by
  simp only [receivedBytes, List.flatMap_cons, List.flatMap_nil, List.append_nil]

theorem consumedBytes_cons (r : ReadRound) (rounds : List ReadRound) :
    consumedBytes (r :: rounds) = consumedBytes [r] ++ consumedBytes rounds := by
  simp only [consumedBytes, List.flatMap_cons, List.flatMap_nil, List.append_nil]

/-- One pass loses no byte, duplicates none and keeps their order. -/
theorem readRound_accounts (s : ReadState) :
    receivedBytes [readRound s] ++ streamOf (readRound s).state.arrivals = streamOf s.arrivals ∧
      consumedBytes [readRound s] ++ (readRound s).state.buffer.contents =
        s.buffer.contents ++ receivedBytes [readRound s] := by
  have hc := readRound_cases s
  revert hc
  generalize readRound s = r
  intro hc
  cases hc with
  | rejected _ _ => exact ⟨rfl, (List.append_nil _).symm⟩
  | accepted _ _ hb =>
    refine ⟨rfl, ?_⟩
    simp only [consumedBytes, receivedBytes, List.flatMap_cons, List.flatMap_nil,
      Option.toList_some, ReadOutcome.consumedBytes, List.append_nil, hb, List.take_append_drop]
  | full _ _ => exact ⟨rfl, (List.append_nil _).symm⟩
  | interrupted _ ha => exact ⟨by rw [ha]; rfl, (List.append_nil _).symm⟩
  | failed _ ha => exact ⟨by rw [ha]; rfl, (List.append_nil _).symm⟩
  | ended _ ha =>
    refine ⟨rfl, ?_⟩
    by_cases he : s.buffer.contents = []
    · rw [if_pos he]
      exact (List.append_nil _).symm
    · rw [if_neg he]
      exact (List.append_nil _).symm
  | more _ _ hb hs _ _ =>
    simp only [receivedBytes, consumedBytes, List.flatMap_cons, List.flatMap_nil,
      SocketEvent.receivedBytes, Option.toList_none, List.append_nil, List.nil_append]
    exact ⟨hs, hb⟩

theorem readRun_accounts (h : Run ReadStep s rounds t) :
    receivedBytes rounds ++ streamOf t.arrivals = streamOf s.arrivals ∧
      consumedBytes rounds ++ t.buffer.contents = s.buffer.contents ++ receivedBytes rounds := by
  induction h with
  | nil s => exact ⟨rfl, (List.append_nil _).symm⟩
  | @cons s r t rounds u hs _ ih =>
    obtain ⟨rfl, rfl⟩ := hs
    obtain ⟨hr, hc⟩ := readRound_accounts s
    obtain ⟨hr', hc'⟩ := ih
    rw [receivedBytes_cons, consumedBytes_cons]
    constructor
    · rw [List.append_assoc, hr', hr]
    · rw [List.append_assoc, hc', ← List.append_assoc, hc, List.append_assoc]

theorem readNextRequest_run (s : ReadState) :
    ∃ rounds t, Run ReadStep s rounds t ∧ consumedBytes rounds = [] ∧
      (readRound t).outcome = some (readNextRequest s).outcome ∧
      (readRound t).state = (readNextRequest s).state ∧
      rounds.flatMap ReadRound.events ++ (readRound t).events = (readNextRequest s).events := by
  induction hn : pending s.arrivals using Nat.strongRecOn generalizing s with
  | ind n ih =>
    subst hn
    rw [readNextRequest_eq]
    cases ho : (readRound s).outcome with
    | some outcome => exact ⟨[], s, .nil s, rfl, ho, rfl, rfl⟩
    | none =>
      obtain ⟨rounds, t, hr, hc, ht, hs, he⟩ := ih _ (readRound_pending ho) (readRound s).state rfl
      refine ⟨readRound s :: rounds, t, .cons ⟨rfl, rfl⟩ hr, ?_, ht, hs, ?_⟩
      · rw [consumedBytes_cons, hc]
        simp only [consumedBytes, List.flatMap_cons, List.flatMap_nil, ho, Option.toList_none,
          List.append_nil]
      · rw [List.flatMap_cons, List.append_assoc, he]

theorem readNextRequest_unread (s : ReadState) :
    (readNextRequest s).outcome.consumedBytes ++ (readNextRequest s).state.unread = s.unread := by
  obtain ⟨rounds, t, hr, hc, ho, ht, _⟩ := readNextRequest_run s
  have hall := hr.append (.single (show ReadStep t (readRound t) _ from ⟨rfl, rfl⟩))
  have hlast : consumedBytes (rounds ++ [readRound t]) =
      (readNextRequest s).outcome.consumedBytes := by
    rw [consumedBytes, List.flatMap_append]
    change consumedBytes rounds ++ consumedBytes [readRound t] = _
    rw [hc, List.nil_append]
    simp only [consumedBytes, ho, List.flatMap_cons, List.flatMap_nil, Option.toList_some,
      List.append_nil]
  obtain ⟨hs, hb⟩ := readRun_accounts hall
  rw [ReadState.unread, ReadState.unread, ← ht, ← hlast, ← List.append_assoc, hb,
    List.append_assoc, hs]

theorem readNextRequest_head {s : ReadState}
    (h : (readNextRequest s).outcome = .request request requestLine head) :
    4 ≤ head.length ∧ httpParseRequest head = some request ∧
      requestLine = extractRequestLine head requestLineSize := by
  obtain ⟨_, t, _, _, ho, _, _⟩ := readNextRequest_run s
  have hc := readRound_cases t
  rw [h] at ho
  revert hc ho
  generalize readRound t = r
  intro ho hc
  cases hc with
  | accepted hf hp hb =>
    cases ho
    have hl := findHeaderEnd_le hf
    refine ⟨?_, hp, rfl⟩
    rw [List.length_take, Nat.min_eq_left hl.2]
    exact hl.1
  | ended hf ha =>
    split at ho
    · cases ho
    · cases ho
  | _ => cases ho

theorem readNextRequest_ends {s : ReadState}
    (h : (readNextRequest s).outcome = .request request requestLine head) :
    findHeaderEnd head = some head.length := by
  obtain ⟨_, t, _, _, ho, _, _⟩ := readNextRequest_run s
  have hc := readRound_cases t
  rw [h] at ho
  revert hc ho
  generalize readRound t = r
  intro ho hc
  cases hc with
  | accepted hf hp hb =>
    cases ho
    rw [findHeaderEnd_take hf, List.length_take, Nat.min_eq_left (findHeaderEnd_le hf).2]
  | ended hf ha =>
    split at ho
    · cases ho
    · cases ho
  | _ => cases ho

theorem readNextRequest_shortens {s : ReadState}
    (h : (readNextRequest s).outcome = .request request requestLine head) :
    head ++ (readNextRequest s).state.unread = s.unread ∧
      (readNextRequest s).state.unread.length < s.unread.length := by
  have hu := readNextRequest_unread s
  have hl := (readNextRequest_head h).1
  rw [h, ReadOutcome.consumedBytes] at hu
  refine ⟨hu, ?_⟩
  rw [← hu, List.length_append]
  omega

def ReadState.initial (arrivals : List Arrival) : ReadState := ⟨.empty, arrivals⟩

theorem ReadState.unread_initial (arrivals : List Arrival) :
    (ReadState.initial arrivals).unread = streamOf arrivals := rfl

end Httpd
