import Httpd.Answers

namespace Httpd
open Scan
set_option autoImplicit true

/-- A run only sends, and puts these bytes on the wire: all if it succeeds, else not all. -/
structure SendRun.Sends (run : SendRun) (bytes : Bytes) : Prop where
  sends : ∀ e ∈ run.events, e.isSend = true
  full : run.ok = true → wire run.events = bytes
  cut : run.ok = false → ∃ c rest, wire run.events ++ c :: rest = bytes

theorem wire_append (events later : List SocketEvent) :
    wire (events ++ later) = wire events ++ wire later := List.flatMap_append

theorem SendRun.sends_done (outcomes : List SendOutcome) : (SendRun.done outcomes).Sends [] :=
  ⟨nofun, fun _ => rfl, nofun⟩

theorem SendRun.sends_refused (outcomes : List SendOutcome) (h : bytes ≠ []) :
    (SendRun.refused outcomes).Sends bytes := by
  refine ⟨nofun, nofun, fun _ => ?_⟩
  cases bytes with
  | nil => exact absurd rfl h
  | cons c rest => exact ⟨c, rest, rfl⟩

theorem SendRun.Sends.andThen {first : SendRun} (h : first.Sends bytes)
    (hn : ∀ rest, (next rest).Sends later) : (first.andThen next).Sends (bytes ++ later) := by
  unfold SendRun.andThen
  cases ho : first.ok with
  | true =>
    simp only [↓reduceIte]
    have hf := h.full ho
    constructor
    · intro e he
      exact (List.mem_append.1 he).elim (h.sends e) ((hn _).sends e)
    · intro hok
      rw [wire_append, hf, (hn _).full hok]
    · intro hok
      obtain ⟨c, rest, hc⟩ := (hn _).cut hok
      exact ⟨c, rest, by rw [wire_append, hf, List.append_assoc, hc]⟩
  | false =>
    rw [if_neg Bool.false_ne_true]
    refine ⟨h.sends, fun hok => ?_, fun hok => ?_⟩
    · rw [ho] at hok
      cases hok
    · obtain ⟨c, rest, hc⟩ := h.cut ho
      exact ⟨c, rest ++ later, by rw [← hc, List.append_assoc, List.cons_append]⟩

theorem SendRun.Sends.cons_event {run : SendRun} (h : run.Sends bytes) (event : SocketEvent)
    (he : event.isSend = true) :
    SendRun.Sends { run with events := event :: run.events } (event.sentBytes ++ bytes) := by
  constructor
  · exact List.forall_mem_cons.2 ⟨he, h.sends⟩
  · intro hok
    change event.sentBytes ++ wire run.events = _
    rw [h.full hok]
  · intro hok
    obtain ⟨c, rest, hc⟩ := h.cut hok
    refine ⟨c, rest, ?_⟩
    change event.sentBytes ++ wire run.events ++ c :: rest = _
    rw [List.append_assoc, hc]

theorem sendAll_sends (outcomes : List SendOutcome) (data : Bytes) :
    (sendAll outcomes data).Sends data := by
  induction outcomes generalizing data with
  | nil =>
    rw [sendAll]
    by_cases hd : data = []
    · rw [if_pos hd, hd]
      exact SendRun.sends_done _
    · rw [if_neg hd]
      exact ⟨List.forall_mem_singleton.2 rfl, fun _ => List.append_nil _, nofun⟩
  | cons outcome outcomes ih =>
    rw [sendAll.eq_def]
    by_cases hd : data = []
    · simp only [hd]
      exact SendRun.sends_done _
    simp only [if_neg hd]
    have hstop : ∀ event, SocketEvent.isSend event = true → event.sentBytes = [] →
        SendRun.Sends ⟨[event], false, outcomes⟩ data := by
      intro event hs he
      refine ⟨List.forall_mem_singleton.2 hs, nofun, fun _ => ?_⟩
      obtain ⟨c, rest, rfl⟩ := List.exists_cons_of_ne_nil hd
      exact ⟨c, rest, by simp only [wire, List.flatMap_cons, List.flatMap_nil, he]; rfl⟩
    cases outcome with
    | took extra =>
      have h := (ih (data.drop (extra + 1))).cons_event (.sent (data.take (extra + 1))) rfl
      rw [SocketEvent.sentBytes, List.take_append_drop] at h
      exact h
    | interrupted => exact (ih data).cons_event .sendInterrupted rfl
    | zero => exact hstop _ rfl rfl
    | failed => exact hstop _ rfl rfl
    | broken => exact hstop _ rfl rfl

theorem sendHeaders_sends {text : Bytes} (h : text ≠ []) (outcomes : List SendOutcome) :
    (sendHeaders text outcomes).Sends text := by
  rw [sendHeaders]
  simp only
  by_cases hfit : (snprintf responseBufferSize text).1 < 0 ∨
      (snprintf responseBufferSize text).1 ≥ responseBufferSize
  · rw [if_pos hfit]
    exact SendRun.sends_refused outcomes h
  · rw [if_neg hfit]
    obtain ⟨h₀, hlt⟩ := not_or.1 hfit
    have hf := snprintf_fits (Int.not_lt.1 h₀) (Int.not_le.1 hlt)
    have hlen := snprintf_toNat (Int.not_lt.1 h₀)
    rw [hf.1, hlen, List.take_length]
    exact sendAll_sends outcomes text

theorem fread_chunk (want : Nat) (file : Bytes) (freads : List Nat) :
    (fread want file freads).1 ++ (fread want file freads).2.1 = file ∧
      (fread want file freads).1.length ≤ want ∧
      (0 < want → (fread want file freads).1 = [] → file = []) := by
  simp only [fread, List.take_append_drop, true_and, List.length_take, List.take_eq_nil_iff]
  cases freads with
  | nil => exact ⟨Nat.min_le_left _ _, fun hw h => h.resolve_left (Nat.ne_of_gt hw)⟩
  | cons extra freads =>
    simp only
    refine ⟨by omega, fun hw h => h.resolve_left ?_⟩
    omega

theorem want_bounds (h : remaining ≠ 0) :
    0 < (if remaining < readBufferSize then remaining else readBufferSize) ∧
      (if remaining < readBufferSize then remaining else readBufferSize) ≤ remaining := by
  by_cases hlt : remaining < readBufferSize
  · rw [if_pos hlt]
    exact ⟨Nat.pos_of_ne_zero h, Nat.le_refl _⟩
  · rw [if_neg hlt]
    exact ⟨by decide, Nat.le_of_not_lt hlt⟩

theorem sendFileLoop_sends {remaining : Nat} (hfuel : remaining ≤ fuel) (file tail : Bytes)
    (hlen : remaining ≤ (file ++ tail).length) (freads : List Nat) (outcomes : List SendOutcome) :
    (sendFileLoop fuel remaining file freads outcomes).Sends ((file ++ tail).take remaining) := by
  induction fuel generalizing remaining file freads outcomes with
  | zero =>
    have h₀ : remaining = 0 := Nat.le_zero.1 hfuel
    subst h₀
    exact SendRun.sends_done outcomes
  | succ fuel ih =>
    rw [sendFileLoop]
    by_cases h₀ : remaining = 0
    · rw [if_pos h₀, h₀]
      exact SendRun.sends_done outcomes
    have hw := want_bounds h₀
    simp only [if_neg h₀]
    generalize (if remaining < readBufferSize then remaining else readBufferSize) = want at hw ⊢
    obtain ⟨hfile, hchunk, _⟩ := fread_chunk want file freads
    generalize fread want file freads = piece at hfile hchunk ⊢
    obtain ⟨buffer, later, freads'⟩ := piece
    simp only at hfile hchunk ⊢
    by_cases hb : buffer = []
    · rw [if_pos hb]
      apply SendRun.sends_refused
      intro he
      have := congrArg List.length he
      rw [List.length_take, Nat.min_eq_left hlen] at this
      exact h₀ this
    · rw [if_neg hb]
      have hpos := List.length_pos_iff.2 hb
      have hsplit : (file ++ tail).take remaining =
          buffer ++ (later ++ tail).take (remaining - buffer.length) := by
        rw [← hfile, List.append_assoc, List.take_append,
          List.take_of_length_le (Nat.le_trans hchunk hw.2)]
      rw [hsplit]
      rw [← hfile] at hlen
      simp only [List.length_append] at hlen
      refine (sendAll_sends outcomes buffer).andThen fun rest => ih ?_ later ?_ freads' rest
      · omega
      · simp only [List.length_append]
        omega

def messageField (name message : Bytes) : Option Bytes :=
  (findHeaderEnd message).bind fun headLength => headerField name (message.take headLength)

/-- A whole response: a head, and behind it as many bytes as the head announces. -/
structure IsResponse (headOnly : Bool) (message : Bytes) : Prop where
  version : ascii "HTTP/1." <+: message
  framed : ∃ headLength n, findHeaderEnd message = some headLength ∧
    messageField (ascii "Content-Length") message = some (decimal n) ∧
    message.length = headLength + if headOnly then 0 else n

/-- A reply sends one response, whole or cut short, that announces the fate of the connection. -/
def Reply.Answers (reply : Reply) (headOnly keepAlive : Bool) : Prop :=
  ∃ message, reply.run.Sends message ∧ IsResponse headOnly message ∧
    messageField (ascii "Connection") message = some (connectionText keepAlive)

theorem cr_notMem_decimal (n : Nat) : cr ∉ decimal n := by
  intro h
  exact absurd (decimal_digits h).1 (by decide)

theorem cr_notMem_statusText (status : Nat) : cr ∉ httpStatusText status := by
  unfold httpStatusText
  split <;> decide

theorem cr_notMem_connectionText (keepAlive : Bool) : cr ∉ connectionText keepAlive := by
  cases keepAlive <;> decide

theorem responseVersion_eq (request : Option HttpRequest) :
    ∃ minor, responseVersion request = ascii "HTTP/1." ++ [minor] ∧ minor ≠ cr := by
  unfold responseVersion
  split
  · split
    · exact ⟨48, by decide, by decide⟩
    · exact ⟨49, by decide, by decide⟩
  · exact ⟨49, by decide, by decide⟩

section Framing

variable {request : Option HttpRequest} {reason body : Bytes} {fields : List (Bytes × Bytes)}

theorem statusLine_clean (hr : cr ∉ reason) :
    CleanLine (responseVersion request ++ 32 :: decimal status ++ 32 :: reason) := by
  obtain ⟨minor, hv, hm⟩ := responseVersion_eq request
  have hver : cr ∉ responseVersion request := by
    rw [hv, List.mem_append, List.mem_singleton, not_or]
    exact ⟨by decide, hm.symm⟩
  constructor
  · intro he
    exact List.cons_ne_nil _ _ (List.append_eq_nil_iff.1 he).2
  · simp only [List.mem_append, List.mem_cons, not_or]
    exact ⟨⟨hver, by decide, cr_notMem_decimal status⟩, by decide, hr⟩

theorem fieldLine_clean {field : Bytes × Bytes} (hf : CleanField field) :
    CleanLine (fieldLine field) := by
  refine ⟨fun he => ?_, fieldLine_notMem hf⟩
  rw [fieldLine, List.append_eq_nil_iff, List.append_eq_nil_iff] at he
  exact List.cons_ne_nil _ _ he.1.2

theorem findHeaderEnd_headerText (hr : cr ∉ reason) (hf : ∀ f ∈ fields, CleanField f)
    (body : Bytes) :
    findHeaderEnd (headerText request status reason fields ++ body) =
      some (headerText request status reason fields).length := by
  apply findHeaderEnd_headText (statusLine_clean hr)
  intro line hl
  obtain ⟨field, hm, rfl⟩ := List.mem_map.1 hl
  exact fieldLine_clean (hf field hm)

theorem messageField_headerText (hr : cr ∉ reason) (hf : ∀ f ∈ fields, CleanField f)
    (hn : 58 ∉ name) (h : fields.lookup name = some value) (body : Bytes) :
    messageField name (headerText request status reason fields ++ body) = some value := by
  rw [messageField, findHeaderEnd_headerText hr hf, Option.bind_some, List.take_left]
  have hline : CleanLine (responseVersion request ++ 32 :: decimal status ++ 32 :: reason) :=
    statusLine_clean hr
  have hfield := headerField_headText hline.2 hn hf h []
  rwa [List.append_nil] at hfield

theorem headerText_ne_nil (request : Option HttpRequest) (status : Nat) (reason : Bytes)
    (fields : List (Bytes × Bytes)) : headerText request status reason fields ≠ [] := by
  intro he
  rw [headerText, headText, List.append_eq_nil_iff] at he
  exact List.cons_ne_nil _ _ he.2

theorem isResponse_headerText (hr : cr ∉ reason) (hf : ∀ f ∈ fields, CleanField f)
    (hl : fields.lookup (ascii "Content-Length") = some (decimal n))
    (hb : body.length = if headOnly then 0 else n) :
    IsResponse headOnly (headerText request status reason fields ++ body) := by
  constructor
  · obtain ⟨minor, hv, _⟩ := responseVersion_eq request
    rw [headerText, headText_cons, hv]
    simp only [List.append_assoc]
    exact List.prefix_append _ _
  · exact ⟨_, n, findHeaderEnd_headerText hr hf body,
      messageField_headerText hr hf (by decide) hl body, by rw [List.length_append, hb]⟩

end Framing

def PlainValue (value : Bytes) : Prop := cr ∉ value ∧ value.length ≤ 128

def PlainField (field : Bytes × Bytes) : Prop :=
  (cr ∉ field.1 ∧ 58 ∉ field.1 ∧ field.1.length ≤ 20) ∧ PlainValue field.2

instance : DecidablePred PlainValue :=
  fun value => inferInstanceAs (Decidable (cr ∉ value ∧ value.length ≤ 128))

instance : DecidablePred PlainField :=
  fun field => inferInstanceAs (Decidable (_ ∧ PlainValue field.2))

theorem plainField {name value : Bytes} (hn : cr ∉ name ∧ 58 ∉ name ∧ name.length ≤ 20)
    (hv : PlainValue value) : PlainField (name, value) := ⟨hn, hv⟩

theorem PlainField.clean {field : Bytes × Bytes} (h : PlainField field) : CleanField field :=
  ⟨h.1.1, h.1.2.1, h.2.1⟩

theorem plainValue_decimal {n : Nat} (h : n < 2 ^ 64) : PlainValue (decimal n) := by
  have hlen : (decimal n).length ≤ 20 := decimal_length (by decide) (Nat.lt_trans h (by decide))
  exact ⟨cr_notMem_decimal n, Nat.le_trans hlen (by decide)⟩

theorem plainValue_connectionText (keepAlive : Bool) : PlainValue (connectionText keepAlive) := by
  refine ⟨cr_notMem_connectionText keepAlive, ?_⟩
  cases keepAlive <;> decide

/-- The head of an answer is written from a status and short fields, and it announces the length
of the body that belongs to it and the fate of the connection. -/
structure Answer.Announces (answer : Answer) (keepAlive : Bool) (request : Option HttpRequest)
    (reason : Bytes) (fields : List (Bytes × Bytes)) : Prop where
  head : answer.head = headerText request answer.status reason fields
  status : answer.status < 1000
  reason : cr ∉ reason ∧ reason.length ≤ 100
  plain : ∀ f ∈ fields, PlainField f
  few : fields.length ≤ 8
  size : answer.body.size < 2 ^ 64
  contentLength : fields.lookup (ascii "Content-Length") = some (decimal answer.body.size)
  connection : fields.lookup (ascii "Connection") = some (connectionText keepAlive)

def Answer.Sound (answer : Answer) (keepAlive : Bool) : Prop :=
  ∃ request reason fields, answer.Announces keepAlive request reason fields

theorem statusText_plain (status : Nat) :
    cr ∉ httpStatusText status ∧ (httpStatusText status).length ≤ 100 := by
  refine ⟨cr_notMem_statusText status, ?_⟩
  unfold httpStatusText
  split <;> decide

theorem simpleAnswer_sound (request : Option HttpRequest) (hs : status < 1000)
    (hb : body.length < 2 ^ 64) (keepAlive : Bool) :
    (simpleAnswer request status body keepAlive).Sound keepAlive := by
  exact ⟨request, httpStatusText status, _, {
    head := rfl
    status := hs
    size := hb
    reason := statusText_plain status
    plain := by
      simp only [List.forall_mem_cons, List.not_mem_nil, false_imp_iff, implies_true, and_true]
      exact ⟨by decide, plainField (by decide) (plainValue_decimal hb),
        plainField (by decide) (plainValue_connectionText keepAlive)⟩
    few := Nat.le_of_ble_eq_true rfl
    contentLength := rfl
    connection := rfl }⟩

theorem rangeNotSatisfiableAnswer_announces (request : HttpRequest) (fileSize : UInt64)
    (keepAlive : Bool) :
    (rangeNotSatisfiableAnswer request fileSize keepAlive).Announces keepAlive (some request)
      (httpStatusText 416) (unsatisfiedFields fileSize keepAlive) := by
  have hsize : PlainValue (ascii "bytes */" ++ decimal fileSize.toNat) := by
    have hlen := decimal_length (k := 20) (by decide)
      (Nat.lt_trans fileSize.toNat_lt (by decide : 2 ^ 64 < 10 ^ 20))
    constructor
    · rw [List.mem_append, not_or]
      exact ⟨by decide, cr_notMem_decimal _⟩
    · rw [List.length_append]
      change 8 + _ ≤ _
      omega
  exact {
    head := rfl
    status := (by decide : 416 < 1000)
    size := (by decide : (ascii "Range Not Satisfiable\n").length < 2 ^ 64)
    reason := statusText_plain 416
    plain := by
      simp only [unsatisfiedFields, List.forall_mem_cons, List.not_mem_nil, false_imp_iff,
        implies_true, and_true]
      exact ⟨by decide, plainField (by decide) (plainValue_decimal (by decide)),
        plainField (by decide) hsize,
        plainField (by decide) (plainValue_connectionText keepAlive)⟩
    few := Nat.le_of_ble_eq_true rfl
    contentLength := rfl
    connection := rfl }

def fileFallsBack (os : Os) (request : HttpRequest) (info : FileInfo) : Bool :=
  match os.fopen info.resolvedPath, resolveRange request info.size with
  | none, _ => true
  | some _, none => false
  | some _, some range => range.isPartial && !os.fseeko range.start

def directoryFallsBack (os : Os) (request : HttpRequest) (info : FileInfo) : Bool :=
  (fileBuildDirectoryListing 64 os request.path.str info.resolvedPath).1.isNone

theorem toNat_pred {n : UInt64} (h : n ≠ 0) : (n - 1).toNat = n.toNat - 1 ∧ 0 < n.toNat := by
  have hpos : 0 < n.toNat := Nat.pos_of_ne_zero fun h₀ => h (UInt64.toNat_inj.1 h₀)
  exact ⟨UInt64.toNat_sub_of_le n 1 (UInt64.le_iff_toNat_le.2 hpos), hpos⟩

theorem resolveRange_cases (h : resolveRange request fileSize = some range) :
    range.isPartial = false ∧ range.length = fileSize ∨
      range.isPartial = true ∧ range.start.toNat ≤ range.last.toNat + 1 ∧
        range.last.toNat < fileSize.toNat ∧ range.length = range.last - range.start + 1 := by
  unfold resolveRange at h
  split at h
  · cases h
    exact .inl ⟨rfl, rfl⟩
  split at h
  · cases h
  rename_i hsize
  obtain ⟨hlast, hpos⟩ := toNat_pred hsize
  split at h
  · cases h
    refine .inr ⟨rfl, ?_, by simp only [hlast]; omega, rfl⟩
    simp only [hlast]
    split
    · exact Nat.zero_le _
    · rw [UInt64.toNat_sub_of_le _ _ (UInt64.le_of_lt (UInt64.not_le.1 ‹_›))]
      omega
  split at h
  · cases h
  rename_i hstart
  simp only at h
  generalize (if request.rangeEndProvided then request.rangeEnd else fileSize - 1) = last at h
  split at h
  · cases h
  rename_i horder
  cases h
  have hle := UInt64.le_iff_toNat_le.1 (UInt64.not_lt.1 horder)
  have hlt := UInt64.lt_iff_toNat_lt.1 (UInt64.not_le.1 hstart)
  refine .inr ⟨rfl, ?_, ?_, rfl⟩
  · simp only
    split
    · rw [hlast]
      omega
    · omega
  · simp only
    split
    · rw [hlast]
      omega
    · exact UInt64.lt_iff_toNat_lt.1 (UInt64.not_le.1 ‹_›)

theorem plainValue_contentRange (start last size : UInt64) :
    PlainValue (ascii "bytes " ++ decimal start.toNat ++ 45 :: decimal last.toNat ++
      47 :: decimal size.toNat) := by
  have hlen : ∀ n : UInt64, (decimal n.toNat).length ≤ 20 := fun n =>
    decimal_length (by decide) (Nat.lt_trans n.toNat_lt (by decide))
  have hs := hlen start
  have hl := hlen last
  have hz := hlen size
  constructor
  · simp only [List.mem_append, List.mem_cons, not_or]
    exact ⟨⟨⟨by decide, cr_notMem_decimal _⟩, by decide, cr_notMem_decimal _⟩, by decide,
      cr_notMem_decimal _⟩
  · simp only [List.length_append, List.length_cons]
    change 6 + _ + _ + _ ≤ _
    omega

theorem rangeAnswer_announces (os : Os) {request : HttpRequest} {info : FileInfo}
    (hm : PlainValue info.mimeType) (hr : resolveRange request info.size = some range)
    (keepAlive : Bool) (file : Bytes) :
    ∃ reason, (rangeAnswer os request info keepAlive file range).Announces keepAlive (some request)
      reason (fileFields info range keepAlive) := by
  cases hp : range.isPartial with
  | true =>
    refine ⟨httpStatusText 206, ?_⟩
    simp only [rangeAnswer, fileFields, hp, if_true]
    exact {
      head := rfl
      status := (by decide : 206 < 1000)
      size := range.length.toNat_lt
      reason := statusText_plain 206
      plain := by
        simp only [List.forall_mem_cons, List.not_mem_nil, false_imp_iff, implies_true, and_true]
        exact ⟨plainField (by decide) hm,
          plainField (by decide) (plainValue_decimal range.length.toNat_lt),
          plainField (by decide) (plainValue_contentRange range.start range.last info.size),
          by decide,
          plainField (by decide) (plainValue_connectionText keepAlive)⟩
      few := Nat.le_of_ble_eq_true rfl
      contentLength := rfl
      connection := rfl }
  | false =>
    have hl : range.length = info.size := by
      rcases resolveRange_cases hr with ⟨_, hl⟩ | ⟨hp', _⟩
      · exact hl
      · rw [hp] at hp'
        cases hp'
    refine ⟨ascii "OK", ?_⟩
    simp only [rangeAnswer, fileFields, hp, Bool.false_eq_true, if_false, ← hl]
    exact {
      head := rfl
      status := (by decide : 200 < 1000)
      size := range.length.toNat_lt
      reason := ⟨by decide, by decide⟩
      plain := by
        simp only [List.forall_mem_cons, List.not_mem_nil, false_imp_iff, implies_true, and_true]
        exact ⟨plainField (by decide) hm,
          plainField (by decide) (plainValue_decimal range.length.toNat_lt), by decide,
          plainField (by decide) (plainValue_connectionText keepAlive)⟩
      few := Nat.le_of_ble_eq_true rfl
      contentLength := rfl
      connection := rfl }

theorem fileAnswer_sound (os : Os) (request : HttpRequest) (info : FileInfo)
    (hm : PlainValue info.mimeType) (keepAlive : Bool) :
    (fileAnswer os request info keepAlive).Sound (keepAlive && !fileFallsBack os request info) := by
  unfold fileAnswer fileFallsBack
  cases os.fopen info.resolvedPath with
  | none =>
    simp only [Bool.not_true, Bool.and_false]
    exact simpleAnswer_sound _ (by decide) (by decide) false
  | some file =>
    cases hr : resolveRange request info.size with
    | none =>
      simp only [Bool.not_false, Bool.and_true]
      exact ⟨_, _, _, rangeNotSatisfiableAnswer_announces request info.size keepAlive⟩
    | some range =>
      simp only
      by_cases hseek : range.isPartial = true ∧ (!os.fseeko range.start) = true
      · rw [if_pos hseek, Bool.and_eq_true_iff.2 hseek, Bool.not_true, Bool.and_false]
        exact simpleAnswer_sound _ (by decide) (by decide) false
      · have hsought : (range.isPartial && !os.fseeko range.start) = false :=
          Bool.not_eq_true _ ▸ fun hand => hseek (Bool.and_eq_true_iff.1 hand)
        rw [if_neg hseek, hsought, Bool.not_false, Bool.and_true]
        obtain ⟨reason, ha⟩ := rangeAnswer_announces os hm hr keepAlive file
        exact ⟨_, _, _, ha⟩

theorem directoryAnswer_sound (os : Os) (request : HttpRequest) (info : FileInfo)
    (keepAlive : Bool) :
    (directoryAnswer os request info keepAlive).Sound
      (keepAlive && !directoryFallsBack os request info) := by
  unfold directoryAnswer directoryFallsBack
  cases hbody : (fileBuildDirectoryListing 64 os request.path.str info.resolvedPath).1 with
  | none =>
    simp only [Option.isNone_none, Bool.not_true, Bool.and_false]
    exact simpleAnswer_sound _ (by decide) (by decide) false
  | some body =>
    have hlen := fileBuildDirectoryListing_length (by decide) hbody
    simp only [Option.isNone_some, Bool.not_false, Bool.and_true]
    exact ⟨some request, ascii "OK", _, {
      head := rfl
      status := (by decide : 200 < 1000)
      size := hlen
      reason := ⟨by decide, by decide⟩
      plain := by
        simp only [List.forall_mem_cons, List.not_mem_nil, false_imp_iff, implies_true, and_true]
        exact ⟨by decide, plainField (by decide) (plainValue_decimal hlen),
          plainField (by decide) (plainValue_connectionText keepAlive)⟩
      few := Nat.le_of_ble_eq_true rfl
      contentLength := rfl
      connection := rfl }⟩

def fallsBack (os : Os) (docRoot : Bytes) (request : HttpRequest) : Bool :=
  request.method ≠ .unsupported &&
    match fileStatPath os docRoot request.path.str with
    | .error _ => false
    | .ok info =>
      match info.kind with
      | .directory => directoryFallsBack os request info
      | .regular => fileFallsBack os request info

theorem mimeTypes_values : ∀ entry ∈ mimeTypes, PlainValue (ascii entry.2) := by decide +kernel

theorem fileMimeType_plain (path : Bytes) : PlainValue (fileMimeType path) := by
  unfold fileMimeType
  split
  · decide
  · split
    · decide
    · rename_i entry hfind
      exact mimeTypes_values entry (List.mem_of_find?_eq_some hfind)

theorem fileStatPath_mimeType (h : fileStatPath os docRoot requestPath = .ok info) :
    PlainValue info.mimeType := by
  obtain ⟨_, st, _, ⟨_, hinfo⟩ | ⟨_, hinfo⟩⟩ := fileStatPath_ok h
  · rw [hinfo]
    exact (by decide : PlainValue (ascii "text/html"))
  · rw [hinfo]
    exact fileMimeType_plain _

/-- The answer to a request announces what was asked for except when it falls back to a 500. -/
theorem answer_sound (os : Os) (docRoot : Bytes) (request : HttpRequest) (keepAlive : Bool) :
    (answer os docRoot request keepAlive).Sound (keepAlive && !fallsBack os docRoot request) := by
  unfold answer fallsBack
  by_cases hm : request.method = .unsupported
  · rw [if_pos hm]
    simp only [hm, ne_eq, not_true_eq_false, decide_false, Bool.false_and, Bool.not_false,
      Bool.and_true]
    exact simpleAnswer_sound _ (by decide) (by decide) keepAlive
  · rw [if_neg hm]
    simp only [ne_eq, hm, not_false_eq_true, decide_true, Bool.true_and]
    cases hs : fileStatPath os docRoot request.path.str with
    | error failure =>
      simp only [Bool.not_false, Bool.and_true]
      cases failure <;> exact simpleAnswer_sound _ (by decide) (by decide) keepAlive
    | ok info =>
      cases hk : info.kind with
      | directory =>
        simp only [hk]
        exact directoryAnswer_sound os request info keepAlive
      | regular =>
        simp only [hk]
        exact fileAnswer_sound os request info (fileStatPath_mimeType hs) keepAlive

/-- The body as it would be if a file that is too short went on with zeros. -/
def Body.padded : Body → Bytes
  | .text bytes => bytes
  | .file count contents _ => (contents ++ List.replicate count.toNat 0).take count.toNat

theorem Body.padded_length (body : Body) : body.padded.length = body.size := by
  cases body with
  | text bytes => rfl
  | file count contents freads =>
    change (List.take _ _).length = _
    rw [List.length_take, List.length_append, List.length_replicate]
    exact Nat.min_eq_left (Nat.le_add_left _ _)

theorem Body.padded_eq {body : Body} (h : body.Available) : body.padded = body.bytes := by
  cases body with
  | text bytes => rfl
  | file count contents freads => exact List.take_append_of_le_length h

theorem Body.send_sends (body : Body) (outcomes : List SendOutcome) :
    (body.send outcomes).Sends body.padded := by
  cases body with
  | text bytes => exact sendAll_sends outcomes bytes
  | file count contents freads =>
    apply sendFileLoop_sends (Nat.le_refl _)
    rw [List.length_append, List.length_replicate]
    exact Nat.le_add_left _ _

theorem Answer.body_sends (answer : Answer) (headOnly : Bool) (outcomes : List SendOutcome) :
    SendRun.Sends (if headOnly then .done outcomes else answer.body.send outcomes)
      (if headOnly then [] else answer.body.padded) := by
  cases headOnly with
  | true => exact SendRun.sends_done outcomes
  | false => exact answer.body.send_sends outcomes

theorem Answer.Sound.reply_sends {answer : Answer} (h : answer.Sound keepAlive) (headOnly : Bool)
    (outcomes : List SendOutcome) :
    (answer.reply headOnly outcomes).run.Sends
      (answer.head ++ if headOnly then [] else answer.body.padded) := by
  obtain ⟨request, reason, fields, ha⟩ := h
  have hne : answer.head ≠ [] := by
    rw [ha.head]
    exact headerText_ne_nil _ _ _ _
  exact (sendHeaders_sends hne outcomes).andThen (answer.body_sends headOnly)

theorem Answer.Sound.answers {answer : Answer} (h : answer.Sound keepAlive) (headOnly : Bool)
    (outcomes : List SendOutcome) : (answer.reply headOnly outcomes).Answers headOnly keepAlive := by
  have hsends := h.reply_sends headOnly outcomes
  obtain ⟨request, reason, fields, ha⟩ := h
  have hclean : ∀ f ∈ fields, CleanField f := fun f hf => (ha.plain f hf).clean
  have hbody : (if headOnly then [] else answer.body.padded).length =
      if headOnly then 0 else answer.body.size := by
    cases headOnly with
    | true => rfl
    | false => exact answer.body.padded_length
  refine ⟨_, hsends, ?_, ?_⟩
  · rw [ha.head]
    exact isResponse_headerText ha.reason.1 hclean ha.contentLength hbody
  · rw [ha.head]
    exact messageField_headerText ha.reason.1 hclean (by decide) ha.connection _

theorem sendSimpleResponse_answers (request : Option HttpRequest) (hs : status < 1000)
    (hb : body.length < 2 ^ 64) (keepAlive : Bool) (outcomes : List SendOutcome) :
    (sendSimpleResponse request status body keepAlive outcomes).Answers (!sendBody request)
      keepAlive := by
  rw [sendSimpleResponse_eq]
  exact (simpleAnswer_sound request hs hb keepAlive).answers _ outcomes

/-- Every request is answered by one response, which announces what was asked for except when
the answer falls back to a 500. -/
theorem respond_answers (os : Os) (docRoot : Bytes) (request : HttpRequest) (keepAlive : Bool)
    (outcomes : List SendOutcome) :
    (respond os docRoot request keepAlive outcomes).Answers (!sendBody (some request))
      (keepAlive && !fallsBack os docRoot request) := by
  rw [respond_eq]
  exact (answer_sound os docRoot request keepAlive).answers _ outcomes

end Httpd
