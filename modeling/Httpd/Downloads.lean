import Httpd.Fetching
import Httpd.Lib.Assembly

namespace Httpd
open Assembly Scan
set_option autoImplicit true

structure AsksRange (head target : Bytes) (form : RangeForm) : Prop where
  line : ∃ version fields before line after,
    (version = ascii "HTTP/1.0" ∨ version = ascii "HTTP/1.1") ∧
    FirstLine head (RequestLine.bytes ⟨ascii "GET", target, version⟩) fields ∧
    (headerLines fields).1 = before ++ line :: after ∧ RangeLine line form ∧
    ∀ other ∈ before ++ after, ¬ NamesField (ascii "Range") other
  ends : findHeaderEnd head = some head.length
  fits : head.length ≤ readBufferSize

theorem AsksRange.request (h : AsksRange head target form) (ht : PlainTarget target)
    (hw : form.WellFormed) : ∃ request, httpParseRequest head = some request ∧
      request.method = .get ∧ request.path.str = target ∧
      (form.Fits → request.rangeFields = form.fields) ∧
      (¬ form.Fits → request.hasRange = false) := by
  obtain ⟨version, fields, before, line, after, hv, hl, hlines, hline, hothers⟩ := h.line
  obtain ⟨request, hparse, hmethod, hpath⟩ := ht.request hv hl
  have hhead : RangeHead head form := ⟨_, fields, before, line, after, hl, hlines, hline, hothers⟩
  exact ⟨request, hparse, hmethod, hpath, hhead.rangeFields hw hparse⟩

/-- Whatever the system calls bring up for a target is this file. -/
def Brings (os : Os) (docRoot target file : Bytes) : Prop :=
  ∀ info, fileStatPath os docRoot target = .ok info → info.kind = .regular ∧
    info.size.toNat = file.length ∧
    ∀ contents, os.fopen info.resolvedPath = some contents → contents = file

/-- A range of a file is asked for on a connection of its own, whose sends and system calls may
fail, and this much of what the server sends gets through. -/
def Transfer (docRoot target file : Bytes) (form : RangeForm) (received : Bytes) : Prop :=
  ∃ c : Connection, c.docRoot = docRoot ∧ Brings (c.os 0) docRoot target file ∧
    .failed ∉ c.arrivals ∧ AsksRange (streamOf c.arrivals) target form ∧
    received <+: wire c.trace

structure Segment where
  piece : Piece UInt8
  total : Nat

def rangeStart (value : Bytes) : Nat := numeralValue ((value.drop 6).takeWhile (· ≠ 45))

def rangeTotal (value : Bytes) : Nat := numeralValue ((value.dropWhile (· ≠ 47)).drop 1)

/-- How a client reads what it has received of a response, be it all or not. -/
def readSegment (received : Bytes) : Option Segment :=
  (messageBody received).bind fun body =>
    if messageStatus received = decimal 200 then
      (messageField (ascii "Content-Length") received).map fun digits =>
        ⟨⟨0, body⟩, numeralValue digits⟩
    else if messageStatus received = decimal 206 then
      (messageField (ascii "Content-Range") received).map fun value =>
        ⟨⟨rangeStart value, body⟩, rangeTotal value⟩
    else if messageStatus received = decimal 416 then
      (messageField (ascii "Content-Range") received).map fun value =>
        ⟨⟨0, []⟩, rangeTotal value⟩
    else none

instance : DecidablePred RangeForm.Fits
  | .closed first last =>
    inferInstanceAs (Decidable (numeralValue first < 2 ^ 64 ∧ numeralValue last < 2 ^ 64))
  | .opened first => inferInstanceAs (Decidable (numeralValue first < 2 ^ 64))
  | .suffix count => inferInstanceAs (Decidable (numeralValue count < 2 ^ 64))

/-- What a range yields of a file; one whose numbers are too large is as if it were not there. -/
def RangeForm.share (form : RangeForm) (file : Bytes) : Piece UInt8 :=
  if form.Fits then
    match form.part file.length with
    | none => ⟨0, []⟩
    | some (first, last) => ⟨first, (file.drop first).take (last - first + 1)⟩
  else ⟨0, file⟩

theorem RangeForm.share_of (form : RangeForm) (file : Bytes) : (form.share file).Of file := by
  unfold RangeForm.share
  split
  · split
    · exact List.nil_prefix
    · exact List.take_prefix _ _
  · exact List.prefix_rfl

theorem rangeTotal_slash {front : Bytes} (h : 47 ∉ front) (n : Nat) :
    rangeTotal (front ++ 47 :: decimal n) = n := by
  rw [rangeTotal, dropWhile_append_stop h, List.drop_succ_cons, List.drop_zero,
    numeralValue_decimal]

theorem notMem_decimal {c : UInt8} (h : ¬ (48 ≤ c ∧ c ≤ 57)) (n : Nat) : c ∉ decimal n :=
  fun hm => h (decimal_digits hm)

theorem contentRange_read (first last n : Nat) :
    let value := ascii "bytes " ++ decimal first ++ 45 :: decimal last ++ 47 :: decimal n
    rangeStart value = first ∧ rangeTotal value = n := by
  intro value
  constructor
  · have hdrop : value.drop 6 = decimal first ++ 45 :: (decimal last ++ 47 :: decimal n) := by
      simp only [value, List.append_assoc, List.cons_append]
      rfl
    rw [rangeStart, hdrop, takeWhile_append_stop (notMem_decimal (by decide) first),
      numeralValue_decimal]
  · apply rangeTotal_slash
    simp only [List.mem_append, List.mem_cons, not_or]
    exact ⟨⟨by decide, notMem_decimal (by decide) first⟩, by decide,
      notMem_decimal (by decide) last⟩

theorem Answer.Sound.received {answer : Answer} {received body : Bytes}
    (h : answer.Sound keepAlive) (hp : received <+: answer.head ++ body) :
    messageBody received = none ∨ ∃ part, part <+: body ∧ received = answer.head ++ part := by
  cases hend : Httpd.findHeaderEnd received with
  | none =>
    rw [messageBody, hend]
    exact .inl rfl
  | some size =>
    obtain ⟨later, hlater⟩ := hp
    have hwhole := findHeaderEnd_append later hend
    rw [hlater, h.findHeaderEnd, Option.some.injEq] at hwhole
    have hle := (findHeaderEnd_le hend).2
    rw [← hwhole] at hle
    have hhead : answer.head <+: received :=
      List.prefix_of_prefix_length_le (List.prefix_append _ body) ⟨later, hlater⟩ hle
    obtain ⟨part, rfl⟩ := hhead
    rw [List.append_assoc, List.append_cancel_left_eq] at hlater
    exact .inr ⟨part, ⟨later, hlater⟩, rfl⟩

theorem Answer.Announces.complete {answer : Answer} {reason part : Bytes}
    {fields : List (Bytes × Bytes)} (h : answer.Announces keepAlive request reason fields)
    (hr : IsResponse false (answer.head ++ part)) : part.length = answer.body.size := by
  obtain ⟨hstatus, hbody, hfield⟩ := h.message part
  obtain ⟨_, size, n, hend, hlength, hsize⟩ := hr
  have hsound : answer.Sound keepAlive := ⟨request, reason, fields, h⟩
  rw [hfield _ _ (by decide) h.contentLength, Option.some.injEq] at hlength
  have hn : n = answer.body.size := by
    rw [← numeralValue_decimal n, ← hlength, numeralValue_decimal]
  rw [hsound.findHeaderEnd, Option.some.injEq] at hend
  rw [← hend, List.length_append, if_neg Bool.false_ne_true] at hsize
  rw [← hn]
  omega

theorem decimal_injective : Function.Injective decimal := by
  intro m n h
  rw [← numeralValue_decimal m, h, numeralValue_decimal]

section ReadSegment

variable {answer : Answer} {request : Option HttpRequest} {keepAlive : Bool} {reason : Bytes}
  {fields : List (Bytes × Bytes)} {value : Bytes}

theorem readSegment_whole (h : answer.Announces keepAlive request reason fields)
    (hs : answer.status = 200) (part : Bytes) :
    readSegment (answer.head ++ part) = some ⟨⟨0, part⟩, answer.body.size⟩ := by
  obtain ⟨hstatus, hbody, hfield⟩ := h.message part
  rw [readSegment, hbody, Option.bind_some, hstatus, if_pos (congrArg decimal hs),
    hfield _ _ (by decide) h.contentLength, Option.map_some, numeralValue_decimal]

theorem readSegment_partial (h : answer.Announces keepAlive request reason fields)
    (hs : answer.status = 206) (hf : fields.lookup (ascii "Content-Range") = some value)
    (part : Bytes) :
    readSegment (answer.head ++ part) = some ⟨⟨rangeStart value, part⟩, rangeTotal value⟩ := by
  obtain ⟨hstatus, hbody, hfield⟩ := h.message part
  have hwhole : decimal 206 ≠ decimal 200 := by decide
  rw [readSegment, hbody, Option.bind_some, hstatus, hs, if_neg hwhole, if_pos rfl,
    hfield _ _ (by decide) hf, Option.map_some]

theorem readSegment_refused (h : answer.Announces keepAlive request reason fields)
    (hs : answer.status = 416) (hf : fields.lookup (ascii "Content-Range") = some value)
    (part : Bytes) :
    readSegment (answer.head ++ part) = some ⟨⟨0, []⟩, rangeTotal value⟩ := by
  obtain ⟨hstatus, hbody, hfield⟩ := h.message part
  have hwhole : decimal 416 ≠ decimal 200 := by decide
  have hpartial : decimal 416 ≠ decimal 206 := by decide
  rw [readSegment, hbody, Option.bind_some, hstatus, hs, if_neg hwhole, if_neg hpartial,
    if_pos rfl, hfield _ _ (by decide) hf, Option.map_some]

theorem readSegment_other (h : answer.Sound keepAlive) (hs : answer.status ∉ [200, 206, 416])
    (part : Bytes) : readSegment (answer.head ++ part) = none := by
  obtain ⟨_, _, _, ha⟩ := h
  obtain ⟨hstatus, hbody, _⟩ := ha.message part
  have hne : ∀ status ∈ [200, 206, 416], decimal answer.status ≠ decimal status :=
    fun status hm he => hs (decimal_injective he ▸ hm)
  rw [readSegment, hbody, Option.bind_some, hstatus, if_neg (hne 200 (by decide)),
    if_neg (hne 206 (by decide)), if_neg (hne 416 (by decide))]

end ReadSegment

/-- What a client may take from a response to a range: nothing, or some of the share that the range
has in the file, and all of it when the response has come in full. -/
def Gives (form : RangeForm) (file received : Bytes) : Prop :=
  readSegment received = none ∨ ∃ part, part <+: (form.share file).items ∧
    readSegment received = some ⟨⟨(form.share file).start, part⟩, file.length⟩ ∧
    (IsResponse false received → part = (form.share file).items)

section FileAnswer

variable {os : Os} {request : HttpRequest} {info : FileInfo} {file part : Bytes} {form : RangeForm}

theorem wholeAnswer_gives (keepAlive : Bool) (hf : ¬ form.Fits)
    (hrange : request.hasRange = false) (hm : PlainValue info.mimeType)
    (hsize : info.size.toNat = file.length)
    (hp : part <+: file) (hresolve : resolveRange request info.size = some range) :
    Gives form file ((rangeAnswer os request info keepAlive file range).head ++ part) := by
  have hrange' : range = ⟨0, if info.size = 0 then 0 else info.size - 1, info.size, false⟩ := by
    simp only [resolveRange, hrange, Bool.not_false, if_true, Option.some.injEq] at hresolve
    exact hresolve.symm
  obtain ⟨reason, ha⟩ := rangeAnswer_announces os hm hresolve keepAlive file
  subst hrange'
  have hshare : form.share file = ⟨0, file⟩ := if_neg hf
  have hread := readSegment_whole ha rfl part
  rw [Gives, hshare]
  refine .inr ⟨part, hp, hread.trans ?_, fun hr => ?_⟩
  · rw [← hsize]
    rfl
  · apply hp.eq_of_length
    exact (ha.complete hr).trans hsize

theorem partAnswer_gives (keepAlive : Bool) (hw : form.WellFormed) (hf : form.Fits)
    (hm : PlainValue info.mimeType) (hsize : info.size.toNat = file.length)
    (hpart : form.part info.size.toNat = some (first, last))
    (hp : part <+: (file.drop first).take (last - first + 1))
    (hresolve : resolveRange request info.size = some (partRange (first, last))) :
    Gives form file
      ((rangeAnswer os request info keepAlive file (partRange (first, last))).head ++ part) := by
  obtain ⟨hle, hlast⟩ := RangeForm.part_bounds hw hpart
  obtain ⟨hstart, hend, hlength⟩ := partRange_toNat hle hlast info.size.toNat_lt
  obtain ⟨reason, ha⟩ := rangeAnswer_announces os hm hresolve keepAlive file
  have hshare : form.share file = ⟨first, (file.drop first).take (last - first + 1)⟩ := by
    rw [RangeForm.share, if_pos hf, ← hsize, hpart]
  have hfields : (fileFields info (partRange (first, last)) keepAlive).lookup
      (ascii "Content-Range") = some (ascii "bytes " ++ decimal first ++ 45 :: decimal last ++
        47 :: decimal file.length) := by
    rw [← hsize]
    nth_rewrite 2 [← hstart]
    nth_rewrite 3 [← hend]
    rfl
  obtain ⟨hreadStart, hreadTotal⟩ := contentRange_read first last file.length
  have hread := readSegment_partial ha rfl hfields part
  rw [hreadStart, hreadTotal] at hread
  rw [Gives, hshare]
  refine .inr ⟨part, hp, hread, fun hr => ?_⟩
  apply hp.eq_of_length
  rw [ha.complete hr, List.length_take, List.length_drop, ← hsize]
  change (partRange (first, last)).length.toNat = _
  omega

theorem refusedAnswer_gives (keepAlive : Bool) (hf : form.Fits)
    (hsize : info.size.toNat = file.length) (hpart : form.part info.size.toNat = none) :
    Gives form file ((rangeNotSatisfiableAnswer request info.size keepAlive).head ++ part) := by
  have hshare : form.share file = ⟨0, []⟩ := by
    rw [RangeForm.share, if_pos hf, ← hsize, hpart]
  have ha := rangeNotSatisfiableAnswer_announces request info.size keepAlive
  have hread := readSegment_refused ha rfl rfl part
  have hstar : 47 ∉ ascii "bytes *" := by decide
  have htotal : rangeTotal (ascii "bytes */" ++ decimal info.size.toNat) = info.size.toNat :=
    rangeTotal_slash hstar _
  rw [htotal, hsize] at hread
  rw [Gives, hshare]
  exact .inr ⟨[], List.prefix_rfl, hread, fun _ => rfl⟩

theorem fileAnswer_gives (keepAlive : Bool) (hw : form.WellFormed)
    (hfits : form.Fits → request.rangeFields = form.fields)
    (hlarge : ¬ form.Fits → request.hasRange = false) (hm : PlainValue info.mimeType)
    (hsize : info.size.toNat = file.length)
    (hopen : ∀ contents, os.fopen info.resolvedPath = some contents → contents = file)
    (hp : part <+: (fileAnswer os request info keepAlive).body.padded) :
    Gives form file ((fileAnswer os request info keepAlive).head ++ part) := by
  have hthere := fileAnswer_available os request info keepAlive fun contents hc =>
    Nat.le_of_eq (hsize.trans (congrArg List.length (hopen contents hc).symm))
  have hfailed : ∀ part, readSegment ((simpleAnswer (some request) 500 internalServerError
      false).head ++ part) = none :=
    readSegment_other (simpleAnswer_sound _ (by decide) (by decide) false)
      (by decide : 500 ∉ [200, 206, 416])
  rw [Body.padded_eq hthere] at hp
  unfold fileAnswer at hp ⊢
  cases hfopen : os.fopen info.resolvedPath with
  | none => exact .inl (hfailed part)
  | some contents =>
    obtain rfl := hopen contents hfopen
    rw [hfopen] at hp
    simp only at hp ⊢
    by_cases hf : form.Fits
    · have hresolve := resolveRange_form hw hf (hfits hf) info.size
      cases hpart : form.part info.size.toNat with
      | none =>
        rw [hpart, Option.map_none] at hresolve
        simp only [hresolve]
        exact refusedAnswer_gives keepAlive hf hsize hpart
      | some bounds =>
        obtain ⟨first, last⟩ := bounds
        obtain ⟨hle, hlast⟩ := RangeForm.part_bounds hw hpart
        obtain ⟨hstart, _, hlength⟩ := partRange_toNat hle hlast info.size.toNat_lt
        rw [hpart, Option.map_some] at hresolve
        simp only [hresolve] at hp ⊢
        split at hp
        · rename_i hseek
          rw [if_pos hseek]
          exact .inl (hfailed part)
        · rename_i hseek
          rw [if_neg hseek]
          have hbody : (rangeAnswer os request info keepAlive contents
              (partRange (first, last))).body.bytes =
                (contents.drop first).take (last - first + 1) := by
            rw [← hlength]
            nth_rewrite 3 [← hstart]
            rfl
          rw [hbody] at hp
          exact partAnswer_gives keepAlive hw hf hm hsize hpart hp hresolve
    · cases hresolve : resolveRange request info.size with
      | none =>
        simp only [resolveRange, hlarge hf, Bool.not_false, if_true] at hresolve
        cases hresolve
      | some range =>
        simp only [hresolve] at hp ⊢
        split at hp
        · rename_i hseek
          rw [if_pos hseek]
          exact .inl (hfailed part)
        · rename_i hseek
          rw [if_neg hseek]
          apply wholeAnswer_gives keepAlive hf (hlarge hf) hm hsize _ hresolve
          have hpartial : range.isPartial = false := by
            simp only [resolveRange, hlarge hf, Bool.not_false, if_true, Option.some.injEq]
              at hresolve
            rw [← hresolve]
          apply hp.trans
          simp only [rangeAnswer, hpartial, Bool.false_eq_true, if_false]
          exact List.take_prefix _ _

end FileAnswer

theorem SendRun.Sends.begins {run : SendRun} (h : run.Sends message) :
    wire run.events <+: message := by
  cases hok : run.ok with
  | true =>
    rw [h.full hok]
  | false =>
    obtain ⟨c, rest, hcut⟩ := h.cut hok
    exact ⟨c :: rest, hcut⟩

theorem Transfer.gives (h : Transfer docRoot target file form received) (ht : PlainTarget target)
    (hw : form.WellFormed) : Gives form file received ∧
      (readSegment received ≠ none → file.length < 2 ^ 64) := by
  obtain ⟨c, rfl, hbrings, hf, hasks, hreceived⟩ := h
  obtain ⟨request, hparse, hmethod, hpath, hfits, hlarge⟩ := hasks.request ht hw
  rw [trace_reply hf (frame_single hasks.ends hasks.fits hparse), not_headOnly hmethod]
    at hreceived
  have hsound := answer_sound (c.os 0) c.docRoot request (httpShouldKeepAlive request)
  have hsent := hreceived.trans (hsound.reply_sends false c.outcomes).begins
  obtain hnone | ⟨part, hpart, rfl⟩ := hsound.received hsent
  · have hread : readSegment received = none := by rw [readSegment, hnone, Option.bind_none]
    exact ⟨.inl hread, fun hne => absurd hread hne⟩
  · have hm : request.method ≠ .unsupported := by
      rw [hmethod]
      intro he
      cases he
    simp only [answer, if_neg hm, hpath] at hsound hpart ⊢
    cases hstat : fileStatPath (c.os 0) c.docRoot target with
    | error failure =>
      rw [hstat] at hsound
      have hread : readSegment _ = none := readSegment_other hsound
        (by cases failure <;> decide : statusFromFileResult failure ∉ [200, 206, 416]) part
      exact ⟨.inl hread, fun hne => absurd hread hne⟩
    | ok info =>
      obtain ⟨hkind, hsize, hopen⟩ := hbrings info hstat
      simp only [hstat, hkind] at hpart ⊢
      have hgives := fileAnswer_gives (httpShouldKeepAlive request) hw hfits hlarge
        (fileStatPath_mimeType hstat) hsize hopen hpart
      exact ⟨hgives, fun _ => hsize ▸ info.size.toNat_lt⟩

def download (received : List Bytes) : Option Bytes :=
  let segments := received.filterMap readSegment
  segments.head?.bind fun segment => assemble (segments.map Segment.piece) segment.total

def Finished (received : Bytes) : Prop := IsResponse false received ∧ readSegment received ≠ none

theorem download_eq_some {received : List Bytes} (h : ∀ segment ∈ received.filterMap readSegment,
      segment.piece.Of file ∧ segment.total = file.length) :
    download received = some out ↔ received.filterMap readSegment ≠ [] ∧ out = file ∧
      ∀ i < file.length, ∃ segment ∈ received.filterMap readSegment, segment.piece.Covers i := by
  rw [download]
  generalize received.filterMap readSegment = segments at h
  cases segments with
  | nil =>
    constructor
    · intro he
      cases he
    · intro he
      exact absurd rfl he.1
  | cons segment segments =>
    have hpieces : ∀ p ∈ (segment :: segments).map Segment.piece, p.Of file := by
      intro p hp
      obtain ⟨other, hs, rfl⟩ := List.mem_map.1 hp
      exact (h other hs).1
    simp only [List.head?_cons, Option.bind_some, (h segment List.mem_cons_self).2]
    rw [assemble_eq_some hpieces (Nat.le_refl _), List.take_length]
    simp only [List.mem_map, exists_exists_and_eq_and, ne_eq, reduceCtorEq, not_false_eq_true,
      true_and]

/-- Whatever ranges of a file are asked for, each on a connection of its own, and wherever the
transfers break off: what can be put together without a gap is the file, and the ranges whose
transfers came to their end suffice where they cover it. -/
theorem download_assembles (ht : PlainTarget target) (transfers : List (RangeForm × Bytes))
    (h : ∀ t ∈ transfers, t.1.WellFormed ∧ Transfer docRoot target file t.1 t.2) :
    (∀ out, download (transfers.map Prod.snd) = some out → out = file) ∧
      ((∃ t ∈ transfers, Finished t.2) →
        (∀ i < file.length, ∃ t ∈ transfers, Finished t.2 ∧ (t.1.share file).Covers i) →
        download (transfers.map Prod.snd) = some file) := by
  have hsegments : ∀ segment ∈ (transfers.map Prod.snd).filterMap readSegment,
      segment.piece.Of file ∧ segment.total = file.length := by
    intro segment hs
    obtain ⟨received, hmem, hread⟩ := List.mem_filterMap.1 hs
    obtain ⟨t, ht', rfl⟩ := List.mem_map.1 hmem
    obtain ⟨hw, htransfer⟩ := h t ht'
    obtain hnone | ⟨part, hpart, hread', _⟩ := (htransfer.gives ht hw).1
    · rw [hread] at hnone
      cases hnone
    · rw [hread, Option.some.injEq] at hread'
      subst hread'
      exact ⟨hpart.trans (t.1.share_of file), rfl⟩
  have hfinished : ∀ t ∈ transfers, Finished t.2 → ∃ segment ∈
      (transfers.map Prod.snd).filterMap readSegment, segment.piece = t.1.share file := by
    intro t ht' hfin
    obtain ⟨hw, htransfer⟩ := h t ht'
    obtain hnone | ⟨part, _, hread, hall⟩ := (htransfer.gives ht hw).1
    · exact absurd hnone hfin.2
    · rw [hall hfin.1] at hread
      exact ⟨_, List.mem_filterMap.2 ⟨t.2, List.mem_map_of_mem ht', hread⟩, rfl⟩
  constructor
  · intro out hout
    exact ((download_eq_some hsegments).1 hout).2.1
  · intro hsome hcovered
    apply (download_eq_some hsegments).2
    refine ⟨?_, rfl, ?_⟩
    · obtain ⟨t, ht', hfin⟩ := hsome
      obtain ⟨segment, hs, _⟩ := hfinished t ht' hfin
      exact List.ne_nil_of_mem hs
    · intro i hi
      obtain ⟨t, ht', hfin, hc⟩ := hcovered i hi
      obtain ⟨segment, hs, he⟩ := hfinished t ht' hfin
      exact ⟨segment, hs, he ▸ hc⟩

def rangeConnection (form : RangeForm) : Connection :=
  { pageConnection with arrivals := [.data 71 (rangeHead form).tail] }

theorem page_brings : Brings pageOs (ascii "/srv/www") (ascii "/index.html") (ascii "static") := by
  have hinfo : fileStatPath pageOs (ascii "/srv/www") (ascii "/index.html") =
      .ok ⟨ascii "/srv/www/index.html", .regular, 6, ascii "text/html"⟩ := by decide +kernel
  intro info h
  rw [hinfo] at h
  cases h
  have hsize : (6 : UInt64).toNat = (ascii "static").length := by decide
  refine ⟨rfl, hsize, fun contents hopen => ?_⟩
  cases hopen
  rfl

theorem page_transfer {form : RangeForm}
    (hlines : (headerLines (ascii "Range: bytes=" ++ form.text ++ (crlf ++ crlf))).1 =
      [ascii "Range: bytes=" ++ form.text])
    (hend : findHeaderEnd (rangeHead form) = some (rangeHead form).length)
    (hfits : (rangeHead form).length ≤ readBufferSize)
    (hreceived : received <+: wire (rangeConnection form).trace) :
    Transfer (ascii "/srv/www") (ascii "/index.html") (ascii "static") form received := by
  have hstream : streamOf (rangeConnection form).arrivals = rangeHead form := by
    change _ ++ [] = _
    rw [List.append_nil]
    rfl
  obtain ⟨requestLine, fields, before, line, after, hl, hsplit, hline, hothers⟩ :=
    rangeHead_form hlines
  refine ⟨rangeConnection form, rfl, page_brings, ?_, ?_, hreceived⟩
  · exact List.not_mem_cons_of_ne_of_not_mem Arrival.noConfusion List.not_mem_nil
  · rw [hstream]
    have hfirst : FirstLine (rangeHead form) getPage.bytes
        (ascii "Range: bytes=" ++ form.text ++ (crlf ++ crlf)) := ⟨rfl, by decide⟩
    obtain ⟨rfl, rfl⟩ := hfirst.unique hl
    exact ⟨⟨_, _, before, line, after, .inr rfl, hfirst, hsplit, hline, hothers⟩, hend, hfits⟩

theorem plainPage : PlainTarget (ascii "/index.html") := by
  constructor <;> decide

def pageRanges : List RangeForm := [.suffix (ascii "3"), .closed (ascii "0") (ascii "2")]

theorem pageRanges_transfer : ∀ form ∈ pageRanges, form.WellFormed ∧ Transfer (ascii "/srv/www")
    (ascii "/index.html") (ascii "static") form (wire (rangeConnection form).trace) := by
  have hw : ∀ form ∈ pageRanges, form.WellFormed := by
    intro form hform
    cases List.mem_cons.1 hform with
    | inl he =>
      subst he
      exact ⟨⟨by decide, by decide +kernel⟩, by decide +kernel⟩
    | inr hm =>
      rw [List.mem_singleton.1 hm]
      exact ⟨⟨by decide, by decide +kernel⟩, by decide +kernel, by decide +kernel⟩
  have hheads : ∀ form ∈ pageRanges,
      (headerLines (ascii "Range: bytes=" ++ form.text ++ (crlf ++ crlf))).1 =
        [ascii "Range: bytes=" ++ form.text] ∧
      findHeaderEnd (rangeHead form) = some (rangeHead form).length ∧
      (rangeHead form).length ≤ readBufferSize := by decide +kernel
  intro form hform
  obtain ⟨hlines, hend, hfits⟩ := hheads form hform
  exact ⟨hw form hform, page_transfer hlines hend hfits List.prefix_rfl⟩

def pageTransfers : List (RangeForm × Bytes) :=
  pageRanges.map fun form => (form, wire (rangeConnection form).trace)

theorem finished_of_size {received : Bytes} (h : ascii "HTTP/1." <+: received ∧
    findHeaderEnd received = some (received.length - n) ∧
    messageField (ascii "Content-Length") received = some (decimal n) ∧ n ≤ received.length ∧
    (readSegment received).isSome = true) : Finished received := by
  obtain ⟨hversion, hend, hlength, hle, hread⟩ := h
  refine ⟨⟨hversion, _, n, hend, hlength, ?_⟩, Option.isSome_iff_ne_none.1 hread⟩
  exact (Nat.sub_add_cancel hle).symm

theorem pageTransfers_finished : ∀ t ∈ pageTransfers, Finished t.2 := by
  have hall : ∀ t ∈ pageTransfers, ascii "HTTP/1." <+: t.2 ∧
      findHeaderEnd t.2 = some (t.2.length - 3) ∧
      messageField (ascii "Content-Length") t.2 = some (decimal 3) ∧ 3 ≤ t.2.length ∧
      (readSegment t.2).isSome = true := by decide +kernel
  exact fun t ht => finished_of_size (hall t ht)

theorem download_assembles_page :
    download (pageTransfers.map Prod.snd) = some (ascii "static") := by
  have htransfers : ∀ t ∈ pageTransfers, t.1.WellFormed ∧
      Transfer (ascii "/srv/www") (ascii "/index.html") (ascii "static") t.1 t.2 := by
    intro t ht
    obtain ⟨form, hform, rfl⟩ := List.mem_map.1 ht
    dsimp only
    exact pageRanges_transfer form hform
  have hcovered : ∀ i < 6, ∃ t ∈ pageTransfers, (t.1.share (ascii "static")).start ≤ i ∧
      i < (t.1.share (ascii "static")).start + (t.1.share (ascii "static")).items.length := by
    decide +kernel
  have hfirst : ∃ t, t ∈ pageTransfers := by
    obtain ⟨t, ht, _⟩ := hcovered 0 (by decide)
    exact ⟨t, ht⟩
  apply (download_assembles plainPage pageTransfers htransfers).2
  · obtain ⟨t, ht⟩ := hfirst
    exact ⟨t, ht, pageTransfers_finished t ht⟩
  · intro i hi
    obtain ⟨t, ht, hc⟩ := hcovered i hi
    exact ⟨t, ht, pageTransfers_finished t ht, hc⟩

def resume (held received : Bytes) : Bytes :=
  match readSegment received with
  | none => held
  | some segment => if segment.piece.start = held.length then held ++ segment.piece.items else held

def payload (received : Bytes) : Nat :=
  (readSegment received).elim 0 fun segment => segment.piece.items.length

/-- A download that is gone on with, each time a transfer breaks off, from where the client is. -/
inductive Resumes (docRoot target file : Bytes) : List Bytes → Bytes → Prop where
  | start : Resumes docRoot target file [] []
  | again : Resumes docRoot target file attempts held →
      Transfer docRoot target file (.opened (decimal held.length)) received →
      Resumes docRoot target file (received :: attempts) (resume held received)

theorem decimal_numeral (n : Nat) : Numeral (decimal n) := by
  constructor
  · intro h
    have hvalue := numeralValue_decimal n
    rw [h] at hvalue
    subst hvalue
    exact absurd h (by decide)
  · intro c hc
    exact decide_eq_true (decimal_digits hc)

theorem share_opened {held file : Bytes} (hp : held <+: file) (hl : file.length < 2 ^ 64) :
    (RangeForm.opened (decimal held.length)).share file =
      if held = file then ⟨0, []⟩ else ⟨held.length, file.drop held.length⟩ := by
  have hle := hp.length_le
  have hfits : (RangeForm.opened (decimal held.length)).Fits := by
    change numeralValue (decimal held.length) < 2 ^ 64
    rw [numeralValue_decimal]
    exact Nat.lt_of_le_of_lt hle hl
  rw [RangeForm.share, if_pos hfits, RangeForm.part, numeralValue_decimal]
  by_cases he : held = file
  · subst he
    rw [if_pos (.inr (Nat.le_refl _)), if_pos rfl]
  · have hlt : held.length < file.length := by
      apply Nat.lt_of_le_of_ne hle
      exact fun hlen => he (hp.eq_of_length hlen)
    rw [if_neg (by omega), if_neg he]
    simp only
    rw [List.take_of_length_le]
    rw [List.length_drop]
    omega

theorem Transfer.resumes (h : Transfer docRoot target file (.opened (decimal held.length)) received)
    (ht : PlainTarget target) (hp : held <+: file) :
    resume held received <+: file ∧
      (resume held received).length = held.length + payload received ∧
      (held = file → resume held received = file) ∧
      (Finished received → resume held received = file) := by
  have hw : (RangeForm.opened (decimal held.length)).WellFormed := decimal_numeral _
  obtain ⟨hnone | ⟨part, hpart, hread, hall⟩, hl⟩ := h.gives ht hw
  · simp only [resume, payload, hnone]
    exact ⟨hp, rfl, id, fun hfin => absurd hnone hfin.2⟩
  · have hshare := share_opened hp (hl (by rw [hread]; exact Option.some_ne_none _))
    rw [hshare] at hpart hread hall
    simp only [resume, payload, hread, Option.elim_some]
    by_cases he : held = file
    · rw [if_pos he] at hpart ⊢
      obtain rfl := List.prefix_nil.1 hpart
      subst he
      simp only [List.append_nil, ite_self]
      exact ⟨hp, rfl, fun _ => trivial, fun _ => trivial⟩
    · rw [if_neg he] at hpart hall
      simp only [if_neg he, if_true, List.length_append]
      obtain ⟨later, hlater⟩ := hp
      have hdrop : file.drop held.length = later := by
        rw [← hlater]
        exact List.drop_left
      rw [hdrop] at hpart hall
      rw [← hlater]
      refine ⟨(List.prefix_append_right_inj held).2 hpart, trivial, fun he' => ?_, fun hfin => ?_⟩
      · exact absurd (he'.trans hlater) he
      · rw [hall hfin.1]

/-- However often a download breaks off and wherever, what the client holds is the start of the
file, no byte of which was sent to it twice; once a response has come in full, it is the file. -/
theorem resumed_download (ht : PlainTarget target) (h : Resumes docRoot target file attempts held) :
    held <+: file ∧ held.length = (attempts.map payload).sum ∧
      ∀ received ∈ attempts, Finished received → held = file := by
  induction h with
  | start => exact ⟨List.nil_prefix, rfl, List.forall_mem_nil _⟩
  | @again attempts held received _ htransfer ih =>
    obtain ⟨hp, hsum, hfin⟩ := ih
    obtain ⟨hp', hlength, hkeeps, hends⟩ := htransfer.resumes ht hp
    refine ⟨hp', ?_, ?_⟩
    · rw [hlength, hsum, List.map_cons, List.sum_cons, Nat.add_comm]
    · intro other hother hf
      cases List.mem_cons.1 hother with
      | inl he => exact hends (he ▸ hf)
      | inr hm => exact hkeeps (hfin other hm hf)

theorem resumed_download_page :
    let first := (wire (rangeConnection (.opened (ascii "0"))).trace).dropLast.dropLast.dropLast
    let second := wire (rangeConnection (.opened (ascii "3"))).trace
    resume [] first = ascii "sta" ∧ resume (ascii "sta") second = ascii "static" := by
  intro first second
  have hfirst : resume [] first = ascii "sta" := by decide +kernel
  have hbefore : Resumes (ascii "/srv/www") (ascii "/index.html") (ascii "static") [first]
      (resume [] first) := by
    apply Resumes.start.again
    apply page_transfer (by decide +kernel) (by decide +kernel) (by decide +kernel)
    exact (List.dropLast_prefix _).trans ((List.dropLast_prefix _).trans (List.dropLast_prefix _))
  rw [hfirst] at hbefore
  have hattempts : Resumes (ascii "/srv/www") (ascii "/index.html") (ascii "static") [second, first]
      (resume (ascii "sta") second) := by
    apply hbefore.again
    exact page_transfer (by decide +kernel) (by decide +kernel) (by decide +kernel) List.prefix_rfl
  have hfinished : Finished second := finished_of_size (n := 3) (by decide +kernel)
  exact ⟨hfirst, (resumed_download plainPage hattempts).2.2 second List.mem_cons_self hfinished⟩

end Httpd
