import Httpd.ResponseFraming

namespace Httpd
set_option autoImplicit true

def Reliable (outcomes : List SendOutcome) : Prop :=
  ∀ o ∈ outcomes, (∃ extra, o = .took extra) ∨ o = .interrupted

/-- No regular file is shorter when it is read than `stat` said. -/
def Os.FilesSteady (os : Os) : Prop :=
  ∀ path st file, os.stat path = .ok st → st.mode = .regular → os.fopen path = some file →
    st.size.toNat ≤ file.length

def SendRun.Steady (run : SendRun) : Prop := run.ok = true ∧ Reliable run.rest

theorem SendRun.Steady.andThen {first : SendRun} (h : first.Steady)
    (hn : ∀ rest, Reliable rest → (next rest).Steady) : (first.andThen next).Steady := by
  rw [SendRun.andThen, if_pos h.1]
  exact hn _ h.2

theorem sendAll_steady (h : Reliable outcomes) (data : Bytes) : (sendAll outcomes data).Steady := by
  induction outcomes generalizing data with
  | nil =>
    rw [sendAll]
    split <;> exact ⟨rfl, h⟩
  | cons outcome outcomes ih =>
    rw [sendAll.eq_def]
    by_cases hd : data = []
    · simp only [hd]
      exact ⟨rfl, h⟩
    simp only [if_neg hd]
    have hrest : Reliable outcomes := fun o ho => h o (List.mem_cons_of_mem _ ho)
    rcases h outcome List.mem_cons_self with ⟨extra, rfl⟩ | rfl
    · exact ih hrest _
    · exact ih hrest _

theorem sendHeaders_steady (h : Reliable outcomes) {text : Bytes}
    (hl : text.length < responseBufferSize) : (sendHeaders text outcomes).Steady := by
  have hmax : text.length ≤ intMax := Nat.le_trans (Nat.le_of_lt hl) (by decide)
  have hfit : ¬ ((text.length : Int) < 0 ∨ (text.length : Int) ≥ responseBufferSize) := by
    omega
  simp only [sendHeaders, snprintf, if_pos hmax, if_neg hfit]
  exact sendAll_steady h _

theorem sendFileLoop_steady (h : Reliable outcomes) (hfuel : remaining ≤ fuel) (file : Bytes)
    (hlen : remaining ≤ file.length) (freads : List Nat) :
    (sendFileLoop fuel remaining file freads outcomes).Steady := by
  induction fuel generalizing outcomes remaining file freads with
  | zero => exact ⟨rfl, h⟩
  | succ fuel ih =>
    rw [sendFileLoop]
    by_cases h₀ : remaining = 0
    · rw [if_pos h₀]
      exact ⟨rfl, h⟩
    have hw := want_bounds h₀
    simp only [if_neg h₀]
    generalize (if remaining < readBufferSize then remaining else readBufferSize) = want at hw ⊢
    obtain ⟨hfile, hchunk, hempty⟩ := fread_chunk want file freads
    generalize fread want file freads = piece at hfile hchunk hempty ⊢
    obtain ⟨buffer, later, freads'⟩ := piece
    simp only at hfile hchunk hempty ⊢
    have hlater := congrArg List.length hfile
    rw [List.length_append] at hlater
    have hne : buffer ≠ [] := by
      intro he
      rw [hempty hw.1 he, List.length_nil] at hlen
      omega
    have hpos := List.length_pos_iff.2 hne
    rw [if_neg hne]
    exact (sendAll_steady h buffer).andThen fun rest hrest =>
      ih hrest (by omega) later (by omega) freads'

theorem responseVersion_length (request : Option HttpRequest) :
    (responseVersion request).length = 8 := by
  obtain ⟨minor, hv, _⟩ := responseVersion_eq request
  rw [hv, List.length_append]
  rfl

theorem headText_length {lines : List Bytes} (h : ∀ l ∈ lines, l.length ≤ k) :
    (headText lines).length ≤ lines.length * (k + 2) + 2 := by
  induction lines with
  | nil => exact Nat.le_add_left 2 _
  | cons line lines ih =>
    have hl := h line List.mem_cons_self
    have hls := ih fun l hm => h l (List.mem_cons_of_mem _ hm)
    rw [headText_cons, List.length_append, List.length_append, List.length_cons,
      Nat.add_one_mul]
    change line.length + 2 + _ ≤ _
    omega

theorem headerText_fits {fields : List (Bytes × Bytes)} (hs : status < 1000)
    (hr : reason.length ≤ 100) (hf : ∀ f ∈ fields, f.1.length + f.2.length ≤ 148)
    (hn : fields.length ≤ 8) :
    (headerText request status reason fields).length < responseBufferSize := by
  have hline : ∀ l ∈ (responseVersion request ++ 32 :: decimal status ++ 32 :: reason) ::
      fields.map fieldLine, l.length ≤ 150 := by
    intro l hl
    rcases List.mem_cons.1 hl with rfl | hl
    · have := decimal_length (k := 3) (by decide) hs
      simp only [List.length_append, List.length_cons, responseVersion_length]
      omega
    · obtain ⟨field, hm, rfl⟩ := List.mem_map.1 hl
      have := hf field hm
      simp only [fieldLine, colonSpace, List.length_append, List.length_cons, List.length_nil]
      omega
  have hlen := headText_length hline
  rw [List.length_cons, List.length_map] at hlen
  change _ < 8192
  rw [headerText]
  omega

theorem Answer.Sound.fits {answer : Answer} (h : answer.Sound keepAlive) :
    answer.head.length < responseBufferSize := by
  obtain ⟨request, reason, fields, ha⟩ := h
  rw [ha.head]
  apply headerText_fits ha.status ha.reason.2 _ ha.few
  intro f hf
  obtain ⟨⟨_, _, hname⟩, _, hvalue⟩ := ha.plain f hf
  exact Nat.add_le_add hname hvalue

theorem Body.send_steady {body : Body} (hb : body.Available) (h : Reliable outcomes) :
    (body.send outcomes).Steady := by
  cases body with
  | text bytes => exact sendAll_steady h bytes
  | file count contents freads =>
    exact sendFileLoop_steady h (Nat.le_refl count.toNat) contents hb freads

theorem Answer.Sound.steady {answer : Answer} (hs : answer.Sound keepAlive)
    (hb : headOnly = true ∨ answer.body.Available) (h : Reliable outcomes) :
    (answer.reply headOnly outcomes).run.Steady := by
  apply (sendHeaders_steady h hs.fits).andThen
  intro rest hrest
  rcases hb with rfl | hb
  · exact ⟨rfl, hrest⟩
  · cases headOnly with
    | true => exact ⟨rfl, hrest⟩
    | false => exact Body.send_steady hb hrest

theorem sendSimpleResponse_steady (h : Reliable outcomes) (request : Option HttpRequest)
    (hs : status < 1000) (hb : body.length < 2 ^ 64) (keepAlive : Bool) :
    (sendSimpleResponse request status body keepAlive outcomes).run.Steady := by
  rw [sendSimpleResponse_eq]
  exact (simpleAnswer_sound request hs hb keepAlive).steady (.inr trivial) h

theorem resolveRange_within (h : resolveRange request fileSize = some range) :
    (if range.isPartial then range.start.toNat else 0) + range.length.toNat ≤
      fileSize.toNat := by
  rcases resolveRange_cases h with ⟨hp, hl⟩ | ⟨hp, hs, hlt, hl⟩
  · rw [hp, hl]
    exact Nat.le_of_eq (Nat.zero_add _)
  · have hmax := fileSize.toNat_lt
    have hlen : range.length.toNat = range.last.toNat + 1 - range.start.toNat := by
      rw [hl, UInt64.toNat_add, UInt64.toNat_sub]
      change ((_ - _ + _) % _ + 1) % _ = _
      omega
    rw [if_pos hp, hlen]
    omega

theorem fileAnswer_available (os : Os) (request : HttpRequest) (info : FileInfo) (keepAlive : Bool)
    (hfile : ∀ file, os.fopen info.resolvedPath = some file → info.size.toNat ≤ file.length) :
    (fileAnswer os request info keepAlive).body.Available := by
  unfold fileAnswer
  cases hopen : os.fopen info.resolvedPath with
  | none => exact trivial
  | some file =>
    cases hrange : resolveRange request info.size with
    | none => exact trivial
    | some range =>
      have hwithin := resolveRange_within hrange
      have hsize := hfile file hopen
      simp only
      split
      · exact trivial
      · change range.length.toNat ≤ List.length (if range.isPartial then _ else _)
        by_cases hp : range.isPartial = true
        · rw [if_pos hp] at hwithin
          rw [if_pos hp, List.length_drop]
          omega
        · rw [if_neg hp] at hwithin
          rw [if_neg hp]
          omega

theorem directoryAnswer_available (os : Os) (request : HttpRequest) (info : FileInfo)
    (keepAlive : Bool) : (directoryAnswer os request info keepAlive).body.Available := by
  unfold directoryAnswer
  split <;> exact trivial

theorem fileStatPath_regular (h : fileStatPath os docRoot requestPath = .ok info) :
    info.kind = .regular → ∃ st, os.stat info.resolvedPath = .ok st ∧ st.mode = .regular ∧
      st.size = info.size := by
  intro hkind
  obtain ⟨_, st, hstat, ⟨_, hinfo⟩ | ⟨hmode, hinfo⟩⟩ := fileStatPath_ok h
  · rw [hinfo] at hkind
    cases hkind
  · exact ⟨st, hstat, hmode, (congrArg FileInfo.size hinfo).symm⟩

theorem answer_available (os : Os) (hfiles : os.FilesSteady) (docRoot : Bytes)
    (request : HttpRequest) (keepAlive : Bool) :
    (answer os docRoot request keepAlive).body.Available := by
  unfold answer
  split
  · exact trivial
  · split
    · exact trivial
    · rename_i info hinfo
      split
      · exact directoryAnswer_available os request info keepAlive
      · rename_i hk
        obtain ⟨st, hstat, hmode, hsize⟩ := fileStatPath_regular hinfo hk
        apply fileAnswer_available
        intro file hopen
        rw [← hsize]
        exact hfiles _ _ _ hstat hmode hopen

/-- A request is answered in full when no send fails and no file has shrunk. -/
theorem respond_steady (h : Reliable outcomes) (os : Os) (hfiles : os.FilesSteady)
    (docRoot : Bytes) (request : HttpRequest) (keepAlive : Bool) :
    (respond os docRoot request keepAlive outcomes).run.Steady := by
  rw [respond_eq]
  exact (answer_sound os docRoot request keepAlive).steady
    (.inr (answer_available os hfiles docRoot request keepAlive)) h

end Httpd
