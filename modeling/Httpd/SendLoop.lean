import Httpd.Lib.CheckedMemory
import Httpd.ResponseFraming

namespace Httpd
open CheckedMemory
set_option autoImplicit true

/-- A call of `send` in `send_all`: where in the buffer it starts, how many bytes it is offered,
and what the kernel makes of it. -/
structure SendCall where
  offset : Nat
  offered : Nat
  outcome : SendOutcome
  deriving DecidableEq

def SendCall.taken (call : SendCall) : Nat :=
  match call.outcome with
  | .took extra => min (extra + 1) call.offered
  | _ => 0

def SendCall.chunk (data : Bytes) (call : SendCall) : Bytes :=
  span data call.offset (call.offset + call.taken)

def handed (data : Bytes) (calls : List SendCall) : Bytes := calls.flatMap (·.chunk data)

def SendOutcome.stops : SendOutcome → Bool
  | .took _ => false
  | .interrupted => false
  | .zero => true
  | .failed => true
  | .broken => true

/-- The calls that are made, and what `send_all` returns; nothing yet if it goes on calling when
the results are used up. -/
structure SendAllRun where
  calls : List SendCall
  result : Option Int
  deriving DecidableEq

/-- The loop of `send_all` on a buffer of this length, of which some bytes are sent. -/
def sendAllLoop (length : Nat) : List SendOutcome → Nat → SendAllRun
  | [], sent => ⟨[], if sent < length then none else some 0⟩
  | outcome :: outcomes, sent =>
    if sent < length then
      let call : SendCall := ⟨sent, length - sent, outcome⟩
      if outcome.stops then ⟨[call], some (-1)⟩
      else
        let later := sendAllLoop length outcomes (sent + call.taken)
        { later with calls := call :: later.calls }
    else ⟨[], some 0⟩

section Loop

variable {data : Bytes} {outcomes : List SendOutcome} {sent : Nat}

theorem handed_cons (data : Bytes) (call : SendCall) (calls : List SendCall) :
    handed data (call :: calls) = call.chunk data ++ handed data calls := List.flatMap_cons

theorem SendCall.taken_of_stops {call : SendCall} (h : call.outcome.stops = true) :
    call.taken = 0 := by
  rw [SendCall.taken]
  cases ho : call.outcome with
  | took _ =>
    rw [ho] at h
    cases h
  | interrupted | zero | failed | broken => rfl

theorem SendCall.chunk_nil {call : SendCall} (h : call.taken = 0) : call.chunk data = [] := by
  rw [SendCall.chunk, h, Nat.add_zero]
  exact span_nil (Nat.le_refl _)

theorem SendCall.taken_le (call : SendCall) : call.taken ≤ call.offered := by
  rw [SendCall.taken]
  split
  · exact Nat.min_le_right _ _
  · exact Nat.zero_le _

theorem sendAllLoop_induct (length : Nat) {motive : List SendOutcome → Nat → Prop}
    (done : ∀ outcomes sent, ¬sent < length →
      sendAllLoop length outcomes sent = ⟨[], some 0⟩ → motive outcomes sent)
    (waits : ∀ sent, sent < length → sendAllLoop length [] sent = ⟨[], none⟩ → motive [] sent)
    (stops : ∀ outcome outcomes sent, sent < length → outcome.stops = true →
      sendAllLoop length (outcome :: outcomes) sent =
        ⟨[⟨sent, length - sent, outcome⟩], some (-1)⟩ → motive (outcome :: outcomes) sent)
    (goesOn : ∀ outcome outcomes sent, sent < length → outcome.stops = false →
      let call : SendCall := ⟨sent, length - sent, outcome⟩
      let later := sendAllLoop length outcomes (sent + call.taken)
      sendAllLoop length (outcome :: outcomes) sent = ⟨call :: later.calls, later.result⟩ →
        motive outcomes (sent + call.taken) → motive (outcome :: outcomes) sent)
    (outcomes : List SendOutcome) (sent : Nat) : motive outcomes sent := by
  induction outcomes generalizing sent with
  | nil =>
    by_cases hmore : sent < length
    · exact waits sent hmore (by rw [sendAllLoop, if_pos hmore])
    · exact done [] sent hmore (by rw [sendAllLoop, if_neg hmore])
  | cons outcome outcomes ih =>
    by_cases hmore : sent < length
    · by_cases hstops : outcome.stops = true
      · exact stops _ _ _ hmore hstops (by rw [sendAllLoop, if_pos hmore, if_pos hstops])
      · exact goesOn _ _ _ hmore (Bool.eq_false_iff.2 hstops)
          (by rw [sendAllLoop, if_pos hmore, if_neg hstops]) (ih _)
    · exact done _ sent hmore (by rw [sendAllLoop, if_neg hmore])

/-- What is handed over from a place in the buffer on is what stands there, up to some other
place; the loop returns 0 where that is the end of the buffer. -/
theorem sendAllLoop_handed (outcomes : List SendOutcome) (hs : sent ≤ data.length) :
    ∃ stop, sent ≤ stop ∧ stop ≤ data.length ∧
      handed data (sendAllLoop data.length outcomes sent).calls = span data sent stop ∧
      ((sendAllLoop data.length outcomes sent).result = some 0 ↔ stop = data.length) := by
  induction outcomes, sent using sendAllLoop_induct data.length with
  | done outcomes sent hmore heq =>
    rw [heq]
    exact ⟨sent, Nat.le_refl sent, hs, (span_nil (Nat.le_refl sent)).symm,
      iff_of_true rfl (Nat.le_antisymm hs (Nat.not_lt.1 hmore))⟩
  | waits sent hmore heq =>
    rw [heq]
    exact ⟨sent, Nat.le_refl sent, hs, (span_nil (Nat.le_refl sent)).symm,
      iff_of_false nofun (Nat.ne_of_lt hmore)⟩
  | stops outcome outcomes sent hmore hstops heq =>
    rw [heq]
    refine ⟨sent, Nat.le_refl sent, hs, ?_, ?_⟩
    · rw [handed_cons, SendCall.chunk_nil (SendCall.taken_of_stops hstops),
        span_nil (Nat.le_refl sent)]
      rfl
    · exact iff_of_false (fun h => absurd (Option.some.inj h) (by decide)) (Nat.ne_of_lt hmore)
  | goesOn outcome outcomes sent hmore hstops call later heq ih =>
    rw [heq]
    have hroom : call.taken ≤ data.length - sent := call.taken_le
    obtain ⟨stop, hle, hend, hhanded, hresult⟩ := ih (by omega)
    refine ⟨stop, Nat.le_of_add_right_le hle, hend, ?_, hresult⟩
    rw [handed_cons, SendCall.chunk, hhanded]
    exact span_append (Nat.le_add_right _ _) hle

theorem sendAllLoop_offers (outcomes : List SendOutcome) (length sent : Nat) :
    ∀ call ∈ (sendAllLoop length outcomes sent).calls,
      0 < call.offered ∧ call.offset + call.offered = length := by
  have hcall {sent : Nat} (hmore : sent < length) :
      0 < length - sent ∧ sent + (length - sent) = length := by omega
  induction outcomes, sent using sendAllLoop_induct length with
  | done outcomes sent hmore heq =>
    rw [heq]
    exact List.forall_mem_nil _
  | waits sent hmore heq =>
    rw [heq]
    exact List.forall_mem_nil _
  | stops outcome outcomes sent hmore hstops heq =>
    rw [heq]
    exact List.forall_mem_singleton.2 (hcall hmore)
  | goesOn outcome outcomes sent hmore hstops call later heq ih =>
    rw [heq]
    exact List.forall_mem_cons.2 ⟨hcall hmore, ih⟩

structure SendAllRun.StopsAtLast (run : SendAllRun) (outcomes : List SendOutcome) : Prop where
  result : run.result = some (-1)
  calls : ∃ front last, run.calls = front ++ [last] ∧ last.outcome.stops = true ∧
    ∀ call ∈ front, call.outcome.stops = false
  taken : run.calls.map SendCall.outcome <+: outcomes

structure SendAllRun.NeverStops (run : SendAllRun) (outcomes : List SendOutcome) : Prop where
  result : run.result = some 0 ∨ run.result = none ∧ run.calls.map SendCall.outcome = outcomes
  calls : ∀ call ∈ run.calls, call.outcome.stops = false
  taken : run.calls.map SendCall.outcome <+: outcomes

theorem sendAllLoop_ends (outcomes : List SendOutcome) (length sent : Nat) :
    (sendAllLoop length outcomes sent).StopsAtLast outcomes ∨
      (sendAllLoop length outcomes sent).NeverStops outcomes := by
  induction outcomes, sent using sendAllLoop_induct length with
  | done outcomes sent hmore heq =>
    rw [heq]
    exact .inr ⟨.inl rfl, List.forall_mem_nil _, List.nil_prefix⟩
  | waits sent hmore heq =>
    rw [heq]
    exact .inr ⟨.inr ⟨rfl, rfl⟩, List.forall_mem_nil _, List.nil_prefix⟩
  | stops outcome outcomes sent hmore hstops heq =>
    rw [heq]
    exact .inl ⟨rfl, ⟨[], _, rfl, hstops, List.forall_mem_nil _⟩, ⟨outcomes, rfl⟩⟩
  | goesOn outcome outcomes sent hmore hstops call later heq ih =>
    rw [heq]
    rcases ih with h | h
    · obtain ⟨front, last, hcalls, hlast, hfront⟩ := h.calls
      refine .inl ⟨h.result, ⟨call :: front, last, congrArg _ hcalls, hlast, ?_⟩, ?_⟩
      · exact List.forall_mem_cons.2 ⟨hstops, hfront⟩
      · exact List.cons_prefix_cons.2 ⟨rfl, h.taken⟩
    · refine .inr ⟨h.result.imp_right fun hr => ⟨hr.1, congrArg _ hr.2⟩, ?_, ?_⟩
      · exact List.forall_mem_cons.2 ⟨hstops, h.calls⟩
      · exact List.cons_prefix_cons.2 ⟨rfl, h.taken⟩

theorem SendCall.chunk_took (hs : sent ≤ data.length) (extra : Nat) :
    let call : SendCall := ⟨sent, data.length - sent, .took extra⟩
    (span data sent data.length).take (extra + 1) = call.chunk data ∧
      (span data sent data.length).drop (extra + 1) = span data (sent + call.taken) data.length := by
  have hlen := span_length sent (Nat.le_refl data.length)
  simp only [SendCall.chunk, SendCall.taken, span_drop]
  by_cases hshort : extra + 1 ≤ data.length - sent
  · rw [Nat.min_eq_left hshort, span_take (extra + 1) (by omega)]
    exact ⟨rfl, rfl⟩
  · have hall : sent + (data.length - sent) = data.length := by omega
    have hover : data.length ≤ sent + (extra + 1) := by omega
    rw [Nat.min_eq_right (by omega), hall, span_nil (Nat.le_refl data.length), span_nil hover]
    exact ⟨List.take_of_length_le (by omega), rfl⟩

theorem sendAll_nil (outcomes : List SendOutcome) : sendAll outcomes [] = .done outcomes := by
  cases outcomes <;> rfl

/-- Where it returns, the loop is the one that the responses are sent with. -/
theorem sendAllLoop_sendAll {result : Int} (outcomes : List SendOutcome) (hs : sent ≤ data.length)
    (h : (sendAllLoop data.length outcomes sent).result = some result) :
    wire (sendAll outcomes (span data sent data.length)).events =
        handed data (sendAllLoop data.length outcomes sent).calls ∧
      ((sendAll outcomes (span data sent data.length)).ok = true ↔ result = 0) := by
  have hne {sent : Nat} (hmore : sent < data.length) : span data sent data.length ≠ [] := by
    rw [← List.length_pos_iff, span_length sent (Nat.le_refl _)]
    omega
  induction outcomes, sent using sendAllLoop_induct data.length with
  | done outcomes sent hmore heq =>
    rw [heq] at h ⊢
    cases h
    rw [span_nil (Nat.not_lt.1 hmore), sendAll_nil]
    exact ⟨rfl, iff_of_true rfl rfl⟩
  | waits sent hmore heq =>
    rw [heq] at h
    cases h
  | stops outcome outcomes sent hmore hstops heq =>
    rw [heq] at h ⊢
    cases h
    rw [handed_cons, SendCall.chunk_nil (SendCall.taken_of_stops hstops), sendAll.eq_def]
    simp only [if_neg (hne hmore)]
    cases outcome with
    | took extra => cases hstops
    | interrupted => cases hstops
    | zero | failed | broken => exact ⟨rfl, iff_of_false Bool.false_ne_true (by decide)⟩
  | goesOn outcome outcomes sent hmore hstops call later heq ih =>
    rw [heq] at h ⊢
    have hroom : call.taken ≤ data.length - sent := call.taken_le
    obtain ⟨hwire, hok⟩ := ih (Nat.add_le_of_le_sub' hs hroom) h
    rw [handed_cons, ← hwire, sendAll.eq_def]
    simp only [if_neg (hne hmore)]
    cases outcome with
    | took extra =>
      obtain ⟨htake, hdrop⟩ := SendCall.chunk_took hs extra
      simp only [htake, hdrop]
      exact ⟨rfl, hok⟩
    | interrupted =>
      rw [SendCall.chunk_nil rfl]
      exact ⟨rfl, hok⟩
    | zero | failed | broken => cases hstops

end Loop

theorem SendAllRun.StopsAtLast.later {run : SendAllRun} {front later : List SendCall}
    {call : SendCall} (h : run.StopsAtLast outcomes)
    (hcalls : run.calls = front ++ call :: later) (hstops : call.outcome.stops = true) :
    later = [] := by
  obtain ⟨front', last, hcalls', -, hfront⟩ := h.calls
  cases later using List.reverseRecOn with
  | nil => rfl
  | append_singleton later z =>
    have hsame : front ++ call :: later ++ [z] = front' ++ [last] := by
      rw [← hcalls', hcalls, List.append_assoc, List.cons_append]
    have hmem : call ∈ front' := by
      rw [← (List.append_inj' hsame rfl).1]
      exact List.mem_append_right _ List.mem_cons_self
    rw [hfront call hmem] at hstops
    cases hstops

/-- `send_all` hands the socket a prefix of the buffer, each byte once and in order. It returns 0
exactly if that is the whole buffer and -1 exactly if its last call failed or took nothing; no call
is made after such a one, and `EINTR` changes nothing. -/
theorem sendAllLoop_exact (data : Bytes) (outcomes : List SendOutcome) :
    let run := sendAllLoop data.length outcomes 0
    handed data run.calls <+: data ∧
      (∀ call ∈ run.calls, 0 < call.offered ∧ call.offset + call.offered = data.length) ∧
      (run.result = some 0 ↔ handed data run.calls = data) ∧
      (run.result = some (-1) ↔ ∃ call ∈ run.calls, call.outcome.stops = true) ∧
      (∀ front call later, run.calls = front ++ call :: later → call.outcome.stops = true →
        later = []) ∧
      run.calls.map SendCall.outcome <+: outcomes ∧
      (run.result = none → run.calls.map SendCall.outcome = outcomes) ∧
      ∀ result, run.result = some result →
        wire (sendAll outcomes data).events = handed data run.calls ∧
          ((sendAll outcomes data).ok = true ↔ result = 0) := by
  intro run
  obtain ⟨stop, -, hstop, hhanded, hresult⟩ := sendAllLoop_handed outcomes (Nat.zero_le data.length)
  have htaken : handed data run.calls = data.take stop := hhanded
  have hwhole : data.take stop = data ↔ stop = data.length :=
    (List.take_eq_self_iff data).trans ⟨fun h => Nat.le_antisymm hstop h, fun h => Nat.le_of_eq h.symm⟩
  have hreturns := @sendAllLoop_sendAll data 0
  rw [span_whole] at hreturns
  refine ⟨htaken ▸ List.take_prefix stop data, sendAllLoop_offers outcomes data.length 0,
    by rw [htaken, hwhole]; exact hresult, ?_⟩
  rcases sendAllLoop_ends outcomes data.length 0 with h | h
  · obtain ⟨front, last, hcalls, hlast, -⟩ := h.calls
    have hmem : last ∈ run.calls := hcalls ▸ List.mem_append_right _ List.mem_cons_self
    refine ⟨iff_of_true h.result ⟨last, hmem, hlast⟩, fun _ _ _ hc hs => h.later hc hs, h.taken,
      fun hnone => ?_, fun result hr => hreturns outcomes (Nat.zero_le _) hr⟩
    cases h.result.symm.trans hnone
  · have hnever : ¬ ∃ call ∈ run.calls, call.outcome.stops = true := by
      rintro ⟨call, hmem, hs⟩
      rw [h.calls call hmem] at hs
      cases hs
    refine ⟨iff_of_false (fun hr => ?_) hnever, fun front call later hc hs => ?_, h.taken,
      fun hnone => ?_, fun result hr => hreturns outcomes (Nat.zero_le _) hr⟩
    · rcases h.result with hzero | hnone
      · exact absurd (Option.some.inj (hzero.symm.trans hr)) (by decide)
      · cases hnone.1.symm.trans hr
    · exact absurd ⟨call, hc ▸ List.mem_append_right _ List.mem_cons_self, hs⟩ hnever
    · rcases h.result with hzero | hunfinished
      · cases hzero.symm.trans hnone
      · exact hunfinished.2

end Httpd
