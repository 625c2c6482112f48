import Httpd.Lib.Mutex
import Httpd.LogFile
import Mathlib.Logic.Function.Basic

namespace Httpd
open Mutex Transition
set_option autoImplicit true

abbrev LogCall := LocalTime × LogEntry

def LogCall.text (call : LogCall) : Bytes := logLine call.1 call.2 ++ [lf]

/-- Where a thread stands in `access_log_write`; in `printing` it has bytes left to format. -/
inductive LogPoint where
  | outside
  | locking (call : LogCall)
  | printing (call : LogCall) (rest : Bytes)
  | flushing (call : LogCall)

namespace LogPoint

def holds : LogPoint → Bool
  | .printing .. | .flushing _ => true
  | _ => false

def rest : LogPoint → Bytes
  | .printing _ rest => rest
  | _ => []

def text : LogPoint → Bytes
  | .printing call _ | .flushing call => call.text
  | _ => []

end LogPoint

/-- The log with the threads that write it. What is on the disk is `file`; `made` lists the calls
of a thread that have returned and `written` those of all threads, in the order they were done. -/
structure LogState (ι : Type) where
  points : ι → LogPoint
  owner : Option ι
  buffer : Bytes
  file : Bytes
  made : ι → List LogCall
  written : List (ι × LogCall)

inductive LogAction (ι : Type) where
  | enter (i : ι) (call : LogCall)
  | lock (i : ι)
  | print (i : ι) (extra : Nat)
  | write (i : ι) (extra : Nat)
  | printed (i : ι)
  | unlock (i : ι)

namespace LogState

variable {ι : Type} [DecidableEq ι]

def opened (existing : Bytes) : LogState ι where
  points := fun _ => .outside
  owner := none
  buffer := []
  file := existing
  made := fun _ => []
  written := []

def move (s : LogState ι) (i : ι) (point : LogPoint) : LogState ι :=
  { s with points := Function.update s.points i point }

/-- `fprintf` fills the buffer of the stream piece by piece; a buffer may be written to the file at
any time, and has been when `fflush` returns. -/
def next (s : LogState ι) : LogAction ι → Option (LogState ι)
  | .enter i call =>
    match s.points i with
    | .outside => some (s.move i (.locking call))
    | _ => none
  | .lock i =>
    match s.points i with
    | .locking call =>
      if s.owner = none then some { s.move i (.printing call call.text) with owner := some i }
      else none
    | _ => none
  | .print i extra =>
    match s.points i with
    | .printing call rest =>
      some { s.move i (.printing call (rest.drop (extra + 1))) with
        buffer := s.buffer ++ rest.take (extra + 1) }
    | _ => none
  | .write i extra =>
    if (s.points i).holds then
      some { s with
        file := s.file ++ s.buffer.take (extra + 1), buffer := s.buffer.drop (extra + 1) }
    else none
  | .printed i =>
    match s.points i with
    | .printing call [] => some (s.move i (.flushing call))
    | _ => none
  | .unlock i =>
    match s.points i with
    | .flushing call =>
      if s.buffer = [] then
        some { s.move i .outside with
          owner := none
          made := Function.update s.made i (s.made i ++ [call])
          written := s.written ++ [(i, call)] }
      else none
    | _ => none

def Step (s : LogState ι) (a : LogAction ι) (t : LogState ι) : Prop := s.next a = some t

def whole (existing : Bytes) (s : LogState ι) : Bytes :=
  existing ++ logFile (s.written.map Prod.snd)

/-- What every step keeps: one thread writes at a time, the file lacks of its line just what it has
not written yet, and every thread has its calls in order. -/
structure Intact (existing : Bytes) (s : LogState ι) : Prop where
  owner : Exclusive s.owner fun i => (s.points i).holds
  free : s.owner = none → s.buffer = [] ∧ s.file = s.whole existing
  busy : ∀ i, s.owner = some i → ∃ part, s.file = s.whole existing ++ part ∧
    part ++ (s.buffer ++ (s.points i).rest) = (s.points i).text
  made : ∀ i, (s.written.filter fun w => w.1 = i).map Prod.snd = s.made i

theorem logFile_concat (calls : List LogCall) (call : LogCall) :
    logFile (calls ++ [call]) = logFile calls ++ call.text := by
  rw [logFile, List.foldl_append]
  rfl

variable {existing : Bytes} {s t : LogState ι}

theorem intact_opened (existing : Bytes) : (opened existing : LogState ι).Intact existing := by
  constructor
  · exact exclusive_none fun _ => rfl
  · exact fun _ => ⟨rfl, (List.append_nil existing).symm⟩
  · exact fun i h => by cases h
  · exact fun i => rfl

theorem Intact.outside (h : s.Intact existing) (hi : (s.points i).holds = false)
    (hp : point.holds = false) : (s.move i point).Intact existing := by
  have hne : s.owner ≠ some i := by
    intro ho
    have hholds : (s.points i).holds = true := (h.owner i).1 ho
    rw [hi] at hholds
    cases hholds
  constructor
  · apply h.owner.handover (i := i) .keep
    · change (Function.update s.points i point i).holds = _
      rw [Function.update_self, hp]
      exact hi.symm
    · intro j hj
      change (Function.update s.points i point j).holds = _
      rw [Function.update_of_ne hj]
  · exact h.free
  · intro j hj
    have hji : j ≠ i := fun he => hne (he ▸ hj)
    change ∃ part, _ ∧ part ++ (s.buffer ++ (Function.update s.points i point j).rest) =
      (Function.update s.points i point j).text
    rw [Function.update_of_ne hji]
    exact h.busy j hj
  · exact h.made

theorem Intact.holder (h : s.Intact existing) (hi : s.points i = point)
    (hp : point.holds = true) : s.owner = some i := by
  apply (h.owner i).2
  rw [← hi] at hp
  exact hp

theorem Intact.inside (buffer file : Bytes) (h : s.Intact existing) (ho : s.owner = some i)
    (hp : point.holds = true)
    (hf : ∃ part, file = s.whole existing ++ part ∧ part ++ (buffer ++ point.rest) = point.text) :
    Intact existing { s.move i point with buffer := buffer, file := file } := by
  constructor
  · apply h.owner.handover (i := i) .keep
    · change (Function.update s.points i point i).holds = (s.points i).holds
      rw [Function.update_self, hp]
      exact ((h.owner i).1 ho).symm
    · intro j hj
      change (Function.update s.points i point j).holds = _
      rw [Function.update_of_ne hj]
  · intro hnone
    cases ho.symm.trans hnone
  · intro j hj
    cases ho.symm.trans hj
    change ∃ part, _ ∧ part ++ (buffer ++ (Function.update s.points i point i).rest) =
      (Function.update s.points i point i).text
    rw [Function.update_self]
    exact hf
  · exact h.made

theorem Intact.lock {call : LogCall} (i : ι) (h : s.Intact existing) (ho : s.owner = none) :
    Intact existing { s.move i (.printing call call.text) with owner := some i } := by
  obtain ⟨hbuffer, hfile⟩ := h.free ho
  constructor
  · apply h.owner.handover (i := i) (.acquire ho)
    · change (Function.update s.points i _ i).holds = true
      rw [Function.update_self]
      rfl
    · intro j hj
      change (Function.update s.points i _ j).holds = _
      rw [Function.update_of_ne hj]
  · exact nofun
  · intro j hj
    cases hj
    change ∃ part, _ ∧ part ++ (s.buffer ++ (Function.update s.points i _ i).rest) =
      (Function.update s.points i _ i).text
    rw [Function.update_self, hbuffer]
    exact ⟨[], hfile.trans (List.append_nil _).symm, rfl⟩
  · exact h.made

theorem Intact.unlock {call : LogCall} (h : s.Intact existing) (hi : s.points i = .flushing call)
    (hb : s.buffer = []) :
    Intact existing { s.move i .outside with
      owner := none
      made := Function.update s.made i (s.made i ++ [call])
      written := s.written ++ [(i, call)] } := by
  have hholds : (s.points i).holds = true := by
    rw [hi]
    rfl
  have ho : s.owner = some i := h.holder hi rfl
  constructor
  · apply h.owner.handover (i := i) (.release hholds)
    · change (Function.update s.points i .outside i).holds = false
      rw [Function.update_self]
      rfl
    · intro j hj
      change (Function.update s.points i .outside j).holds = _
      rw [Function.update_of_ne hj]
  · intro _
    refine ⟨hb, ?_⟩
    obtain ⟨part, hfile, hpart⟩ := h.busy i ho
    rw [hb, hi] at hpart
    have htext : part = call.text := (List.append_nil part).symm.trans hpart
    change s.file = existing ++ logFile ((s.written ++ [(i, call)]).map Prod.snd)
    rw [hfile, whole, htext, List.map_append, List.append_assoc]
    exact congrArg (existing ++ ·) (logFile_concat _ _).symm
  · exact fun j hj => by cases hj
  · intro j
    change ((s.written ++ [(i, call)]).filter fun w => w.1 = j).map Prod.snd =
      Function.update s.made i (s.made i ++ [call]) j
    rw [List.filter_append, List.map_append, h.made j]
    by_cases hj : j = i
    · subst hj
      rw [Function.update_self, List.filter_singleton, decide_eq_true rfl]
      rfl
    · rw [Function.update_of_ne hj, List.filter_singleton, decide_eq_false (Ne.symm hj)]
      exact List.append_nil _

theorem Intact.step (h : s.Intact existing) (hs : Step s a t) : t.Intact existing := by
  cases a with
  | enter i call =>
    simp only [Step, next] at hs
    split at hs
    · rename_i hi
      cases hs
      exact h.outside (by rw [hi]; rfl) rfl
    · cases hs
  | lock i =>
    simp only [Step, next] at hs
    split at hs
    · rename_i call hi
      split at hs
      · rename_i ho
        cases hs
        exact h.lock i ho
      · cases hs
    · cases hs
  | print i extra =>
    simp only [Step, next] at hs
    split at hs
    · rename_i call rest hi
      cases hs
      have ho : s.owner = some i := h.holder hi rfl
      obtain ⟨part, hfile, hpart⟩ := h.busy i ho
      rw [hi] at hpart
      apply h.inside _ _ ho rfl
      refine ⟨part, hfile, ?_⟩
      change part ++ (s.buffer ++ rest.take (extra + 1) ++ rest.drop (extra + 1)) = call.text
      rw [List.append_assoc s.buffer, List.take_append_drop]
      exact hpart
    · cases hs
  | write i extra =>
    simp only [Step, next] at hs
    split at hs
    · rename_i hi
      cases hs
      have ho : s.owner = some i := (h.owner i).2 hi
      obtain ⟨part, hfile, hpart⟩ := h.busy i ho
      have hsame : s.move i (s.points i) = s := by
        rw [move, Function.update_eq_self]
      have hinside := h.inside (s.buffer.drop (extra + 1)) (s.file ++ s.buffer.take (extra + 1)) ho
        hi ⟨part ++ s.buffer.take (extra + 1), ?_, ?_⟩
      · rw [hsame] at hinside
        exact hinside
      · rw [hfile, List.append_assoc]
      · rw [List.append_assoc, ← List.append_assoc (s.buffer.take _), List.take_append_drop]
        exact hpart
    · cases hs
  | printed i =>
    simp only [Step, next] at hs
    split at hs
    · rename_i call hi
      cases hs
      have ho : s.owner = some i := h.holder hi rfl
      have hpart := h.busy i ho
      rw [hi] at hpart
      exact h.inside s.buffer s.file ho rfl hpart
    · cases hs
  | unlock i =>
    simp only [Step, next] at hs
    split at hs
    · rename_i call hi
      split at hs
      · rename_i hb
        cases hs
        exact h.unlock hi hb
      · cases hs
    · cases hs

theorem readLogLine_logFile {calls : List LogCall}
    (hcalls : ∀ call ∈ calls, PlainAddress call.2.clientIp ∧ lf ∉ cstr call.2.requestLine) :
    (logLines (logFile calls)).map readLogLine = calls.map fun call => call.2.record := by
  have hclean : ∀ line ∈ calls.map (fun call => logLine call.1 call.2), lf ∉ line := by
    intro line hline
    obtain ⟨call, hcall, rfl⟩ := List.mem_map.1 hline
    exact (lf_notMem_logLine (hcalls call hcall).1 call.1).2 (hcalls call hcall).2
  have hlines : logLines (logFile calls) = calls.map fun call => logLine call.1 call.2 := by
    rw [logFile_eq, ← logLines_flatMap hclean, List.flatMap_map]
  rw [hlines, List.map_map]
  apply List.map_congr_left
  intro call hcall
  exact readLogLine_logLine (hcalls call hcall).1 call.1

end LogState

/-- Whatever the threads do in whatever order, and whenever the process dies, the log file is what
it held at first, the lines of the calls that have returned, whole, in one order that keeps the
order of each thread, and of one more line at most a beginning, which is that of the thread inside
the critical section. While none is inside, the calls can be read back from a new file, if no
request line brings a line feed. -/
theorem accessLog_linearizes {ι : Type} [DecidableEq ι] (existing : Bytes)
    (as : List (LogAction ι)) (s : LogState ι) (hrun : Run LogState.Step (.opened existing) as s) :
    (∃ part, s.file = existing ++ logFile (s.written.map Prod.snd) ++ part ∧
        (s.owner = none → part = []) ∧
        ∀ i, s.owner = some i → part <+: (s.points i).text) ∧
      (∀ i, s.owner = some i ↔ (s.points i).holds = true) ∧
      (∀ i, (s.written.filter fun w => w.1 = i).map Prod.snd = s.made i) ∧
      (existing = [] → s.owner = none →
        (∀ w ∈ s.written, PlainAddress w.2.2.clientIp ∧ lf ∉ cstr w.2.2.requestLine) →
        (logLines s.file).map readLogLine = s.written.map fun w => w.2.2.record) := by
  have h : s.Intact existing :=
    hrun.invariant (fun _ _ _ hi hs => hi.step hs) (LogState.intact_opened existing)
  refine ⟨?_, h.owner, h.made, ?_⟩
  · cases ho : s.owner with
    | none =>
      refine ⟨[], ?_, fun _ => rfl, nofun⟩
      rw [(h.free ho).2, List.append_nil]
      rfl
    | some i =>
      obtain ⟨part, hfile, hpart⟩ := h.busy i ho
      refine ⟨part, hfile, nofun, fun j hj => ?_⟩
      cases hj
      exact ⟨_, hpart⟩
  · intro he ho hwritten
    rw [(h.free ho).2, LogState.whole, he, List.nil_append, LogState.readLogLine_logFile]
    · exact List.map_map ..
    · intro call hcall
      obtain ⟨w, hw, rfl⟩ := List.mem_map.1 hcall
      exact hwritten w hw

/-- Two threads; the one that came second has written its line, and the process dies while the
first is at its own. -/
theorem accessLog_linearizes_killed : ∃ s : LogState Bool, s.owner = some false ∧
    s.written.map Prod.fst = [true] ∧ ∃ part, s.file = logFile (s.written.map Prod.snd) ++ part ∧
      part <+: (s.points false).text := by
  let first : LogCall := (newYear, ⟨ascii "127.0.0.1", ascii "GET / HTTP/1.1", 200, 6⟩)
  let second : LogCall := (newYear, ⟨ascii "127.0.0.2", ascii "GET /a HTTP/1.1", 404, 14⟩)
  let as : List (LogAction Bool) :=
    [.enter false first, .enter true second, .lock true, .print true 20, .write true 9,
      .print true 99, .printed true, .write true 99, .unlock true, .lock false, .print false 30,
      .write false 4]
  have hpairs : (follow LogState.next (.opened []) as).map
      (fun s => (s.owner, s.written.map Prod.fst)) = some (some false, [true]) := by decide +kernel
  obtain ⟨s, hs, he⟩ := Option.map_eq_some_iff.1 hpairs
  have ho : s.owner = some false := congrArg Prod.fst he
  obtain ⟨⟨part, hfile, _, hpart⟩, _⟩ := accessLog_linearizes [] as s (run_of_follow hs)
  exact ⟨s, ho, congrArg Prod.snd he, part, hfile, hpart false ho⟩

end Httpd
