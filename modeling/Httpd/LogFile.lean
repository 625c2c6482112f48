import Httpd.AccessLog
import Httpd.Numerals

namespace Httpd
open PathSegments Scan
set_option autoImplicit true

structure LocalTime where
  day : Nat
  month : Fin 12
  year : Nat
  hour : Nat
  minute : Nat
  second : Nat
  west : Bool
  offsetHours : Nat
  offsetMinutes : Nat
  year_le : year ≤ intMax + 1900

def monthNames : List String :=
  ["Jan", "Feb", "Mar", "Apr", "May", "Jun", "Jul", "Aug", "Sep", "Oct", "Nov", "Dec"]

def twoDigits (n : Nat) : Bytes := [UInt8.ofNat (48 + n / 10 % 10), UInt8.ofNat (48 + n % 10)]

/-- `strftime` with `"%d/%b/%Y:%H:%M:%S %z"` in the C locale. -/
def timestamp (t : LocalTime) : Bytes :=
  twoDigits t.day ++ 47 :: (ascii (monthNames.get t.month) ++ 47 :: (decimal t.year ++
    58 :: (twoDigits t.hour ++ 58 :: (twoDigits t.minute ++ 58 :: (twoDigits t.second ++
      32 :: (if t.west then 45 else 43) :: (twoDigits t.offsetHours ++ twoDigits t.offsetMinutes))))))

/-- What the format of `access_log_write` expands to, up to the line feed. -/
def logLine (t : LocalTime) (entry : LogEntry) : Bytes :=
  cstr entry.clientIp ++ ascii " - - [" ++ timestamp t ++ ascii "] \"" ++ cstr entry.requestLine ++
    ascii "\" " ++ decimal entry.result.statusCode ++ 32 :: decimal entry.result.bodyBytes.toNat

def accessLogWrite (file : Bytes) (t : LocalTime) (entry : LogEntry) : Bytes :=
  file ++ (logLine t entry ++ [lf])

def logFile (calls : List (LocalTime × LogEntry)) : Bytes :=
  calls.foldl (fun file call => accessLogWrite file call.1 call.2) []

def logLines (file : Bytes) : List Bytes := (segments lf file).dropLast

structure LogRecord where
  clientIp : Bytes
  requestLine : Bytes
  statusCode : Nat
  bytesSent : Nat
  deriving DecidableEq

def LogEntry.record (entry : LogEntry) : LogRecord where
  clientIp := entry.clientIp
  requestLine := cstr entry.requestLine
  statusCode := entry.result.statusCode
  bytesSent := entry.result.bodyBytes.toNat

/-- Reads a line of the log: the address and the time from its start, the numbers from its end. -/
def readLogLine (line : Bytes) : LogRecord :=
  let clientIp := line.takeWhile (· ≠ 32)
  let afterTime := ((line.drop (clientIp.length + 6)).dropWhile (· ≠ 93)).drop 3
  let fromEnd := afterTime.reverse
  let beforeBytes := (fromEnd.dropWhile (· ≠ 32)).drop 1
  { clientIp := clientIp
    requestLine := ((beforeBytes.dropWhile (· ≠ 32)).drop 2).reverse
    statusCode := numeralValue (beforeBytes.takeWhile (· ≠ 32)).reverse
    bytesSent := numeralValue (fromEnd.takeWhile (· ≠ 32)).reverse }

/-- A numeric address, or a dash: it has no spaces and no control characters. -/
def PlainAddress (clientIp : Bytes) : Prop := ∀ c ∈ clientIp, 32 < c

instance : DecidablePred PlainAddress :=
  fun clientIp => inferInstanceAs (Decidable (∀ c ∈ clientIp, 32 < c))

theorem twoDigits_digits {c : UInt8} (h : c ∈ twoDigits n) : 48 ≤ c ∧ c ≤ 57 := by
  have hall : ∀ d < 10, (48 : UInt8) ≤ UInt8.ofNat (48 + d) ∧ UInt8.ofNat (48 + d) ≤ 57 := by
    decide
  rcases List.mem_cons.1 h with rfl | h
  · exact hall _ (Nat.mod_lt _ (by decide))
  · rw [List.mem_singleton.1 h]
    exact hall _ (Nat.mod_lt _ (by decide))

theorem monthNames_plain :
    ∀ month : Fin 12, ∀ c ∈ ascii (monthNames.get month), c ≠ lf ∧ c ≠ 93 := by decide +kernel

theorem timestamp_plain (t : LocalTime) : ∀ c ∈ timestamp t, c ≠ lf ∧ c ≠ 93 := by
  have hdigit : ∀ c : UInt8, 48 ≤ c ∧ c ≤ 57 → c ≠ lf ∧ c ≠ 93 := by
    rintro c ⟨hlow, hhigh⟩
    constructor
    · rintro rfl
      exact absurd hlow (by decide)
    · rintro rfl
      exact absurd hhigh (by decide)
  have htwo : ∀ n, ∀ c ∈ twoDigits n, c ≠ lf ∧ c ≠ 93 :=
    fun _ c hc => hdigit c (twoDigits_digits hc)
  have hyear : ∀ c ∈ decimal t.year, c ≠ lf ∧ c ≠ 93 := fun c hc => hdigit c (decimal_digits hc)
  have hmonth := monthNames_plain t.month
  have hsign : ∀ west : Bool, (if west then 45 else 43 : UInt8) ≠ lf ∧
      (if west then 45 else 43 : UInt8) ≠ 93 := by decide
  simp only [timestamp, List.forall_mem_append, List.forall_mem_cons]
  exact ⟨htwo _, by decide, hmonth, by decide, hyear, by decide, htwo _, by decide, htwo _,
    by decide, htwo _, by decide, hsign t.west, htwo _, htwo _⟩

theorem PlainAddress.notMem (h : PlainAddress clientIp) {c : UInt8} (hc : c ≤ 32) : c ∉ clientIp :=
  fun hm => absurd (h c hm) (UInt8.not_lt.2 hc)

theorem lf_notMem_decimal (n : Nat) : lf ∉ decimal n :=
  fun h => absurd (decimal_digits h).1 (by decide)

theorem space_notMem_decimal (n : Nat) : 32 ∉ decimal n :=
  fun h => absurd (decimal_digits h).1 (by decide)

/-- Only the request line can bring a line feed into a line of the log. -/
theorem lf_notMem_logLine {entry : LogEntry} (hip : PlainAddress entry.clientIp) (t : LocalTime) :
    lf ∉ logLine t entry ↔ lf ∉ cstr entry.requestLine := by
  have haddress : lf ∉ cstr entry.clientIp := by
    rw [cstr_eq_of_notMem (hip.notMem (by decide))]
    exact hip.notMem (by decide)
  have htime : lf ∉ timestamp t := fun h => (timestamp_plain t lf h).1 rfl
  have hstatus := lf_notMem_decimal entry.result.statusCode
  have hbytes := lf_notMem_decimal entry.result.bodyBytes.toNat
  have hdash : lf ∉ ascii " - - [" := by decide
  have hquote : lf ∉ ascii "] \"" := by decide
  have hend : lf ∉ ascii "\" " := by decide
  have hspace : lf ≠ 32 := by decide
  simp only [logLine, List.mem_append, List.mem_cons, not_or]
  exact ⟨fun h => h.1.1.1.2, fun h =>
    ⟨⟨⟨⟨⟨⟨⟨haddress, hdash⟩, htime⟩, hquote⟩, h⟩, hend⟩, hstatus⟩, hspace, hbytes⟩⟩

theorem readLogLine_afterTime {clientIp time : Bytes} (hip : 32 ∉ clientIp) (ht : 93 ∉ time)
    (rest : Bytes) :
    let line := clientIp ++ ascii " - - [" ++ time ++ ascii "] \"" ++ rest
    line.takeWhile (· ≠ 32) = clientIp ∧
      ((line.drop (clientIp.length + 6)).dropWhile (· ≠ 93)).drop 3 = rest := by
  have hdash : ascii " - - [" = 32 :: [45, 32, 45, 32, 91] := by decide
  have hquote : ascii "] \"" = 93 :: [32, 34] := by decide
  have hdrop : ∀ later : Bytes, (clientIp ++ (ascii " - - [" ++ later)).drop (clientIp.length + 6) =
      later := by
    intro later
    rw [← List.drop_drop, List.drop_left, hdash]
    rfl
  simp only [List.append_assoc, hdrop]
  constructor
  · rw [hdash]
    exact takeWhile_append_stop hip _
  · rw [hquote, List.cons_append, dropWhile_append_stop ht]
    rfl

theorem reverse_split (request status bytes : Bytes) :
    (request ++ ascii "\" " ++ status ++ 32 :: bytes).reverse =
      bytes.reverse ++ 32 :: (status.reverse ++ 32 :: 34 :: request.reverse) := by
  have hend : ascii "\" " = [34, 32] := by decide
  simp only [hend, List.reverse_append, List.reverse_cons, List.append_assoc,
    List.nil_append, List.cons_append]

theorem readLogLine_logLine {entry : LogEntry} (hip : PlainAddress entry.clientIp) (t : LocalTime) :
    readLogLine (logLine t entry) = entry.record := by
  have haddress : cstr entry.clientIp = entry.clientIp :=
    cstr_eq_of_notMem (hip.notMem (by decide))
  have hbracket : 93 ∉ timestamp t := fun h => (timestamp_plain t 93 h).2 rfl
  have hstatus : 32 ∉ (decimal entry.result.statusCode).reverse :=
    fun h => space_notMem_decimal _ (List.mem_reverse.1 h)
  have hbytes : 32 ∉ (decimal entry.result.bodyBytes.toNat).reverse :=
    fun h => space_notMem_decimal _ (List.mem_reverse.1 h)
  obtain ⟨hip', hafter⟩ := readLogLine_afterTime (hip.notMem (by decide)) hbracket
    (cstr entry.requestLine ++ ascii "\" " ++ decimal entry.result.statusCode ++
      32 :: decimal entry.result.bodyBytes.toNat)
  have hline : logLine t entry = entry.clientIp ++ ascii " - - [" ++ timestamp t ++ ascii "] \"" ++
      (cstr entry.requestLine ++ ascii "\" " ++ decimal entry.result.statusCode ++
        32 :: decimal entry.result.bodyBytes.toNat) := by
    simp only [logLine, haddress, List.append_assoc]
  simp only [readLogLine, hline, hip', hafter, reverse_split, dropWhile_append_stop hbytes,
    takeWhile_append_stop hbytes, List.drop_succ_cons, List.drop_zero,
    dropWhile_append_stop hstatus, takeWhile_append_stop hstatus, List.reverse_reverse,
    numeralValue_decimal]
  rfl

theorem logFile_eq (calls : List (LocalTime × LogEntry)) :
    logFile calls = calls.flatMap fun call => logLine call.1 call.2 ++ [lf] := by
  have hfold : ∀ file, calls.foldl (fun file call => accessLogWrite file call.1 call.2) file =
      file ++ calls.flatMap fun call => logLine call.1 call.2 ++ [lf] := by
    induction calls with
    | nil => exact fun file => (List.append_nil file).symm
    | cons call calls ih =>
      intro file
      rw [List.foldl_cons, ih, List.flatMap_cons, accessLogWrite, List.append_assoc]
  exact (hfold []).trans (List.nil_append _)

theorem logLines_flatMap {lines : List Bytes} (h : ∀ line ∈ lines, lf ∉ line) :
    logLines (lines.flatMap (· ++ [lf])) = lines := by
  have hsegments : segments lf (lines.flatMap (· ++ [lf])) = lines ++ [[]] := by
    induction lines with
    | nil => rfl
    | cons line lines ih =>
      obtain ⟨hline, hlines⟩ := List.forall_mem_cons.1 h
      rw [List.flatMap_cons, List.append_assoc, List.singleton_append, segments_append_sep,
        segments_of_notMem lf hline, ih hlines]
      rfl
  rw [logLines, hsegments, List.dropLast_concat]

/-- The log has one line for each call, in the order of the calls, from which the calls can be
read back, exactly if no request line holds a line feed. -/
theorem logFile_records (calls : List (LocalTime × LogEntry))
    (hip : ∀ call ∈ calls, PlainAddress call.2.clientIp) :
    (logLines (logFile calls) = calls.map (fun call => logLine call.1 call.2) ∧
      (logLines (logFile calls)).map readLogLine = calls.map fun call => call.2.record) ↔
    ∀ call ∈ calls, lf ∉ cstr call.2.requestLine := by
  constructor
  · rintro ⟨hlines, _⟩ call hcall
    have hmem : logLine call.1 call.2 ∈ logLines (logFile calls) := by
      rw [hlines]
      exact List.mem_map.2 ⟨call, hcall, rfl⟩
    have hsegment := sep_notMem_of_mem_segments lf (List.mem_of_mem_dropLast hmem)
    exact (lf_notMem_logLine (hip call hcall) call.1).1 hsegment
  · intro h
    have hclean : ∀ line ∈ calls.map (fun call => logLine call.1 call.2), lf ∉ line := by
      intro line hline
      obtain ⟨call, hcall, rfl⟩ := List.mem_map.1 hline
      exact (lf_notMem_logLine (hip call hcall) call.1).2 (h call hcall)
    have hlines : logLines (logFile calls) = calls.map fun call => logLine call.1 call.2 := by
      rw [logFile_eq, ← logLines_flatMap hclean, List.flatMap_map]
    refine ⟨hlines, ?_⟩
    rw [hlines, List.map_map]
    apply List.map_congr_left
    intro call hcall
    exact readLogLine_logLine (hip call hcall) call.1

def newYear : LocalTime where
  day := 1
  month := 0
  year := 2026
  hour := 0
  minute := 0
  second := 0
  west := false
  offsetHours := 7
  offsetMinutes := 0
  year_le := by decide

def quotedCalls : List (LocalTime × LogEntry) :=
  [(newYear, ⟨ascii "127.0.0.1", ascii "GET / HTTP/1.1", 200, 6⟩),
    (newYear, ⟨ascii "-", ascii "x\" 200 6", 400, 12⟩)]

theorem logFile_records_quoted :
    (logLines (logFile quotedCalls)).map readLogLine = quotedCalls.map fun call => call.2.record :=
  ((logFile_records quotedCalls (by decide +kernel)).2 (by decide +kernel)).2

def forger : Connection :=
  { pageConnection with
    arrivals := [.data 120
      (ascii "\" 200 0\n10.0.0.9 - - [01/Jan/2026:00:00:00 +0700] \"GET /secret HTTP/1.1\r\n\r\n")]
    outcomes := [] }

def forgerCalls : List (LocalTime × LogEntry) :=
  (accessLog (handleClient forger)).map fun entry => (newYear, entry)

/-- The one call for this client leaves two lines, and the second reads as a request of another. -/
theorem forger_log :
    (logLines (logFile forgerCalls)).map readLogLine =
        [⟨ascii "-", ascii "x", 200, 0⟩, ⟨ascii "10.0.0.9", ascii "GET /secret HTTP/1.1", 400, 12⟩] ∧
      ¬ (logLines (logFile forgerCalls) = forgerCalls.map (fun call => logLine call.1 call.2) ∧
        (logLines (logFile forgerCalls)).map readLogLine =
          forgerCalls.map fun call => call.2.record) := by
  have hread : (logLines (logFile forgerCalls)).map readLogLine =
      [⟨ascii "-", ascii "x", 200, 0⟩,
        ⟨ascii "10.0.0.9", ascii "GET /secret HTTP/1.1", 400, 12⟩] := by
    decide +kernel
  have hcalls : forgerCalls.length = 1 := by decide +kernel
  refine ⟨hread, fun h => ?_⟩
  have hlen := congrArg List.length h.2
  rw [hread, List.length_map, hcalls] at hlen
  cases hlen

end Httpd
