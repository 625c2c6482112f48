import Httpd.StreamFraming
import Httpd.MessageHead

namespace Httpd
open Scan
set_option autoImplicit true

structure FirstLine (raw line rest : Bytes) : Prop where
  bytes : raw = line ++ (crlf ++ rest)
  first : ¬ crlf <:+: line

theorem FirstLine.findCrlf (h : FirstLine raw line rest) : findCrlf raw = some line.length := by
  obtain ⟨rfl, hfirst⟩ := h
  induction line with
  | nil => rfl
  | cons c line ih =>
    have hrest : ¬ crlf <:+: line := fun hi => hfirst (List.infix_cons hi)
    have hhead : ¬ crlf <+: c :: (line ++ (crlf ++ rest)) := by
      intro hp
      obtain ⟨rfl, hlf⟩ := List.cons_prefix_cons.1 hp
      cases line with
      | nil =>
        have hne : lf ≠ cr := by decide
        exact hne (List.cons_prefix_cons.1 hlf).1
      | cons d line =>
        obtain ⟨rfl, _⟩ := List.cons_prefix_cons.1 hlf
        exact hfirst (List.IsPrefix.isInfix ⟨line, rfl⟩)
    have hline := ih hrest
    unfold Httpd.findCrlf at hline ⊢
    rw [List.cons_append, firstOccurrence, if_neg hhead, hline]
    rfl

theorem firstLine_of_findCrlf {raw : Bytes} (h : findCrlf raw = some n) :
    FirstLine raw (raw.take n) (raw.drop (n + 2)) := by
  have hne : crlf ≠ [] := List.cons_ne_nil _ _
  have hfirst : ¬ crlf <:+: raw.take n :=
    firstOccurrence_first hne h (Nat.lt_add_of_pos_right (Nat.succ_pos 1))
  obtain ⟨u, v, hraw, rfl⟩ := firstOccurrence_spec h
  constructor
  · rw [hraw, List.append_assoc, List.take_left, ← List.drop_drop, List.drop_left]
    rfl
  · exact hfirst

/-- The lines that the loop of `parse_headers` visits, and the bytes it has left when it stops. -/
def headerLinesLoop : Nat → Bytes → List Bytes × Bytes
  | 0, headers => ([], headers)
  | fuel + 1, headers =>
    match findCrlf headers with
    | none => ([], headers)
    | some 0 => ([], headers)
    | some lineLen =>
      let (lines, left) := headerLinesLoop fuel (headers.drop (lineLen + 2))
      (headers.take lineLen :: lines, left)

def headerLines (headers : Bytes) : List Bytes × Bytes := headerLinesLoop headers.length headers

theorem parseHeaders_foldl (headers : Bytes) (request : HttpRequest) :
    parseHeaders headers request =
      (headerLines headers).1.foldl (fun request line => parseHeaderLine line request) request := by
  unfold parseHeaders headerLines
  generalize headers.length = fuel
  induction fuel generalizing headers request with
  | zero => rfl
  | succ fuel ih =>
    simp only [parseHeadersLoop, headerLinesLoop]
    cases findCrlf headers with
    | none => rfl
    | some n =>
      cases n with
      | zero => rfl
      | succ n => exact ih (headers.drop (n + 1 + 2)) (parseHeaderLine (headers.take (n + 1)) request)

def HeaderLine (line : Bytes) : Prop := line ≠ [] ∧ ¬ crlf <:+: line

theorem headerLinesLoop_lines {lines : List Bytes} (hl : ∀ line ∈ lines, HeaderLine line)
    (htail : ∀ fuel, headerLinesLoop fuel tail = ([], tail))
    (hf : (lines.flatMap (· ++ crlf) ++ tail).length ≤ fuel) :
    headerLinesLoop fuel (lines.flatMap (· ++ crlf) ++ tail) = (lines, tail) := by
  induction lines generalizing fuel with
  | nil => exact htail fuel
  | cons line lines ih =>
    obtain ⟨hne, hfirst⟩ := hl line List.mem_cons_self
    have hline : FirstLine ((line :: lines).flatMap (· ++ crlf) ++ tail) line
        (lines.flatMap (· ++ crlf) ++ tail) := by
      refine ⟨?_, hfirst⟩
      rw [List.flatMap_cons, List.append_assoc, List.append_assoc]
    have hlen := congrArg List.length hline.bytes
    simp only [List.length_append] at hlen hf
    have htwo : crlf.length = 2 := rfl
    have hdrop : ((line :: lines).flatMap (· ++ crlf) ++ tail).drop (line.length + 2) =
        lines.flatMap (· ++ crlf) ++ tail := by
      rw [hline.bytes, ← List.drop_drop, List.drop_left]
      rfl
    have htake : ((line :: lines).flatMap (· ++ crlf) ++ tail).take line.length = line := by
      rw [hline.bytes, List.take_left]
    cases fuel with
    | zero => omega
    | succ fuel =>
      have hrest : headerLinesLoop fuel (lines.flatMap (· ++ crlf) ++ tail) = (lines, tail) := by
        apply ih fun l hm => hl l (List.mem_cons_of_mem _ hm)
        rw [List.length_append]
        omega
      obtain ⟨k, hk⟩ := Nat.exists_eq_succ_of_ne_zero fun h => hne (List.length_eq_zero_iff.1 h)
      have hfind := hline.findCrlf
      rw [hk] at hfind htake hdrop
      simp only [headerLinesLoop, hfind, Nat.succ_eq_add_one, htake, hdrop, hrest]

theorem headerLines_head {lines : List Bytes} (hl : ∀ line ∈ lines, HeaderLine line)
    (rest : Bytes) : headerLines (headText lines ++ rest) = (lines, crlf ++ rest) := by
  have hstop : ∀ fuel, headerLinesLoop fuel (crlf ++ rest) = ([], crlf ++ rest) := by
    intro fuel
    cases fuel <;> rfl
  rw [headText, List.append_assoc]
  exact headerLinesLoop_lines hl hstop (Nat.le_refl _)

/-- Header lines, each ended by CRLF, and behind them an empty line or no further CRLF. -/
structure HeaderBlock (block : Bytes) (lines : List Bytes) (tail : Bytes) : Prop where
  bytes : block = lines.flatMap (· ++ crlf) ++ tail
  each : ∀ line ∈ lines, HeaderLine line
  ended : crlf <+: tail ∨ ¬ crlf <:+: tail

theorem HeaderBlock.headerLines (h : HeaderBlock block lines tail) :
    headerLines block = (lines, tail) := by
  have hstop : ∀ fuel, headerLinesLoop fuel tail = ([], tail) := by
    intro fuel
    cases fuel with
    | zero => rfl
    | succ fuel =>
      rw [headerLinesLoop]
      rcases h.ended with ⟨rest, hrest⟩ | hno
      · rw [← hrest]
        rfl
      · cases hfind : findCrlf tail with
        | none => rfl
        | some n => exact absurd (firstOccurrence_occurs hfind) hno
  rw [h.bytes]
  exact headerLinesLoop_lines h.each hstop (Nat.le_refl _)

theorem exists_headerBlock (block : Bytes) : ∃ lines tail, HeaderBlock block lines tail := by
  induction hn : block.length using Nat.strongRecOn generalizing block with
  | ind n ih =>
    cases hfind : findCrlf block with
    | none =>
      refine ⟨[], block, rfl, List.forall_mem_nil _, .inr fun hi => ?_⟩
      obtain ⟨i, hi⟩ := exists_firstOccurrence hi
      rw [findCrlf, hi] at hfind
      cases hfind
    | some i =>
      obtain ⟨hbytes, hfirst⟩ := firstLine_of_findCrlf hfind
      generalize block.take i = line at hbytes hfirst
      generalize block.drop (i + 2) = rest at hbytes
      by_cases hempty : line = []
      · rw [hempty, List.nil_append] at hbytes
        exact ⟨[], block, rfl, List.forall_mem_nil _, .inl ⟨rest, hbytes.symm⟩⟩
      · have hshort : rest.length < n := by
          rw [← hn, hbytes, List.length_append, List.length_append]
          have htwo : crlf.length = 2 := rfl
          omega
        obtain ⟨lines, tail, hblock⟩ := ih rest.length hshort rest rfl
        refine ⟨line :: lines, tail, ?_, List.forall_mem_cons.2 ⟨⟨hempty, hfirst⟩, hblock.each⟩,
          hblock.ended⟩
        rw [hbytes, hblock.bytes, List.flatMap_cons, List.append_assoc, List.append_assoc]

theorem rest_ends_crlf {u line rest : Bytes} (h : u ++ crlf = line ++ crlf ++ rest)
    (hne : rest ≠ []) : ∃ v, rest = v ++ crlf ∧ u = line ++ crlf ++ v := by
  obtain ⟨a, ha, hc⟩ | ⟨c, hu, hr⟩ := List.append_eq_append_iff.1 h
  · cases a with
    | nil => exact ⟨[], hc.symm, by rw [ha, List.append_nil, List.append_nil]⟩
    | cons x a =>
      cases a with
      | nil =>
        have hlast := congrArg List.getLast? ha
        have hx : x = cr := (List.cons.inj hc).1.symm
        rw [hx, List.getLast?_append, List.getLast?_append] at hlast
        have hne : lf ≠ cr := by decide
        exact absurd (Option.some.inj hlast) hne
      | cons y a =>
        have htail : a ++ rest = [] := (List.cons.inj (List.cons.inj hc).2).2.symm
        exact absurd (List.append_eq_nil_iff.1 htail).2 hne
  · exact ⟨c, hr, hu⟩

theorem exists_lines (u : Bytes) (h : ¬ crlf ++ crlf <:+: u ++ crlf) :
    ∃ (requestLine : Bytes) (lines : List Bytes),
      u ++ crlf = requestLine ++ crlf ++ lines.flatMap (· ++ crlf) ∧
      ¬ crlf <:+: requestLine ∧ ∀ line ∈ lines, HeaderLine line := by
  induction hn : u.length using Nat.strongRecOn generalizing u with
  | ind n ih =>
    obtain ⟨i, hi⟩ := exists_firstOccurrence (List.suffix_append u crlf).isInfix
    obtain ⟨hbytes, hfirst⟩ := firstLine_of_findCrlf hi
    generalize (u ++ crlf).take i = line at hbytes hfirst
    generalize (u ++ crlf).drop (i + 2) = rest at hbytes
    rw [← List.append_assoc] at hbytes
    by_cases hrest : rest = []
    · exact ⟨line, [], by rw [hbytes, hrest]; rfl, hfirst, List.forall_mem_nil _⟩
    · obtain ⟨v, hv, hu⟩ := rest_ends_crlf hbytes hrest
      have hshort : v.length < n := by
        rw [← hn, hu, List.length_append, List.length_append]
        exact Nat.lt_add_of_pos_left (Nat.add_pos_right _ (Nat.succ_pos 1))
      have hsingle : ¬ crlf ++ crlf <:+: v ++ crlf := by
        intro hi
        apply h
        rw [hbytes, hv]
        exact hi.trans (List.suffix_append _ _).isInfix
      obtain ⟨next, lines, hlines, hnext, hall⟩ := ih v.length hshort v hsingle rfl
      have hne : next ≠ [] := by
        rintro rfl
        apply h
        rw [hbytes, hv, hlines]
        exact ⟨line, lines.flatMap (· ++ crlf), by simp only [List.nil_append, List.append_assoc]⟩
      refine ⟨line, next :: lines, ?_, hfirst, List.forall_mem_cons.2 ⟨⟨hne, hnext⟩, hall⟩⟩
      rw [hbytes, hv, hlines, List.flatMap_cons]

theorem head_of_findHeaderEnd {buffer : Bytes} (h : findHeaderEnd buffer = some n) :
    ∃ requestLine lines, buffer.take n = requestLine ++ crlf ++ headText lines ∧
      ¬ crlf <:+: requestLine ∧ ∀ line ∈ lines, HeaderLine line := by
  obtain ⟨i, hi, rfl⟩ := Option.map_eq_some_iff.1 h
  have hne : crlf ++ crlf ≠ [] := List.cons_ne_nil _ _
  have hsingle : ¬ crlf ++ crlf <:+: buffer.take (i + 2) :=
    firstOccurrence_first hne hi (Nat.add_lt_add_left (Nat.lt_of_sub_pos (Nat.succ_pos 1)) i)
  obtain ⟨u, v, hbuffer, rfl⟩ := firstOccurrence_spec hi
  have htwo : buffer.take (u.length + 2) = u ++ crlf := by
    rw [hbuffer, List.append_assoc, List.append_assoc, List.take_length_add_append]
    rfl
  have hfour : buffer.take (u.length + 4) = u ++ crlf ++ crlf := by
    rw [hbuffer, List.append_assoc, List.append_assoc, List.take_length_add_append, List.append_assoc]
    rfl
  rw [htwo] at hsingle
  obtain ⟨requestLine, lines, hlines, hfirst, hall⟩ := exists_lines u hsingle
  refine ⟨requestLine, lines, ?_, hfirst, hall⟩
  rw [hfour, hlines, headText, List.append_assoc]

theorem extractRequestLine_firstLine (h : FirstLine buffer line rest) (size : Nat) (hs : 0 < size) :
    extractRequestLine buffer size = line.take (size - 1) := by
  have hfind : firstOccurrence crlf buffer = some line.length := h.findCrlf
  simp only [extractRequestLine, hfind, Option.getD_some]
  rw [h.bytes]
  split
  · exact List.take_append_of_le_length (by omega)
  · rw [List.take_left, List.take_of_length_le (by omega)]

/-- The scanners of a head agree on where its lines and its end are. The loop of `parse_headers`
visits every line behind the request line and stops at the empty line that `find_header_end` found;
`extract_request_line` copies from the line that `http_parse_request` parses, whether it is given
the head or the whole buffer. -/
theorem findHeaderEnd_scanners (buffer : Bytes) (n : Nat) (h : findHeaderEnd buffer = some n) :
    ∃ requestLine lines, buffer.take n = requestLine ++ crlf ++ headText lines ∧
      (∀ line ∈ lines, HeaderLine line) ∧
      findCrlf (buffer.take n) = some requestLine.length ∧
      headerLines ((buffer.take n).drop (requestLine.length + 2)) = (lines, crlf) ∧
      (∀ request, parseHeaders ((buffer.take n).drop (requestLine.length + 2)) request =
        lines.foldl (fun request line => parseHeaderLine line request) request) ∧
      extractRequestLine (buffer.take n) requestLineSize = requestLine.take 255 ∧
      extractRequestLine buffer requestLineSize = requestLine.take 255 := by
  obtain ⟨requestLine, lines, hhead, hfirst, hall⟩ := head_of_findHeaderEnd h
  have hline : FirstLine (buffer.take n) requestLine (headText lines) := by
    refine ⟨?_, hfirst⟩
    rw [hhead, List.append_assoc]
  have hbuffer : FirstLine buffer requestLine (headText lines ++ buffer.drop n) := by
    refine ⟨?_, hfirst⟩
    rw [← List.append_assoc crlf, ← List.append_assoc, ← hline.bytes, List.take_append_drop]
  have hdrop : (buffer.take n).drop (requestLine.length + 2) = headText lines := by
    rw [hline.bytes, ← List.drop_drop, List.drop_left]
    rfl
  have hlines : headerLines (headText lines) = (lines, crlf) := by
    have hempty := headerLines_head hall []
    rw [List.append_nil, List.append_nil] at hempty
    exact hempty
  refine ⟨requestLine, lines, hhead, hall, hline.findCrlf, ?_, ?_, ?_, ?_⟩
  · rw [hdrop]
    exact hlines
  · intro request
    rw [hdrop, parseHeaders_foldl, hlines]
  · exact extractRequestLine_firstLine hline requestLineSize (Nat.succ_pos 255)
  · exact extractRequestLine_firstLine hbuffer requestLineSize (Nat.succ_pos 255)

def strayBytes : Bytes := ascii "a\nb\r\r\nc\n\r\n\r\nd"

/-- A stray CR and a stray LF are part of the lines they stand in. -/
theorem findHeaderEnd_scanners_stray : ∃ requestLine : Bytes, requestLine.length = 4 ∧
    extractRequestLine strayBytes requestLineSize = requestLine.take 255 := by
  have hend : findHeaderEnd strayBytes = some 12 := by decide
  have hfind : findCrlf (strayBytes.take 12) = some 4 := by decide
  obtain ⟨requestLine, lines, _, _, hline, _, _, _, hextract⟩ :=
    findHeaderEnd_scanners strayBytes 12 hend
  rw [hfind, Option.some.injEq] at hline
  exact ⟨requestLine, hline.symm, hextract⟩

end Httpd
