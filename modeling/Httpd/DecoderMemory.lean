import Httpd.Lib.CheckedMemory
import Httpd.PathEscapes

namespace Httpd
open CheckedMemory
set_option autoImplicit true

abbrev DecodeResult := Except FileFailure Unit × Bytes

/-- The checks of a decoded byte, and what follows once it is stored. -/
def storeChecked (written : Nat) (ch : UInt8) (output : Bytes)
    (next : Bytes → Checked DecodeResult) : Checked DecodeResult :=
  if ch = 0 ∨ ch = 92 then .ok (.error .forbidden, output)
  else if written + 1 ≥ output.length then .ok (.error .error, output)
  else (write output written ch).bind next

/-- The loop of `decode_path`; every round passes a byte of the input. -/
def decodePathLoop (input : Bytes) : Nat → Nat → Nat → Bytes → Checked DecodeResult
  | 0, _, _, _ => .error .endless
  | fuel + 1, i, written, output => do
    let ch ← read input i
    if ch = 0 then
      let output ← write output written 0
      .ok (.ok (), output)
    else if ch = 37 then
      let next ← read input (i + 1)
      let afterNext ← read input (i + 2)
      match hexValue next, hexValue afterNext with
      | some high, some low =>
        storeChecked written (high <<< 4 ||| low) output
          (decodePathLoop input fuel (i + 2 + 1) (written + 1))
      | _, _ => .ok (.error .forbidden, output)
    else
      storeChecked written (if ch = 43 then 32 else ch) output
        (decodePathLoop input fuel (i + 1) (written + 1))

/-- `decode_path` on the memory that its input points into, with an array for its output. -/
def decodePathChecked (input output : Bytes) : Checked DecodeResult :=
  if output.length = 0 then .ok (.error .error, output)
  else decodePathLoop input input.length 0 0 output

theorem storeChecked_ok {ch : UInt8} {written buffer : Bytes} (hc : ¬ (ch = 0 ∨ ch = 92))
    (hroom : buffer ≠ []) (x : UInt8) (next : Bytes → Checked DecodeResult) :
    storeChecked written.length ch (written ++ x :: buffer) next =
      next (written ++ ch :: buffer) := by
  have hlen : ¬ written.length + 1 ≥ (written ++ x :: buffer).length := by
    have hpos := List.length_pos_iff.2 hroom
    rw [List.length_append, List.length_cons]
    omega
  rw [storeChecked, if_neg hc, if_neg hlen, write_append]
  rfl

theorem storeChecked_banned {ch : UInt8} {written : Nat} {output : Bytes}
    (hc : ch = 0 ∨ ch = 92) (next : Bytes → Checked DecodeResult) :
    storeChecked written ch output next = .ok (.error .forbidden, output) := if_pos hc

theorem storeChecked_full {ch : UInt8} {written : Nat} {output : Bytes}
    (hc : ¬ (ch = 0 ∨ ch = 92)) (hfull : output.length ≤ written + 1)
    (next : Bytes → Checked DecodeResult) :
    storeChecked written ch output next = .ok (.error .error, output) := by
  rw [storeChecked, if_neg hc, if_pos hfull]

section Loop

variable {front rest after : Bytes}

theorem decodePathLoop_store (c : PathChar) (hc : c.byte ≠ 0 ∨ 0 ∉ c.text) (fuel written : Nat)
    (output : Bytes) :
    decodePathLoop (front ++ (c.text ++ rest)) (fuel + 1) front.length written output =
      storeChecked written c.byte output
        (decodePathLoop (front ++ c.text ++ rest) fuel (front ++ c.text).length (written + 1)) := by
  rw [List.append_assoc, List.length_append]
  cases c with
  | literal ch hch =>
    have h₀ : ch ≠ 0 := by
      rintro rfl
      rcases hc with hc | hc
      · exact hc rfl
      · exact hc List.mem_cons_self
    rw [decodePathLoop, PathChar.text, List.cons_append, read_next]
    change (if ch = 0 then _ else if ch = 37 then _ else _) = _
    rw [if_neg h₀, if_neg hch]
    rfl
  | escape first second high low hf hs =>
    obtain ⟨h, l, hfirst, hsecond, hbyte⟩ := hexDigits_combine hf hs
    have hnext : read (front ++ 37 :: first :: second :: rest) (front.length + 1) = .ok first :=
      read_append front rfl
    have hafter : read (front ++ 37 :: first :: second :: rest) (front.length + 2) = .ok second :=
      read_append front rfl
    rw [decodePathLoop]
    simp only [PathChar.text, List.cons_append, List.nil_append, read_next, hnext, hafter,
      bind, Except.bind, hfirst, hsecond, hbyte]
    rfl

theorem decodePathLoop_chars {chars : List PathChar} {written buffer : Bytes}
    (hc : ∀ c ∈ chars, ¬ (c.byte = 0 ∨ c.byte = 92)) (hroom : chars.length < buffer.length)
    (fuel : Nat) :
    decodePathLoop (front ++ (pathText chars ++ rest)) (fuel + chars.length) front.length
        written.length (written ++ buffer) =
      decodePathLoop (front ++ pathText chars ++ rest) fuel (front ++ pathText chars).length
        (written ++ chars.map PathChar.byte).length
        (written ++ chars.map PathChar.byte ++ buffer.drop chars.length) := by
  induction chars generalizing front written buffer with
  | nil =>
    rw [pathText, List.flatMap_nil, List.append_nil, List.map_nil, List.append_nil]
    rfl
  | cons c chars ih =>
    obtain ⟨hhead, htail⟩ := List.forall_mem_cons.1 hc
    obtain ⟨x, buffer, rfl⟩ := List.exists_cons_of_ne_nil
      (List.ne_nil_of_length_pos (Nat.zero_lt_of_lt hroom))
    have hroom' : chars.length < buffer.length := Nat.lt_of_succ_lt_succ hroom
    have hbuffer : buffer ≠ [] := List.ne_nil_of_length_pos (Nat.zero_lt_of_lt hroom')
    have hsplit : pathText (c :: chars) = c.text ++ pathText chars := rfl
    have hlen : written.length + 1 = (written ++ [c.byte]).length := by
      rw [List.length_append, List.length_singleton]
    have hrest := @ih (front ++ c.text) (written ++ [c.byte]) buffer htail hroom'
    rw [hsplit, List.append_assoc, List.length_cons, ← Nat.add_assoc,
      decodePathLoop_store c (.inl fun h => hhead (.inl h)), storeChecked_ok hhead hbuffer, hlen]
    rw [List.append_assoc written] at hrest
    refine hrest.trans ?_
    rw [List.append_assoc front, List.append_assoc written]
    rfl

theorem decodePathLoop_end (fuel : Nat) (written : Bytes) (x : UInt8) (buffer : Bytes) :
    decodePathLoop (front ++ 0 :: after) (fuel + 1) front.length written.length
      (written ++ x :: buffer) = .ok (.ok (), written ++ 0 :: buffer) := by
  rw [decodePathLoop, read_next]
  exact bind_of_ok (write_append written x 0 buffer) _

/-- Behind a percent sign that ends the input both bytes are read, also the one that is behind the
terminator. -/
theorem decodePathLoop_percent (fuel written : Nat) (output : Bytes) :
    decodePathLoop (front ++ [37, 0]) (fuel + 1) front.length written output =
      .error (.read (front.length + 2)) := by
  have hnext : read (front ++ [37, 0]) (front.length + 1) = .ok 0 := read_append front rfl
  have hafter : read (front ++ [37, 0]) (front.length + 2) = .error (.read (front.length + 2)) :=
    read_fault (Nat.le_of_eq List.length_append)
  rw [decodePathLoop, read_next, hnext, hafter]
  rfl

theorem decodePathLoop_malformed (hbad : Malformed rest) (hmore : rest = [37] → after ≠ [])
    (fuel written : Nat) (output : Bytes) :
    decodePathLoop (front ++ (rest ++ 0 :: after)) (fuel + 1) front.length written output =
      .ok (.error .forbidden, output) := by
  obtain ⟨tail, rfl, hbad⟩ := hbad
  have hround {first second : UInt8} {rest : Bytes}
      (h : hexValue first = none ∨ hexValue second = none) :
      decodePathLoop (front ++ 37 :: first :: second :: rest) (fuel + 1) front.length written
        output = .ok (.error .forbidden, output) := by
    have hnext : read (front ++ 37 :: first :: second :: rest) (front.length + 1) = .ok first :=
      read_append front rfl
    have hafter : read (front ++ 37 :: first :: second :: rest) (front.length + 2) = .ok second :=
      read_append front rfl
    rw [decodePathLoop, read_next, hnext, hafter]
    change (match hexValue first, hexValue second with | some _, some _ => _ | _, _ => _) = _
    rcases h with h | h
    · rw [h]
    · rw [h]
      cases hexValue first <;> rfl
  have hzero : hexValue 0 = none := by decide
  match tail with
  | [] =>
    obtain ⟨x, after, rfl⟩ := List.exists_cons_of_ne_nil (hmore rfl)
    exact hround (.inl hzero)
  | [_] => exact hround (.inr hzero)
  | first :: second :: tail =>
    apply hround
    cases hf : hexValue first with
    | none => exact .inl rfl
    | some high =>
      cases hs : hexValue second with
      | none => exact .inr rfl
      | some low =>
        exact absurd ⟨hexDigit_hexValue hf, hexDigit_hexValue hs⟩
          (hbad first second tail _ _ rfl)

theorem decodePathLoop_offence {output : Bytes} {written : Nat}
    (hoff : Offence output.length written rest e) (h₀ : 0 ∉ rest)
    (hmore : rest = [37] → after ≠ []) (fuel : Nat) :
    decodePathLoop (front ++ (rest ++ 0 :: after)) (fuel + 1) front.length written output =
      .ok (.error e, output) := by
  cases hoff with
  | malformed hbad => exact decodePathLoop_malformed hbad hmore fuel written output
  | banned c hc =>
    rw [List.mem_append, not_or] at h₀
    rw [List.append_assoc, decodePathLoop_store c (.inr h₀.1), storeChecked_banned hc]
  | full c hc hfull =>
    rw [List.mem_append, not_or] at h₀
    rw [List.append_assoc, decodePathLoop_store c (.inr h₀.1), storeChecked_full hc hfull]

end Loop

theorem pathText_length (chars : List PathChar) : chars.length ≤ (pathText chars).length := by
  induction chars with
  | nil => exact Nat.le_refl 0
  | cons c chars ih =>
    have hpos : 0 < c.text.length := by cases c <;> exact Nat.succ_pos _
    rw [pathText, List.flatMap_cons, List.length_append, List.length_cons, Nat.add_comm]
    exact Nat.add_le_add hpos ih

section Decoder

variable {output after rest : Bytes} {stored : List PathChar}

def storedIn (output : Bytes) (stored : List PathChar) : Bytes :=
  stored.map PathChar.byte ++ output.drop stored.length

theorem storedIn_length (h : Stored output.length stored) :
    (storedIn output stored).length = output.length := by
  have hfits := h.fits
  rw [storedIn, List.length_append, List.length_map, List.length_drop]
  omega

theorem decodePathChecked_stored (h : Stored output.length stored) (rest after : Bytes) :
    ∃ fuel, decodePathChecked (pathText stored ++ rest ++ 0 :: after) output =
      decodePathLoop (pathText stored ++ (rest ++ 0 :: after)) (fuel + 1) (pathText stored).length
        stored.length (storedIn output stored) := by
  have hpos : ¬ output.length = 0 := Nat.ne_of_gt (Nat.zero_lt_of_lt h.fits)
  have hlong : stored.length + 1 ≤ (pathText stored ++ rest ++ 0 :: after).length := by
    have htext := pathText_length stored
    rw [List.length_append, List.length_append, List.length_cons]
    omega
  obtain ⟨fuel, hfuel⟩ := Nat.exists_eq_add_of_le hlong
  have hrun := @decodePathLoop_chars [] (rest ++ 0 :: after) stored [] output h.clean h.fits
    (fuel + 1)
  have hcount : fuel + 1 + stored.length = stored.length + 1 + fuel := by omega
  refine ⟨fuel, ?_⟩
  rw [decodePathChecked, if_neg hpos, hfuel, List.append_assoc, ← hcount]
  refine hrun.trans ?_
  rw [List.nil_append, List.nil_append, List.length_map]
  rfl

def EndsInPercent (input : Bytes) (n : Nat) : Prop :=
  ∃ stored, input = pathText stored ++ [37] ∧ Stored n stored

theorem decodePathChecked_offence (h : Stored output.length stored) (h₀ : 0 ∉ rest)
    (hoff : Offence output.length stored.length rest e) (hmore : rest = [37] → after ≠ []) :
    decodePathChecked (pathText stored ++ rest ++ 0 :: after) output =
      .ok (.error e, storedIn output stored) := by
  obtain ⟨fuel, hrun⟩ := decodePathChecked_stored h rest after
  rw [← storedIn_length h] at hoff
  rw [hrun, decodePathLoop_offence hoff h₀ hmore]

theorem decodePathChecked_end (h : Stored output.length stored) (after : Bytes) :
    decodePathChecked (pathText stored ++ 0 :: after) output =
      .ok (.ok (), stored.map PathChar.byte ++ 0 :: output.drop (stored.length + 1)) := by
  obtain ⟨fuel, hrun⟩ := decodePathChecked_stored h [] after
  have hsplit := List.drop_eq_getElem_cons h.fits
  rw [List.append_nil, List.nil_append, storedIn, hsplit] at hrun
  have hend := @decodePathLoop_end (pathText stored) after fuel (stored.map PathChar.byte)
  rw [List.length_map] at hend
  rw [hrun, hend]

theorem decodePathChecked_percent (h : EndsInPercent input output.length) :
    decodePathChecked (input ++ [0]) output = .error (.read (input.length + 1)) := by
  obtain ⟨stored, rfl, hstored⟩ := h
  obtain ⟨fuel, hrun⟩ := decodePathChecked_stored hstored [37] []
  rw [hrun, List.length_append, List.length_singleton]
  exact decodePathLoop_percent fuel stored.length (storedIn output stored)

/-- On memory in which it reads nothing that is not there the decoder does what `decodePath` says,
and it writes to its array only. -/
theorem decodePathChecked_decodePath (h₀ : 0 ∉ input)
    (hmore : EndsInPercent input output.length → after ≠ []) :
    ∃ left, left.length = output.length ∧ decodePathChecked (input ++ 0 :: after) output =
      .ok ((decodePath input output.length).map fun _ => (), left) := by
  rcases Nat.eq_zero_or_pos output.length with hzero | hn
  · refine ⟨output, rfl, ?_⟩
    rw [decodePathChecked, decodePath, if_pos hzero, if_pos hzero]
    rfl
  obtain ⟨stored, rest, rfl, hstored, rfl | ⟨e, hoff⟩⟩ := exists_scan hn input
  · have hok := decodePath_stored hn hstored []
    refine ⟨stored.map PathChar.byte ++ 0 :: output.drop (stored.length + 1), ?_, ?_⟩
    · have hfits := hstored.fits
      rw [List.length_append, List.length_map, List.length_cons, List.length_drop]
      omega
    · rw [hok, List.append_nil]
      exact decodePathChecked_end hstored after
  · rw [decodePath_offence hn hstored hoff]
    rw [List.mem_append, not_or] at h₀
    refine ⟨storedIn output stored, storedIn_length hstored, ?_⟩
    apply decodePathChecked_offence hstored h₀.2 hoff
    rintro rfl
    exact hmore ⟨stored, rfl, hstored⟩

/-- The decoder reads behind the terminator of its input exactly when it gets to a percent sign
that is the last byte. -/
theorem decodePathChecked_reads (h₀ : 0 ∉ input) (output : Bytes) :
    (∀ i, decodePathChecked (input ++ [0]) output ≠ .error (.read i)) ↔
      ¬ EndsInPercent input output.length := by
  constructor
  · intro h hpercent
    exact h _ (decodePathChecked_percent hpercent)
  · intro hpercent i h
    have hmore : EndsInPercent input output.length → ([] : Bytes) ≠ [] := fun h => absurd h hpercent
    obtain ⟨left, -, hok⟩ := decodePathChecked_decodePath h₀ hmore
    cases h.symm.trans hok

theorem decodePathChecked_reads_escape :
    (∀ i, decodePathChecked (ascii "/%4" ++ [0]) (List.replicate 16 0) ≠ .error (.read i)) ↔
      ¬ EndsInPercent (ascii "/%4") (List.replicate 16 (0 : UInt8)).length :=
  decodePathChecked_reads (by decide) _

theorem endsInPercent_replicate {count n : Nat} (h : count < n) :
    EndsInPercent (List.replicate count 97 ++ [37]) n := by
  refine ⟨List.replicate count (.literal 97 (by decide)), ?_, fun c hc => ?_, ?_⟩
  · rw [pathText, List.flatMap_replicate, PathChar.text, List.flatten_replicate_singleton]
  · rw [(List.mem_replicate.1 hc).2]
    decide
  · rw [List.length_replicate]
    exact h

/-- In the array of a request that holds the longest path, the byte behind the array is read. -/
theorem longest_path_overread :
    (List.replicate 1022 97 ++ [37] ++ [(0 : UInt8)]).length = 1024 ∧
    decodePathChecked (List.replicate 1022 97 ++ [37] ++ [0]) (List.replicate filePathMax 0) =
      .error (.read 1024) := by
  have hlen : (List.replicate 1022 97 ++ [(37 : UInt8)]).length + 1 = 1024 := by
    rw [List.length_append, List.length_replicate, List.length_singleton]
  have hpercent : EndsInPercent (List.replicate 1022 97 ++ [37])
      (List.replicate filePathMax (0 : UInt8)).length := by
    rw [List.length_replicate]
    apply endsInPercent_replicate
    decide
  have hread := decodePathChecked_percent hpercent
  rw [hlen] at hread
  refine ⟨?_, hread⟩
  rw [List.length_append, List.length_singleton, hlen]

/-- `decode_path` stops at the first character it cannot store, and what it leaves otherwise is
the terminated string of the bytes that the characters stand for. -/
theorem decodePath_firstOffence {input : Bytes} (h₀ : 0 ∉ input) {n : Nat} (hn : 0 < n) :
    (∀ e, decodePath input n = .error e ↔ ∃ stored rest, input = pathText stored ++ rest ∧
      Stored n stored ∧ Offence n stored.length rest e) ∧
    (∀ decoded, decodePath input n = .ok decoded ↔ ∃ stored, input = pathText stored ∧
      Stored n stored ∧ decoded = stored.map PathChar.byte) ∧
    ∀ decoded, decodePath input n = .ok decoded →
      decoded.length ≤ n - 1 ∧ 0 ∉ decoded ∧ 92 ∉ decoded ∧
      ∀ output after, output.length = n → decodePathChecked (input ++ 0 :: after) output =
        .ok (.ok (), decoded ++ 0 :: output.drop (decoded.length + 1)) := by
  obtain ⟨hok, herror⟩ := decodePath_scan hn input
  refine ⟨herror, hok, fun decoded h => ?_⟩
  obtain ⟨stored, rfl, hstored, rfl⟩ := (hok decoded).1 h
  obtain ⟨⟨-, hzero, hback⟩, hlen⟩ := (decodePath_ok_iff hn).1 h
  refine ⟨Nat.le_sub_one_of_lt hlen, hzero, hback, fun output after hsize => ?_⟩
  rw [List.length_map]
  exact decodePathChecked_end (hsize ▸ hstored) after

theorem decodePath_firstOffence_slash :
    (ascii "/a/b").length ≤ 8 - 1 ∧ 0 ∉ ascii "/a/b" ∧ 92 ∉ ascii "/a/b" ∧
      ∀ output after, output.length = 8 →
        decodePathChecked (ascii "/a%2fb" ++ 0 :: after) output =
          .ok (.ok (), ascii "/a/b" ++ 0 :: output.drop ((ascii "/a/b").length + 1)) :=
  (decodePath_firstOffence (by decide) (by decide)).2.2 _ (by decide +kernel)

end Decoder

end Httpd
