import Httpd.PathResolution

namespace Httpd
set_option autoImplicit true

def IsHexDigit (ch : UInt8) (value : Nat) : Prop :=
  (ascii "0123456789abcdef")[value]? = some ch ∨ (ascii "0123456789ABCDEF")[value]? = some ch

instance : Decidable (IsHexDigit ch value) := inferInstanceAs (Decidable (_ ∨ _))

theorem hexValue_hexDigit (h : IsHexDigit ch value) :
    value < 16 ∧ hexValue ch = some (UInt8.ofNat value) := by
  have hread (digits : Bytes) (hlen : digits.length = 16)
      (hall : ∀ n : Fin 16, hexValue (digits.getD n 0) = some (UInt8.ofNat n))
      (hd : digits[value]? = some ch) : value < 16 ∧ hexValue ch = some (UInt8.ofNat value) := by
    have hlt : value < 16 := hlen ▸ (List.getElem?_eq_some_iff.1 hd).1
    have hdigit := hall ⟨value, hlt⟩
    rw [List.getD_eq_getElem?_getD, hd] at hdigit
    exact ⟨hlt, hdigit⟩
  rcases h with h | h
  · exact hread _ (by decide) (by decide +kernel) h
  · exact hread _ (by decide) (by decide +kernel) h

theorem hexDigit_hexValue (h : hexValue ch = some digit) : IsHexDigit ch digit.toNat := by
  have hall : ∀ n : Fin 256, ∀ digit ∈ hexValue (UInt8.ofNat n),
      IsHexDigit (UInt8.ofNat n) digit.toNat := by decide +kernel
  have hch := hall ⟨ch.toNat, ch.toNat_lt⟩ digit
  rw [UInt8.ofNat_toNat] at hch
  exact hch h

/-- One character of a URL path: a byte that stands for itself, or an escape. -/
inductive PathChar where
  | literal (ch : UInt8) (h : ch ≠ 37)
  | escape (first second : UInt8) (high low : Nat) (hf : IsHexDigit first high)
      (hs : IsHexDigit second low)

namespace PathChar

def text : PathChar → Bytes
  | literal ch _ => [ch]
  | escape first second _ _ _ _ => [37, first, second]

def byte : PathChar → UInt8
  | literal ch _ => if ch = 43 then 32 else ch
  | escape _ _ high low _ _ => UInt8.ofNat (16 * high + low)

end PathChar

def pathText (chars : List PathChar) : Bytes := chars.flatMap PathChar.text

def Malformed (rest : Bytes) : Prop :=
  ∃ tail, rest = 37 :: tail ∧ ∀ first second after high low,
    tail = first :: second :: after → ¬ (IsHexDigit first high ∧ IsHexDigit second low)

theorem hexDigits_combine {first second : UInt8} {high low : Nat} (hf : IsHexDigit first high)
    (hs : IsHexDigit second low) : ∃ h l, hexValue first = some h ∧ hexValue second = some l ∧
      h <<< 4 ||| l = UInt8.ofNat (16 * high + low) := by
  obtain ⟨hh, hfirst⟩ := hexValue_hexDigit hf
  obtain ⟨hl, hsecond⟩ := hexValue_hexDigit hs
  have hall : ∀ high < 16, ∀ low < 16,
      UInt8.ofNat high <<< 4 ||| UInt8.ofNat low = UInt8.ofNat (16 * high + low) := by
    decide +kernel
  exact ⟨_, _, hfirst, hsecond, hall high hh low hl⟩

theorem pathBytes_escape {first second : UInt8} {high low : Nat} (hf : IsHexDigit first high)
    (hs : IsHexDigit second low) (rest : Bytes) :
    pathBytes (37 :: first :: second :: rest) =
      some (UInt8.ofNat (16 * high + low)) :: pathBytes rest := by
  obtain ⟨h, l, hfirst, hsecond, hbyte⟩ := hexDigits_combine hf hs
  simp only [pathBytes, ↓reduceIte, hfirst, hsecond, hbyte]

theorem pathBytes_malformed (h : Malformed rest) : pathBytes rest = [none] := by
  obtain ⟨tail, rfl, hbad⟩ := h
  match tail with
  | [] => rfl
  | [_] => rfl
  | first :: second :: after =>
    simp only [pathBytes, ↓reduceIte]
    cases hf : hexValue first with
    | none => rfl
    | some high =>
      cases hs : hexValue second with
      | none => rfl
      | some low =>
        exact absurd ⟨hexDigit_hexValue hf, hexDigit_hexValue hs⟩ (hbad first second after _ _ rfl)

theorem pathBytes_char (c : PathChar) (rest : Bytes) :
    pathBytes (c.text ++ rest) = some c.byte :: pathBytes rest := by
  cases c with
  | literal ch h => exact pathBytes_plain h rest
  | escape first second high low hf hs => exact pathBytes_escape hf hs rest

theorem pathBytes_text (chars : List PathChar) (rest : Bytes) :
    pathBytes (pathText chars ++ rest) =
      chars.map (fun c => some c.byte) ++ pathBytes rest := by
  induction chars with
  | nil => rfl
  | cons c chars ih =>
    have hsplit : pathText (c :: chars) ++ rest = c.text ++ (pathText chars ++ rest) := by
      rw [pathText, List.flatMap_cons, List.append_assoc]
      rfl
    rw [hsplit, pathBytes_char, ih]
    rfl

theorem exists_chars (path : Bytes) :
    ∃ chars rest, path = pathText chars ++ rest ∧ (rest = [] ∨ Malformed rest) := by
  have hcons (c : PathChar) {path : Bytes}
      (h : ∃ chars rest, path = pathText chars ++ rest ∧ (rest = [] ∨ Malformed rest)) :
      ∃ chars rest, c.text ++ path = pathText chars ++ rest ∧ (rest = [] ∨ Malformed rest) := by
    obtain ⟨chars, rest, rfl, hrest⟩ := h
    exact ⟨c :: chars, rest, (List.append_assoc _ _ _).symm, hrest⟩
  induction path using pathBytes.induct with
  | case1 => exact ⟨[], [], rfl, .inl rfl⟩
  | case2 first second rest high low hs hf ih =>
    exact hcons (.escape first second _ _ (hexDigit_hexValue hf) (hexDigit_hexValue hs)) ih
  | case3 first second rest hbad =>
    refine ⟨[], _, rfl, .inr ⟨_, rfl, ?_⟩⟩
    rintro _ _ _ high low ⟨⟩ ⟨hf, hs⟩
    exact hbad _ _ (hexValue_hexDigit hf).2 (hexValue_hexDigit hs).2
  | case4 rest hshort =>
    refine ⟨[], _, rfl, .inr ⟨_, rfl, ?_⟩⟩
    intro first second after high low h
    exact absurd h (hshort first second after)
  | case5 ch rest hch ih => exact hcons (.literal ch hch) ih

section Scan

/-- Characters that the decoder stores: none is banned, and the terminator fits behind them. -/
structure Stored (n : Nat) (chars : List PathChar) : Prop where
  clean : ∀ c ∈ chars, ¬ (c.byte = 0 ∨ c.byte = 92)
  fits : chars.length < n

/-- What is wrong with the character that follows `written` stored bytes. -/
inductive Offence (n written : Nat) : Bytes → FileFailure → Prop where
  | malformed : Malformed rest → Offence n written rest .forbidden
  | banned (c : PathChar) : c.byte = 0 ∨ c.byte = 92 →
      Offence n written (c.text ++ rest) .forbidden
  | full (c : PathChar) : ¬ (c.byte = 0 ∨ c.byte = 92) → n ≤ written + 1 →
      Offence n written (c.text ++ rest) .error

theorem decodeLoop_char {n : Nat} {written : Bytes} (c : PathChar) (rest : Bytes)
    (hc : ¬ (c.byte = 0 ∨ c.byte = 92)) (hroom : written.length + 1 < n) :
    decodeLoop n written (c.text ++ rest) = decodeLoop n (written ++ [c.byte]) rest := by
  rw [decodeLoop_storeBytes, decodeLoop_storeBytes, pathBytes_char, storeBytes, storeByte,
    if_neg hc, if_neg (Nat.not_le.2 hroom)]
  rfl

theorem decodeLoop_chars {n : Nat} {chars : List PathChar} {written : Bytes} (rest : Bytes)
    (hc : ∀ c ∈ chars, ¬ (c.byte = 0 ∨ c.byte = 92)) (hroom : written.length + chars.length < n) :
    decodeLoop n written (pathText chars ++ rest) =
      decodeLoop n (written ++ chars.map PathChar.byte) rest := by
  induction chars generalizing written with
  | nil => rw [List.map_nil, List.append_nil]; rfl
  | cons c chars ih =>
    obtain ⟨hhead, htail⟩ := List.forall_mem_cons.1 hc
    rw [List.length_cons] at hroom
    have hlen : (written ++ [c.byte]).length + chars.length < n := by
      rw [List.length_append, List.length_singleton]
      omega
    rw [pathText, List.flatMap_cons, List.append_assoc, decodeLoop_char c _ hhead (by omega)]
    refine (ih htail hlen).trans ?_
    rw [List.append_assoc]
    rfl

theorem Offence.decodeLoop {written : Bytes} (h : Offence n written.length rest e) :
    decodeLoop n written rest = .error e := by
  rw [decodeLoop_storeBytes]
  cases h with
  | malformed hbad => rw [pathBytes_malformed hbad]; rfl
  | banned c hc =>
    rw [pathBytes_char, storeBytes, storeByte, if_pos hc]
    rfl
  | full c hc hfull =>
    rw [pathBytes_char, storeBytes, storeByte, if_neg hc, if_pos hfull]
    rfl

theorem exists_stored {n written : Nat} (chars : List PathChar)
    (hrest : rest = [] ∨ Malformed rest) (hw : written < n) :
    ∃ stored rest', pathText chars ++ rest = pathText stored ++ rest' ∧
      (∀ c ∈ stored, ¬ (c.byte = 0 ∨ c.byte = 92)) ∧ written + stored.length < n ∧
      (rest' = [] ∨ ∃ e, Offence n (written + stored.length) rest' e) := by
  induction chars generalizing written with
  | nil =>
    refine ⟨[], rest, rfl, fun c hc => absurd hc List.not_mem_nil, hw, ?_⟩
    exact hrest.imp_right fun h => ⟨.forbidden, .malformed h⟩
  | cons c chars ih =>
    have hsplit : pathText (c :: chars) ++ rest = c.text ++ (pathText chars ++ rest) :=
      List.append_assoc _ _ _
    have hnone : ∀ c ∈ ([] : List PathChar), ¬ (c.byte = 0 ∨ c.byte = 92) :=
      fun _ hm => absurd hm List.not_mem_nil
    rw [hsplit]
    by_cases hc : c.byte = 0 ∨ c.byte = 92
    · exact ⟨[], _, rfl, hnone, hw, .inr ⟨.forbidden, .banned c hc⟩⟩
    by_cases hfull : n ≤ written + 1
    · exact ⟨[], _, rfl, hnone, hw, .inr ⟨.error, .full c hc hfull⟩⟩
    obtain ⟨stored, rest', heq, hclean, hlen, hend⟩ := ih (Nat.not_le.1 hfull)
    have hcount : written + (c :: stored).length = written + 1 + stored.length := by
      rw [List.length_cons]
      omega
    refine ⟨c :: stored, rest', ?_, List.forall_mem_cons.2 ⟨hc, hclean⟩, ?_, ?_⟩
    · rw [heq]
      exact (List.append_assoc _ _ _).symm
    · rw [hcount]
      exact hlen
    · rw [hcount]
      exact hend

variable {n : Nat} (hn : 0 < n)
include hn

theorem exists_scan (input : Bytes) :
    ∃ stored rest, input = pathText stored ++ rest ∧ Stored n stored ∧
      (rest = [] ∨ ∃ e, Offence n stored.length rest e) := by
  obtain ⟨chars, rest, rfl, hrest⟩ := exists_chars input
  obtain ⟨stored, rest', heq, hclean, hlen, hend⟩ := exists_stored chars hrest hn
  rw [Nat.zero_add] at hlen hend
  exact ⟨stored, rest', heq, ⟨hclean, hlen⟩, hend⟩

theorem decodePath_stored {stored : List PathChar} (h : Stored n stored) (rest : Bytes) :
    decodePath (pathText stored ++ rest) n =
      decodeLoop n (stored.map PathChar.byte) rest := by
  rw [decodePath, if_neg (Nat.ne_of_gt hn)]
  have hroom : ([] : Bytes).length + stored.length < n := by
    rw [List.length_nil, Nat.zero_add]
    exact h.fits
  exact decodeLoop_chars rest h.clean hroom

theorem decodePath_offence {stored : List PathChar} (h : Stored n stored)
    (hoff : Offence n stored.length rest e) : decodePath (pathText stored ++ rest) n = .error e := by
  rw [decodePath_stored hn h]
  apply Offence.decodeLoop
  rw [List.length_map]
  exact hoff

theorem decodePath_scan (input : Bytes) :
    (∀ output, decodePath input n = .ok output ↔ ∃ stored, input = pathText stored ∧
      Stored n stored ∧ output = stored.map PathChar.byte) ∧
    ∀ e, decodePath input n = .error e ↔ ∃ stored rest, input = pathText stored ++ rest ∧
      Stored n stored ∧ Offence n stored.length rest e := by
  have hok {stored : List PathChar} (h : Stored n stored) :
      decodePath (pathText stored) n = .ok (stored.map PathChar.byte) := by
    have hend := decodePath_stored hn h []
    rw [List.append_nil] at hend
    exact hend
  obtain ⟨stored, rest, rfl, hstored, hend⟩ := exists_scan hn input
  refine ⟨fun output => ⟨fun h => ?_, ?_⟩, fun e => ⟨fun h => ?_, ?_⟩⟩
  · rcases hend with rfl | ⟨e, hoff⟩
    · rw [List.append_nil] at h ⊢
      exact ⟨stored, rfl, hstored, Except.ok.inj (h.symm.trans (hok hstored))⟩
    · cases h.symm.trans (decodePath_offence hn hstored hoff)
  · rintro ⟨stored', heq, hstored', rfl⟩
    rw [heq, hok hstored']
  · rcases hend with rfl | ⟨e', hoff⟩
    · rw [List.append_nil] at h
      cases h.symm.trans (hok hstored)
    · cases h.symm.trans (decodePath_offence hn hstored hoff)
      exact ⟨stored, rest, rfl, hstored, hoff⟩
  · rintro ⟨stored', rest', heq, hstored', hoff⟩
    rw [heq, decodePath_offence hn hstored' hoff]

end Scan

/-- The byte between two parts of a path is a digit of an escape that the decoder reads. -/
def InEscape (front : Bytes) (ch : UInt8) (back : Bytes) : Prop :=
  (∃ chars second after high low, front = pathText chars ++ [37] ∧ back = second :: after ∧
    IsHexDigit ch high ∧ IsHexDigit second low) ∨
  ∃ chars first high low, front = pathText chars ++ [37, first] ∧ IsHexDigit first high ∧
    IsHexDigit ch low

section Escaped

variable {front back tail : Bytes} {ch : UInt8}

theorem not_hexDigit (h : hexValue ch = none) (value : Nat) : ¬ IsHexDigit ch value := by
  intro hdigit
  cases h.symm.trans (hexValue_hexDigit hdigit).2

theorem not_inEscape (h : hexValue ch = none) (front back : Bytes) : ¬ InEscape front ch back := by
  rintro (⟨_, _, _, high, _, _, _, hdigit, _⟩ | ⟨_, _, _, low, _, _, hdigit⟩)
  · exact not_hexDigit h high hdigit
  · exact not_hexDigit h low hdigit

theorem Malformed.append (h : Malformed tail)
    (hfirst : ∀ second after high low, tail = [37] → back = second :: after →
      ¬ (IsHexDigit ch high ∧ IsHexDigit second low))
    (hsecond : ∀ first high low, tail = [37, first] →
      ¬ (IsHexDigit first high ∧ IsHexDigit ch low)) :
    Malformed (tail ++ ch :: back) := by
  obtain ⟨tail, rfl, hbad⟩ := h
  refine ⟨tail ++ ch :: back, rfl, ?_⟩
  intro first second after high low heq
  match tail with
  | [] =>
    obtain ⟨rfl, rfl⟩ := List.cons.inj heq
    exact hfirst second after high low rfl rfl
  | [_] =>
    obtain ⟨rfl, hrest⟩ := List.cons.inj heq
    obtain ⟨rfl, -⟩ := List.cons.inj hrest
    exact hsecond _ high low rfl
  | _ :: _ :: tail =>
    obtain ⟨rfl, hrest⟩ := List.cons.inj heq
    obtain ⟨rfl, -⟩ := List.cons.inj hrest
    exact hbad _ _ tail high low rfl

theorem pathBytes_escaped {first second : UInt8} {high low : Nat} (hpercent : ch ≠ 37)
    (hplus : ch ≠ 43) (hout : ¬ InEscape front ch back) (hf : IsHexDigit first high)
    (hs : IsHexDigit second low) (hch : 16 * high + low = ch.toNat) :
    pathBytes (front ++ 37 :: first :: second :: back) = pathBytes (front ++ ch :: back) := by
  obtain ⟨chars, rest, rfl, hrest⟩ := exists_chars front
  rw [List.append_assoc, List.append_assoc, pathBytes_text, pathBytes_text]
  congr 1
  rcases hrest with rfl | hbad
  · rw [List.nil_append, List.nil_append, pathBytes_escape hf hs, pathBytes_plain hpercent,
      if_neg hplus, hch, UInt8.ofNat_toNat]
  have hraw : Malformed (rest ++ ch :: back) := by
    apply hbad.append
    · rintro second after high low rfl hback ⟨hch, hsecond⟩
      exact hout (.inl ⟨chars, second, after, high, low, rfl, hback, hch, hsecond⟩)
    · rintro first high low rfl ⟨hfirst, hch⟩
      exact hout (.inr ⟨chars, first, high, low, rfl, hfirst, hch⟩)
  have hescaped : Malformed (rest ++ 37 :: first :: second :: back) := by
    apply hbad.append
    · intro _ _ high _ _ _ h
      exact not_hexDigit (by decide) high h.1
    · intro _ _ low _ h
      exact not_hexDigit (by decide) low h.2
  rw [pathBytes_malformed hescaped, pathBytes_malformed hraw]

theorem decodePath_congr {path path' : Bytes} (h : pathBytes path = pathBytes path') (n : Nat) :
    decodePath path n = decodePath path' n := by
  rw [decodePath, decodePath, decodeLoop_storeBytes, decodeLoop_storeBytes, h]

/-- Percent-encoding a byte of a path other than a plus sign does not change which file the path
names. -/
theorem fileStatPath_escaped {first second : UInt8} {high low : Nat} (hpercent : ch ≠ 37)
    (hplus : ch ≠ 43) (hout : ¬ InEscape front ch back) (hf : IsHexDigit first high)
    (hs : IsHexDigit second low) (hch : 16 * high + low = ch.toNat) :
    (∀ n, decodePath (front ++ 37 :: first :: second :: back) n =
      decodePath (front ++ ch :: back) n) ∧
    ∀ os docRoot, fileStatPath os docRoot (front ++ 37 :: first :: second :: back) =
      fileStatPath os docRoot (front ++ ch :: back) := by
  have hdecode := decodePath_congr (pathBytes_escaped hpercent hplus hout hf hs hch)
  refine ⟨hdecode, fun os docRoot => ?_⟩
  rw [fileStatPath, fileStatPath, fileResolvePath, fileResolvePath, hdecode]

theorem fileStatPath_escaped_tilde :
    (∀ n, decodePath (ascii "/" ++ 37 :: 55 :: 101 :: ascii "user") n =
      decodePath (ascii "/" ++ 126 :: ascii "user") n) ∧
    ∀ os docRoot, fileStatPath os docRoot (ascii "/" ++ 37 :: 55 :: 101 :: ascii "user") =
      fileStatPath os docRoot (ascii "/" ++ 126 :: ascii "user") := by
  have hf : IsHexDigit 55 7 := by decide
  have hs : IsHexDigit 101 14 := by decide
  have hnone : hexValue 126 = none := by decide
  have hout := not_inEscape hnone (ascii "/") (ascii "user")
  exact fileStatPath_escaped (by decide) (by decide) hout hf hs (by decide)

/-- A plus sign is read as a space, and its escape as a plus sign. -/
theorem plus_not_escaped :
    ¬ InEscape (ascii "/a") 43 (ascii "b") ∧
    decodePath (ascii "/a+b") filePathMax = .ok (ascii "/a b") ∧
    decodePath (ascii "/a%2Bb") filePathMax = .ok (ascii "/a+b") := by
  exact ⟨not_inEscape (by decide) _ _, by decide +kernel, by decide +kernel⟩

end Escaped

end Httpd
