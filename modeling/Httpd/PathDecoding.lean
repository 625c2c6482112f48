import Httpd.Bytes

namespace Httpd
set_option autoImplicit true

inductive FileFailure where
  | notFound
  | forbidden
  | error
  deriving DecidableEq

def filePathMax : Nat := 4096

def hexValue (ch : UInt8) : Option UInt8 :=
  if 48 ≤ ch ∧ ch ≤ 57 then some (ch - 48)
  else if 97 ≤ ch ∧ ch ≤ 102 then some (ch - 97 + 10)
  else if 65 ≤ ch ∧ ch ≤ 70 then some (ch - 65 + 10)
  else none

/-- The checks a decoded byte passes before it is stored. -/
def storeByte (outputSize : Nat) (written : Bytes) (ch : UInt8) : Except FileFailure Bytes :=
  if ch = 0 ∨ ch = 92 then .error .forbidden
  else if written.length + 1 ≥ outputSize then .error .error
  else .ok (written ++ [ch])

def decodeLoop (outputSize : Nat) (written : Bytes) : Bytes → Except FileFailure Bytes
  | [] => .ok written
  | ch :: rest =>
    if ch = 37 then
      match rest with
      | next :: afterNext :: rest =>
        match hexValue next, hexValue afterNext with
        | some high, some low =>
          (storeByte outputSize written (high <<< 4 ||| low)).bind fun written =>
            decodeLoop outputSize written rest
        | _, _ => .error .forbidden
      -- the terminator is no hex digit
      | _ => .error .forbidden
    else
      (storeByte outputSize written (if ch = 43 then 32 else ch)).bind fun written =>
        decodeLoop outputSize written rest

def decodePath (input : Bytes) (outputSize : Nat) : Except FileFailure Bytes :=
  if outputSize = 0 then .error .error else decodeLoop outputSize [] input

/-- The bytes that a URL path stands for; after a malformed escape nothing is read. -/
def pathBytes : Bytes → List (Option UInt8)
  | [] => []
  | ch :: rest =>
    if ch = 37 then
      match rest with
      | next :: afterNext :: rest =>
        match hexValue next, hexValue afterNext with
        | some high, some low => some (high <<< 4 ||| low) :: pathBytes rest
        | _, _ => [none]
      | _ => [none]
    else some (if ch = 43 then 32 else ch) :: pathBytes rest

theorem pathBytes_plain {ch : UInt8} (h : ch ≠ 37) (rest : Bytes) :
    pathBytes (ch :: rest) = some (if ch = 43 then 32 else ch) :: pathBytes rest := by
  rw [pathBytes.eq_def]
  exact if_neg h

/-- A malformed escape, a null byte or a backslash. -/
def Banned : Option UInt8 → Prop
  | none => True
  | some ch => ch = 0 ∨ ch = 92

instance : DecidablePred Banned
  | none => isTrue trivial
  | some ch => inferInstanceAs (Decidable (ch = 0 ∨ ch = 92))

def readable : List (Option UInt8) → Bytes
  | some ch :: tokens => if ch = 0 ∨ ch = 92 then [] else ch :: readable tokens
  | _ => []

/-- The decoder that looks at the bytes only, and not at how they are written. -/
def storeBytes (outputSize : Nat) (written : Bytes) : List (Option UInt8) → Except FileFailure Bytes
  | [] => .ok written
  | none :: _ => .error .forbidden
  | some ch :: tokens =>
    (storeByte outputSize written ch).bind fun written => storeBytes outputSize written tokens

theorem decodeLoop_storeBytes (outputSize : Nat) (written input : Bytes) :
    decodeLoop outputSize written input = storeBytes outputSize written (pathBytes input) := by
  induction written, input using decodeLoop.induct with
  | case1 written => rfl
  | case2 written next afterNext rest high low hh hl ih =>
    simp only [decodeLoop, pathBytes, ↓reduceIte, hh, hl, storeBytes]
    exact congrArg _ (funext ih)
  | case3 written next afterNext rest hx =>
    simp only [decodeLoop, pathBytes, ↓reduceIte]
    rfl
  | case4 written rest hx =>
    have hshort : pathBytes (37 :: rest) = [none] := by
      cases rest with
      | nil => rfl
      | cons next rest =>
        cases rest with
        | nil => rfl
        | cons afterNext rest => exact absurd rfl (hx next afterNext rest)
    rw [hshort]
    unfold decodeLoop
    rw [if_pos rfl]
    split
    · exact absurd rfl (hx _ _ _)
    · rfl
  | case5 written ch rest hc ih =>
    rw [pathBytes_plain hc, storeBytes, decodeLoop.eq_def]
    simp only [if_neg hc]
    exact congrArg _ (funext ih)

theorem storeBytes_eq {n : Nat} (tokens : List (Option UInt8)) {written : Bytes}
    (hw : written.length < n) :
    storeBytes n written tokens =
      if n ≤ (written ++ readable tokens).length then .error .error
      else if ∃ token ∈ tokens, Banned token then .error .forbidden
      else .ok (written ++ readable tokens) := by
  induction tokens generalizing written with
  | nil =>
    have hnone : ¬ ∃ token ∈ ([] : List (Option UInt8)), Banned token :=
      fun ⟨_, hm, _⟩ => nomatch hm
    rw [readable, List.append_nil, if_neg (Nat.not_le.2 hw), if_neg hnone]
    rfl
    all_goals exact nofun
  | cons token tokens ih =>
    cases token with
    | none =>
      have hbanned : ∃ token ∈ none :: tokens, Banned token := ⟨none, List.mem_cons_self, trivial⟩
      have hread : readable (none :: tokens) = [] := rfl
      rw [hread, List.append_nil, if_neg (Nat.not_le.2 hw), if_pos hbanned]
      rfl
    | some ch =>
      rw [storeBytes, storeByte, readable]
      by_cases hch : ch = 0 ∨ ch = 92
      · have hbanned : ∃ token ∈ some ch :: tokens, Banned token :=
          ⟨some ch, List.mem_cons_self, hch⟩
        rw [if_pos hch, if_pos hch, List.append_nil, if_neg (Nat.not_le.2 hw), if_pos hbanned]
        rfl
      · rw [if_neg hch, if_neg hch]
        by_cases hfull : written.length + 1 ≥ n
        · have hlong : n ≤ (written ++ ch :: readable tokens).length := by
            rw [List.length_append, List.length_cons]
            exact Nat.le_trans hfull (Nat.add_le_add_left (Nat.le_add_left 1 _) _)
          rw [if_pos hfull, if_pos hlong]
          rfl
        · have hroom : (written ++ [ch]).length < n := by
            rw [List.length_append]
            exact Nat.not_le.1 hfull
          have hsplit : written ++ ch :: readable tokens = (written ++ [ch]) ++ readable tokens :=
            List.append_cons written ch _
          have hbanned : (∃ token ∈ some ch :: tokens, Banned token) ↔
              ∃ token ∈ tokens, Banned token := by
            simp only [List.exists_mem_cons_iff]
            exact or_iff_right hch
          simp only [if_neg hfull, hsplit, hbanned]
          exact ih hroom

theorem decodePath_eq (input : Bytes) {n : Nat} (hn : 0 < n) :
    decodePath input n =
      if n ≤ (readable (pathBytes input)).length then .error .error
      else if ∃ token ∈ pathBytes input, Banned token then .error .forbidden
      else .ok (readable (pathBytes input)) := by
  rw [decodePath, if_neg (Nat.ne_of_gt hn), decodeLoop_storeBytes]
  have hroom : ([] : Bytes).length < n := hn
  exact storeBytes_eq (pathBytes input) hroom

def DecodesTo (path decoded : Bytes) : Prop :=
  pathBytes path = decoded.map some ∧ 0 ∉ decoded ∧ 92 ∉ decoded

theorem readable_map {decoded : Bytes} (h₀ : 0 ∉ decoded) (h : 92 ∉ decoded) :
    readable (decoded.map some) = decoded := by
  induction decoded with
  | nil => rfl
  | cons ch decoded ih =>
    rw [List.mem_cons, not_or] at h₀ h
    have hch : ¬ (ch = 0 ∨ ch = 92) := not_or.2 ⟨Ne.symm h₀.1, Ne.symm h.1⟩
    rw [List.map_cons, readable, if_neg hch, ih h₀.2 h.2]

theorem tokens_eq_map {tokens : List (Option UInt8)} (h : ¬ ∃ token ∈ tokens, Banned token) :
    tokens = (readable tokens).map some ∧ 0 ∉ readable tokens ∧ 92 ∉ readable tokens := by
  induction tokens with
  | nil => exact ⟨rfl, List.not_mem_nil, List.not_mem_nil⟩
  | cons token tokens ih =>
    rw [List.exists_mem_cons_iff, not_or] at h
    cases token with
    | none => exact absurd trivial h.1
    | some ch =>
      obtain ⟨hmap, h₀, hback⟩ := ih h.2
      have hch : ¬ (ch = 0 ∨ ch = 92) := h.1
      obtain ⟨hne₀, hne⟩ := not_or.1 hch
      rw [readable, if_neg hch, List.map_cons, ← hmap, List.mem_cons, not_or, List.mem_cons, not_or]
      exact ⟨rfl, ⟨Ne.symm hne₀, h₀⟩, Ne.symm hne, hback⟩

theorem DecodesTo.readable (h : DecodesTo path decoded) : readable (pathBytes path) = decoded := by
  rw [h.1]
  exact readable_map h.2.1 h.2.2

theorem decodesTo_iff {path : Bytes} :
    (∃ decoded, DecodesTo path decoded) ↔ ¬ ∃ token ∈ pathBytes path, Banned token := by
  constructor
  · rintro ⟨decoded, hmap, h₀, hback⟩ ⟨token, hm, hb⟩
    rw [hmap] at hm
    obtain ⟨ch, hch, rfl⟩ := List.mem_map.1 hm
    rcases hb with rfl | rfl
    · exact h₀ hch
    · exact hback hch
  · intro h
    exact ⟨_, tokens_eq_map h⟩

theorem decodePath_decodesTo (h : DecodesTo path decoded) {n : Nat} (hn : decoded.length < n) :
    decodePath path n = .ok decoded := by
  have hlen : ¬ n ≤ (readable (pathBytes path)).length := by
    rw [h.readable]
    exact Nat.not_le.2 hn
  rw [decodePath_eq path (Nat.zero_lt_of_lt hn), if_neg hlen, if_neg (decodesTo_iff.1 ⟨_, h⟩),
    h.readable]

/-- What `decode_path` accepts is what decodes and fits. -/
theorem decodePath_ok_iff {n : Nat} (hn : 0 < n) :
    decodePath path n = .ok decoded ↔ DecodesTo path decoded ∧ decoded.length < n := by
  constructor
  · intro h
    rw [decodePath_eq path hn] at h
    split at h
    · cases h
    rename_i hlen
    split at h
    · cases h
    rename_i hclean
    cases h
    exact ⟨tokens_eq_map hclean, Nat.not_le.1 hlen⟩
  · rintro ⟨h, hlen⟩
    exact decodePath_decodesTo h hlen

end Httpd
