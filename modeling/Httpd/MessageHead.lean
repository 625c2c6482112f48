import Httpd.RequestReader

namespace Httpd
open Scan
set_option autoImplicit true

def colonSpace : Bytes := [58, 32]

def headText (lines : List Bytes) : Bytes := lines.flatMap (· ++ crlf) ++ crlf

/-- A line that cannot be taken for the end of another or of the head. -/
def CleanLine (line : Bytes) : Prop := line ≠ [] ∧ cr ∉ line

def fieldLine (field : Bytes × Bytes) : Bytes := field.1 ++ colonSpace ++ field.2

def CleanField (field : Bytes × Bytes) : Prop := cr ∉ field.1 ∧ 58 ∉ field.1 ∧ cr ∉ field.2

/-- The value of the first field of this name behind the first line of a message. -/
def headerField (name message : Bytes) : Option Bytes :=
  (firstOccurrence (crlf ++ (name ++ colonSpace)) message).map fun i =>
    let value := message.drop (i + (name.length + 4))
    value.take ((firstOccurrence crlf value).getD value.length)

theorem firstOccurrence_line {line : Bytes} (hl : cr ∉ line) (p rest : Bytes) :
    firstOccurrence (crlf ++ p) (line ++ crlf ++ rest) =
      if p <+: rest then some line.length
      else (firstOccurrence (crlf ++ p) rest).map (· + (line.length + 2)) := by
  have hlf : cr ∉ [lf] := by decide
  have hpre : lf :: p <+: lf :: rest ↔ p <+: rest := by
    simp only [List.cons_prefix_cons, true_and]
  simp only [crlf, List.cons_append, List.nil_append, List.append_assoc]
  rw [firstOccurrence_skip hl, firstOccurrence_cons]
  by_cases hp : p <+: rest
  · rw [if_pos (hpre.2 hp), if_pos hp, Option.map_some, Nat.zero_add]
  · have hskip := firstOccurrence_skip (q := lf :: p) hlf rest
    rw [List.singleton_append] at hskip
    rw [if_neg fun h => hp (hpre.1 h), if_neg hp]
    change ((firstOccurrence (cr :: lf :: p) (lf :: rest)).map _).map _ = _
    rw [hskip, Option.map_map, Option.map_map]
    congr 1
    funext i
    simp only [Function.comp_apply, List.length_singleton]
    omega

theorem headText_cons (line : Bytes) (lines : List Bytes) :
    headText (line :: lines) = line ++ crlf ++ headText lines := by
  simp only [headText, List.flatMap_cons, List.append_assoc]

theorem not_crlf_prefix {line : Bytes} (hl : CleanLine line) (rest : Bytes) :
    ¬ crlf <+: line ++ rest := by
  obtain ⟨hne, hcr⟩ := hl
  cases line with
  | nil => exact absurd rfl hne
  | cons c line =>
    intro hp
    rw [crlf, List.cons_append, List.cons_prefix_cons] at hp
    exact hcr (hp.1 ▸ List.mem_cons_self)

theorem findHeaderEnd_headText {line : Bytes} {lines : List Bytes} (hl : CleanLine line)
    (hls : ∀ l ∈ lines, CleanLine l) (body : Bytes) :
    findHeaderEnd (headText (line :: lines) ++ body) =
      some (headText (line :: lines)).length := by
  have hgoal : firstOccurrence (crlf ++ crlf) (headText (line :: lines) ++ body) =
      some ((headText (line :: lines)).length - 4) ∧
        4 ≤ (headText (line :: lines)).length := by
    induction lines generalizing line with
    | nil =>
      rw [headText_cons, List.append_assoc, firstOccurrence_line hl.2]
      have hp : crlf <+: headText [] ++ body := ⟨body, rfl⟩
      rw [if_pos hp]
      simp only [headText, List.flatMap_nil, List.nil_append, List.length_append, crlf,
        List.length_cons, List.length_nil]
      exact ⟨congrArg some (by omega), by omega⟩
    | cons l lines ih =>
      obtain ⟨hi, hlen⟩ := ih (hls l List.mem_cons_self)
        fun l' h => hls l' (List.mem_cons_of_mem _ h)
      rw [headText_cons, List.append_assoc, firstOccurrence_line hl.2, hi]
      have hp : ¬ crlf <+: headText (l :: lines) ++ body := by
        rw [headText_cons, List.append_assoc, List.append_assoc]
        exact not_crlf_prefix (hls l List.mem_cons_self) _
      rw [if_neg hp]
      simp only [Option.map_some, List.length_append, crlf, List.length_cons, List.length_nil]
      exact ⟨congrArg some (by omega), by omega⟩
  rw [findHeaderEnd, hgoal.1, Option.map_some]
  exact congrArg some (by omega)

theorem name_prefix_iff {name : Bytes} (hn : 58 ∉ name) {field : Bytes × Bytes}
    (hf : 58 ∉ field.1) (rest : Bytes) :
    name ++ colonSpace <+: fieldLine field ++ rest ↔ name = field.1 := by
  constructor
  · intro ⟨t, ht⟩
    have hl := takeWhile_append_stop hn (32 :: t)
    have hr := takeWhile_append_stop hf (32 :: (field.2 ++ rest))
    simp only [fieldLine, colonSpace, List.append_assoc, List.cons_append,
      List.nil_append] at ht
    rw [ht, hr] at hl
    exact hl.symm
  · intro he
    rw [he, fieldLine, List.append_assoc]
    exact List.prefix_append _ _

theorem fieldLine_notMem {field : Bytes × Bytes} (hf : CleanField field) :
    cr ∉ fieldLine field := by
  simp only [fieldLine, List.mem_append, not_or]
  exact ⟨⟨hf.1, by decide⟩, hf.2.2⟩

theorem firstOccurrence_field {line name : Bytes} {fields : List (Bytes × Bytes)}
    (hl : cr ∉ line) (hn : 58 ∉ name) (hf : ∀ f ∈ fields, CleanField f)
    (h : fields.lookup name = some value) (body : Bytes) :
    ∃ pre post, headText (line :: fields.map fieldLine) ++ body =
      pre ++ (crlf ++ (name ++ colonSpace)) ++ (value ++ crlf ++ post) ∧
      firstOccurrence (crlf ++ (name ++ colonSpace))
        (headText (line :: fields.map fieldLine) ++ body) = some pre.length ∧ cr ∉ value := by
  induction fields generalizing line with
  | nil => cases h
  | cons field fields ih =>
    have hfield := hf field List.mem_cons_self
    have hcons : headText (line :: (field :: fields).map fieldLine) ++ body =
        line ++ crlf ++
          (fieldLine field ++ (crlf ++ (headText (fields.map fieldLine) ++ body))) := by
      simp only [List.map_cons, headText_cons, List.append_assoc]
    rw [hcons, firstOccurrence_line hl]
    by_cases he : name = field.1
    · rw [if_pos ((name_prefix_iff hn hfield.2.1 _).2 he)]
      rw [he, List.lookup_cons_self] at h
      cases h
      refine ⟨line, headText (fields.map fieldLine) ++ body, ?_, rfl, hfield.2.2⟩
      simp only [fieldLine, he, List.append_assoc]
    · have hlookup : fields.lookup name = some value := by
        rw [List.lookup_cons, beq_eq_false_iff_ne.2 he] at h
        exact h
      obtain ⟨pre, post, hp, hi, hv⟩ := ih (fieldLine_notMem hfield)
        (fun f hm => hf f (List.mem_cons_of_mem _ hm)) hlookup
      have hnext : headText (fieldLine field :: fields.map fieldLine) ++ body =
          fieldLine field ++ (crlf ++ (headText (fields.map fieldLine) ++ body)) := by
        simp only [headText_cons, List.append_assoc]
      rw [hnext] at hp hi
      rw [if_neg fun hc => he ((name_prefix_iff hn hfield.2.1 _).1 hc), hi]
      refine ⟨line ++ crlf ++ pre, post, ?_, ?_, hv⟩
      · rw [hp]
        simp only [List.append_assoc]
      · simp only [Option.map_some, List.length_append, crlf, List.length_cons,
          List.length_nil]
        exact congrArg some (by omega)

/-- A reader of the message finds in its head the fields that were written. -/
theorem headerField_headText {line name : Bytes} {fields : List (Bytes × Bytes)}
    (hl : cr ∉ line) (hn : 58 ∉ name) (hf : ∀ f ∈ fields, CleanField f)
    (h : fields.lookup name = some value) (body : Bytes) :
    headerField name (headText (line :: fields.map fieldLine) ++ body) = some value := by
  obtain ⟨pre, post, hp, hi, hv⟩ := firstOccurrence_field hl hn hf h body
  rw [headerField, hi, Option.map_some]
  have hdrop : (headText (line :: fields.map fieldLine) ++ body).drop
      (pre.length + (name.length + 4)) = value ++ crlf ++ post := by
    rw [hp]
    apply List.drop_left'
    simp only [List.length_append, crlf, colonSpace, List.length_cons, List.length_nil]
    omega
  have hend := firstOccurrence_line hv [] post
  rw [List.append_nil, if_pos List.nil_prefix] at hend
  simp only [hdrop, hend, Option.getD_some]
  rw [List.append_assoc, List.take_left]

end Httpd
