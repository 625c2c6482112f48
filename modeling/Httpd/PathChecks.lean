import Httpd.Lib.CheckedMemory
import Httpd.PathOutcomes

namespace Httpd
open CheckedMemory PathSegments
set_option autoImplicit true

/-- The three bytes that `..` is recognised by; `&&` stops at the first that does not match. -/
def dotDotAt (path : Bytes) (p : Nat) : Checked Bool := do
  let first ← read path p
  if first ≠ dot then .ok false
  else do
    let second ← read path (p + 1)
    if second ≠ dot then .ok false
    else do
      let third ← read path (p + 2)
      .ok (third = slash ∨ third = 0)

def containsDotDotLoopChecked (path : Bytes) : Nat → Nat → Checked Bool
  | 0, _ => .error .endless
  | fuel + 1, p => do
    let c ← read path p
    if c = 0 then .ok false
    else do
      let p ← advance (· = slash) path path.length p
      let found ← dotDotAt path p
      if found then .ok true
      else do
        let p ← advance (fun c => c ≠ slash ∧ c ≠ 0) path path.length p
        containsDotDotLoopChecked path fuel p

def containsDotDotSegmentChecked (path : Bytes) : Checked Bool :=
  containsDotDotLoopChecked path (path.length + 1) 0

section Scan

theorem startsWithDotDot_dots (rest : Bytes) :
    startsWithDotDot (dot :: dot :: rest) = decide (rest = [] ∨ rest.head? = some slash) := rfl

theorem startsWithDotDot_other {first : UInt8} (h : first ≠ dot) (rest : Bytes) :
    startsWithDotDot (first :: rest) = false := by
  unfold startsWithDotDot
  split
  · rename_i he
    exact absurd (List.cons.inj he).1 h
  · rfl

theorem startsWithDotDot_single {second : UInt8} (h : second ≠ dot) (rest : Bytes) :
    startsWithDotDot (dot :: second :: rest) = false := by
  unfold startsWithDotDot
  split
  · rename_i he
    exact absurd (List.cons.inj (List.cons.inj he).2).1 h
  · rfl

theorem dotDotAt_ok (front : Bytes) {rest : Bytes} (h₀ : 0 ∉ rest) :
    dotDotAt (front ++ (rest ++ [0])) front.length = .ok (startsWithDotDot rest) := by
  cases rest with
  | nil =>
    rw [List.nil_append, dotDotAt, read_next]
    rfl
  | cons first rest =>
    rw [List.cons_append, dotDotAt, read_next, ok_bind]
    by_cases hfirst : first = dot
    · rw [hfirst, if_neg fun h => h rfl]
      cases rest with
      | nil =>
        have hsecond : read (front ++ dot :: ([] ++ [0])) (front.length + 1) = .ok 0 :=
          read_append front rfl
        rw [hsecond]
        rfl
      | cons second rest =>
        have hsecond : read (front ++ dot :: (second :: rest ++ [0])) (front.length + 1) =
            .ok second := read_append front rfl
        rw [hsecond, ok_bind]
        by_cases hs : second = dot
        · rw [hs, if_neg fun h => h rfl, startsWithDotDot_dots]
          cases rest with
          | nil =>
            have hthird : read (front ++ dot :: (dot :: [] ++ [0])) (front.length + 2) = .ok 0 :=
              read_append front rfl
            rw [hthird]
            rfl
          | cons third rest =>
            have hthird : read (front ++ dot :: (dot :: third :: rest ++ [0])) (front.length + 2) =
                .ok third := read_append front rfl
            have hne : third ≠ 0 := by
              rintro rfl
              exact h₀ (List.mem_cons_of_mem _ (List.mem_cons_of_mem _ List.mem_cons_self))
            rw [hthird, ok_bind]
            simp only [hne, or_false, reduceCtorEq, false_or, List.head?_cons, Option.some.injEq]
        · rw [if_pos hs, startsWithDotDot_single hs]
    · rw [if_pos hfirst, startsWithDotDot_other hfirst]

theorem takeWhile_segment {path : Bytes} (h₀ : 0 ∉ path) :
    path.takeWhile (fun c => c ≠ slash ∧ c ≠ 0) = path.takeWhile (· ≠ slash) := by
  induction path with
  | nil => rfl
  | cons c path ih =>
    rw [List.mem_cons, not_or] at h₀
    have hc : (decide (c ≠ slash ∧ c ≠ 0)) = decide (c ≠ slash) :=
      decide_eq_decide.2 (and_iff_left (Ne.symm h₀.1))
    rw [List.takeWhile_cons, List.takeWhile_cons, hc, ih h₀.2]

theorem containsDotDotLoopChecked_ok (front : Bytes) {rest : Bytes} (h₀ : 0 ∉ rest) {fuel : Nat}
    (hf : rest.length ≤ fuel) :
    containsDotDotLoopChecked (front ++ (rest ++ [0])) (fuel + 1) front.length =
      .ok (containsDotDotLoop fuel rest) := by
  induction fuel generalizing front rest with
  | zero =>
    rw [List.length_eq_zero_iff.1 (Nat.le_zero.1 hf), List.nil_append, containsDotDotLoopChecked,
      read_next]
    rfl
  | succ fuel ih =>
    rw [containsDotDotLoopChecked, containsDotDotLoop]
    by_cases hrest : rest = []
    · rw [hrest, List.nil_append, read_next, if_pos rfl]
      rfl
    have hlen : rest.length < (front ++ (rest ++ [0])).length := by
      simp only [List.length_append, List.length_singleton]
      omega
    have hafter := afterSegment_length hrest
    -- the run of slashes that is passed first, and what comes behind it
    have hslashes := @advance_ok _ 0 (· = slash) (by decide) front rest [] _ hlen
    have hp := List.takeWhile_append_dropWhile (p := (· = slash)) (l := rest)
    generalize rest.takeWhile (· = slash) = slashes at hslashes hp
    generalize rest.dropWhile (· = slash) = p at hafter hp ⊢
    have hzero : 0 ∉ p := fun h => h₀ (hp ▸ List.mem_append_right _ h)
    have hsplit : front ++ (rest ++ [0]) = front ++ slashes ++ (p ++ [0]) := by
      rw [← hp]
      simp only [List.append_assoc]
    have hread : ∃ c, read (front ++ (rest ++ [0])) front.length = .ok c ∧ c ≠ 0 := by
      obtain ⟨c, tail, rfl⟩ := List.exists_cons_of_ne_nil hrest
      exact ⟨c, read_next front c _, fun he => h₀ (he ▸ List.mem_cons_self)⟩
    obtain ⟨c, hread, hc⟩ := hread
    rw [hread, ok_bind, if_neg hc, hslashes, ok_bind, hsplit, dotDotAt_ok _ hzero, ok_bind,
      if_neg hrest]
    by_cases hfound : startsWithDotDot p = true
    · rw [if_pos hfound, if_pos hfound]
    · have hlen' : p.length < (front ++ slashes ++ (p ++ [0])).length := by
        simp only [List.length_append, List.length_singleton]
        omega
      have hsegment := @advance_ok _ 0 (fun c => c ≠ slash ∧ c ≠ 0) (by decide) (front ++ slashes) p
        [] _ hlen'
      rw [takeWhile_segment hzero] at hsegment
      have hq := List.takeWhile_append_dropWhile (p := (· ≠ slash)) (l := p)
      generalize p.takeWhile (· ≠ slash) = segment at hsegment hq
      rw [if_neg hfound, if_neg hfound, hsegment, ok_bind]
      generalize p.dropWhile (· ≠ slash) = q at hafter hq ⊢
      have hsplit' : front ++ slashes ++ (p ++ [0]) = front ++ slashes ++ segment ++ (q ++ [0]) := by
        rw [← hq]
        simp only [List.append_assoc]
      rw [hsplit']
      exact ih _ (fun h => hzero (hq ▸ List.mem_append_right _ h)) (by omega)

end Scan

/-- `contains_dot_dot_segment` ends, reads no byte behind the terminator, and finds exactly the
segments `..`. -/
theorem containsDotDotSegmentChecked_iff {path : Bytes} (h₀ : 0 ∉ path) :
    containsDotDotSegmentChecked (path ++ [0]) = .ok (decide (dotDot dot ∈ segments slash path)) := by
  have hloop := containsDotDotLoopChecked_ok [] h₀ (Nat.le_succ path.length)
  have hfound := containsDotDotLoop_iff (Nat.le_succ path.length)
  rw [containsDotDotSegmentChecked, List.length_append]
  refine hloop.trans (congrArg Except.ok ?_)
  rw [Bool.eq_iff_iff, hfound, decide_eq_true_iff]

theorem containsDotDotSegmentChecked_iff_end :
    containsDotDotSegmentChecked (ascii "//a../..." ++ ascii "/.." ++ [0]) =
      .ok (decide (dotDot dot ∈ segments slash (ascii "//a../..." ++ ascii "/.."))) :=
  containsDotDotSegmentChecked_iff (by decide)

section Confinement

variable {root target : List Bytes} (hroot : ∀ n ∈ root, Component slash n)
  (htarget : ∀ n ∈ target, Component slash n)
include hroot htarget

theorem pathHasPrefix_exact :
    (pathHasPrefix (absolutePath slash target) (absolutePath slash root) = true ↔ root <+: target) ↔
      (root ≠ [] ∨ target = []) := by
  rw [pathHasPrefix_iff hroot htarget, and_iff_left_iff_imp]
  constructor
  · intro h
    by_cases hnil : root = []
    · subst hnil
      exact .inr (h List.nil_prefix rfl)
    · exact .inl hnil
  · rintro (hne | rfl) _ hnil
    · exact absurd hnil hne
    · rfl

/-- On canonical paths the textual check is the one on their components, and `file_resolve_path`
lets through exactly the root and what is below it, unless the root is `/` and the target is not. -/
theorem pathHasPrefix_components :
    ((pathHasPrefix (absolutePath slash target) (absolutePath slash root) = true ↔
        root <+: target) ↔ (root ≠ [] ∨ target = [])) ∧
      ∀ os docRoot requestPath decoded, decodePath requestPath filePathMax = .ok decoded →
        containsDotDotSegment decoded = false →
        (joinedPath docRoot decoded).length < filePathMax →
        os.realpath docRoot = .ok (absolutePath slash root) →
        os.realpath (joinedPath docRoot decoded) = .ok (absolutePath slash target) →
        ((fileResolvePath os docRoot requestPath filePathMax ≠ .error .forbidden ↔
          root <+: target) ↔ (root ≠ [] ∨ target = [])) := by
  have hexact := pathHasPrefix_exact hroot htarget
  refine ⟨hexact, ?_⟩
  intro os docRoot requestPath decoded hd hdots hfits hreal hjoined
  have hlen : (joinedPath docRoot decoded).length ≤ intMax :=
    Nat.le_trans (Nat.le_of_lt hfits) (by decide)
  have hchecked : fileResolvePath os docRoot requestPath filePathMax =
      if !pathHasPrefix (absolutePath slash target) (absolutePath slash root) then .error .forbidden
      else if (absolutePath slash target).length ≥ filePathMax then .error .error
      else .ok (absolutePath slash target) := by
    rw [fileResolvePath_lookup hd hdots hlen hreal, if_neg (Nat.not_le.2 hfits), hjoined]
  have hpassed : fileResolvePath os docRoot requestPath filePathMax ≠ .error .forbidden ↔
      pathHasPrefix (absolutePath slash target) (absolutePath slash root) = true := by
    rw [hchecked]
    cases pathHasPrefix (absolutePath slash target) (absolutePath slash root) with
    | false => exact iff_of_false (fun h => h rfl) Bool.false_ne_true
    | true =>
      refine iff_of_true (fun h => ?_) rfl
      rw [if_neg (by decide)] at h
      split at h <;> cases h
  rw [hpassed]
  exact hexact

end Confinement

theorem pathHasPrefix_components_sibling :
    (pathHasPrefix (absolutePath slash [ascii "srvs"]) (absolutePath slash [ascii "srv"]) = true ↔
        [ascii "srv"] <+: [ascii "srvs"]) ↔ ([ascii "srv"] ≠ [] ∨ [ascii "srvs"] = []) := by
  have hname {name : Bytes} (h : name ≠ [] ∧ slash ∉ name) : ∀ n ∈ [name], Component slash n := by
    intro n hn
    rw [List.mem_singleton.1 hn]
    exact ⟨h.1, h.2⟩
  exact (pathHasPrefix_components (hname (by decide)) (hname (by decide))).1

def slashRealpath (path : Bytes) : Except Errno Bytes :=
  if path = ascii "/" then .ok path
  else if path = ascii "//srv" then .ok (ascii "/srv")
  else .error .noent

/-- With the root `/` a directory below it is refused. -/
theorem slashRoot_refuses :
    absolutePath slash [] = ascii "/" ∧ absolutePath slash [ascii "srv"] = ascii "/srv" ∧
      [] <+: [ascii "srv"] ∧ pathHasPrefix (ascii "/srv") (ascii "/") = false ∧
      fileResolvePath { pageOs with realpath := slashRealpath } (ascii "/") (ascii "/srv")
        filePathMax = .error .forbidden := by
  exact ⟨by decide, by decide, List.nil_prefix, by decide, by decide +kernel⟩

end Httpd
