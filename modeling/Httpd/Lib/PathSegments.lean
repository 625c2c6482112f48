import Mathlib.Data.List.Infix
import Mathlib.Data.List.TakeWhile

namespace Httpd.PathSegments
set_option autoImplicit true

variable [DecidableEq α] (sep dot : α)

/-- The pieces of a path between separators, empty ones included. -/
def segments (path : List α) : List (List α) := path.splitOn sep

@[simp] theorem segments_nil : segments sep ([] : List α) = [[]] := rfl

@[simp] theorem segments_sep_cons (path : List α) :
    segments sep (sep :: path) = [] :: segments sep path := by
  simp only [segments, List.splitOn_cons_eq_if_modifyHead, beq_self_eq_true, ↓reduceIte]

theorem segments_append_sep (p q : List α) :
    segments sep (p ++ sep :: q) = segments sep p ++ segments sep q :=
  List.splitOn_append_cons_self p q

theorem segments_of_notMem {p : List α} (h : sep ∉ p) : segments sep p = [p] :=
  List.splitOn_eq_singleton h

theorem sep_notMem_of_mem_segments {p s : List α} (h : s ∈ segments sep p) : sep ∉ s := by
  induction p generalizing s with
  | nil =>
    rw [segments_nil, List.mem_singleton] at h
    subst s
    exact List.not_mem_nil
  | cons c p ih =>
    by_cases hc : c = sep
    · subst c
      rw [segments_sep_cons] at h
      rcases List.mem_cons.1 h with rfl | h
      · exact List.not_mem_nil
      · exact ih h
    · have hne : segments sep p ≠ [] := List.splitOn_ne_nil sep p
      obtain ⟨t, ts, ht⟩ := List.exists_cons_of_ne_nil hne
      have hs : segments sep (c :: p) = (c :: t) :: ts := by
        simp only [segments, List.splitOn_cons_eq_if_modifyHead, beq_iff_eq, if_neg hc]
        simp only [segments] at ht
        rw [ht, List.modifyHead_cons]
      rw [hs] at h
      rcases List.mem_cons.1 h with rfl | h
      · have hsep : sep ∉ t := ih (ht ▸ List.mem_cons_self)
        intro hm
        rcases List.mem_cons.1 hm with he | hm
        · exact hc he.symm
        · exact hsep hm
      · exact ih (ht ▸ List.mem_cons_of_mem _ h)

theorem mem_segments_dropWhile {p s : List α} (hs : s ≠ []) :
    s ∈ segments sep (p.dropWhile (· = sep)) ↔ s ∈ segments sep p := by
  induction p with
  | nil => rfl
  | cons c p ih =>
    by_cases hc : c = sep
    · subst c
      rw [List.dropWhile_cons_of_pos (by simp only [decide_true]), ih, segments_sep_cons,
        List.mem_cons]
      exact ⟨.inr, fun h => h.resolve_left hs⟩
    · rw [List.dropWhile_cons_of_neg (by simp only [hc, decide_false, Bool.false_eq_true,
        not_false_eq_true])]

theorem mem_segments_split {p s : List α} (hs : s ≠ []) :
    s ∈ segments sep p ↔
      s = p.takeWhile (· ≠ sep) ∨ s ∈ segments sep (p.dropWhile (· ≠ sep)) := by
  have hp := List.takeWhile_append_dropWhile (p := (· ≠ sep)) (l := p)
  have hf : sep ∉ p.takeWhile (· ≠ sep) := fun h => by
    simpa using List.mem_takeWhile_imp h
  cases hd : p.dropWhile (· ≠ sep) with
  | nil =>
    rw [hd, List.append_nil] at hp
    rw [← hp] at hf ⊢
    simp only [hp] at hf ⊢
    rw [segments_of_notMem sep hf, List.mem_singleton, segments_nil, List.mem_singleton]
    exact ⟨.inl, fun h => h.resolve_right hs⟩
  | cons c q =>
    have hc : c = sep := by
      have := List.head?_dropWhile_not (p := (· ≠ sep)) (l := p)
      rw [hd] at this
      simpa using this
    subst c
    rw [hd] at hp
    conv_lhs => rw [← hp]
    rw [segments_append_sep, segments_of_notMem sep hf, segments_sep_cons, List.mem_append,
      List.mem_singleton, List.mem_cons]
    exact ⟨fun h => h.imp_right .inr, fun h => h.imp_right fun h => h.resolve_left hs⟩

def dotDot : List α := [dot, dot]

/-- Lexical resolution of one segment against the names resolved so far. -/
def normalizeStep (names : List (List α)) (segment : List α) : List (List α) :=
  if segment = [] ∨ segment = [dot] then names
  else if segment = dotDot dot then names.dropLast
  else names ++ [segment]

def normalize (segs : List (List α)) : List (List α) := segs.foldl (normalizeStep dot) []

/-- Without parent segments lexical resolution only descends. -/
theorem prefix_foldl_normalizeStep {segs : List (List α)} (h : dotDot dot ∉ segs)
    (names : List (List α)) : names <+: segs.foldl (normalizeStep dot) names := by
  induction segs generalizing names with
  | nil => exact List.prefix_rfl
  | cons s segs ih =>
    rw [List.mem_cons, not_or] at h
    rw [List.foldl_cons]
    refine List.IsPrefix.trans ?_ (ih h.2 _)
    unfold normalizeStep
    by_cases he : s = [] ∨ s = [dot]
    · rw [if_pos he]
    · rw [if_neg he, if_neg fun hd => h.1 hd.symm]
      exact List.prefix_append _ _

theorem normalize_append_prefix {segs : List (List α)} (h : dotDot dot ∉ segs)
    (base : List (List α)) : normalize dot base <+: normalize dot (base ++ segs) := by
  simp only [normalize, List.foldl_append]
  exact prefix_foldl_normalizeStep dot h _

structure Component (name : List α) : Prop where
  ne_nil : name ≠ []
  no_sep : sep ∉ name

structure CanonicalName (name : List α) : Prop where
  ne_nil : name ≠ []
  ne_dot : name ≠ [dot]
  ne_dotDot : name ≠ dotDot dot
  no_sep : sep ∉ name

omit [DecidableEq α] in
theorem CanonicalName.component {name : List α} (h : CanonicalName sep dot name) :
    Component sep name := ⟨h.ne_nil, h.no_sep⟩

def joined (names : List (List α)) : List α := names.flatMap (sep :: ·)

def absolutePath (names : List (List α)) : List α :=
  if names = [] then [sep] else joined sep names

omit [DecidableEq α] in
theorem joined_head (names : List (List α)) :
    joined sep names = [] ∨ (joined sep names).head? = some sep := by
  cases names with
  | nil => exact .inl rfl
  | cons => exact .inr rfl

theorem name_append_inj {a b : List α} {u v : List α} (ha : sep ∉ a) (hb : sep ∉ b)
    (hu : u = [] ∨ u.head? = some sep) (hv : v = [] ∨ v.head? = some sep)
    (h : a ++ u = b ++ v) : a = b ∧ u = v := by
  have htake {a u : List α} (ha : sep ∉ a) (hu : u = [] ∨ u.head? = some sep) :
      (a ++ u).takeWhile (· ≠ sep) = a := by
    rw [List.takeWhile_append_of_pos fun x hx => by
      simpa using fun he : x = sep => ha (he ▸ hx)]
    rcases hu with rfl | hu
    · rw [List.takeWhile_nil, List.append_nil]
    · cases u with
      | nil => cases hu
      | cons c u =>
        rw [List.head?_cons, Option.some.injEq] at hu
        subst c
        rw [List.takeWhile_cons_of_neg (by simp only [ne_eq, not_true_eq_false, decide_false,
          Bool.false_eq_true, not_false_eq_true]), List.append_nil]
  have he : a = b := by rw [← htake ha hu, h, htake hb hv]
  subst he
  exact ⟨rfl, List.append_cancel_left h⟩

/-- A path that starts with another one's text and goes on at a separator lies below it. -/
theorem prefix_of_joined_append {root target : List (List α)} {rest : List α}
    (hroot : ∀ n ∈ root, sep ∉ n) (htarget : ∀ n ∈ target, sep ∉ n)
    (hrest : rest = [] ∨ rest.head? = some sep)
    (h : joined sep root ++ rest = joined sep target) : root <+: target := by
  induction root generalizing target with
  | nil => exact List.nil_prefix
  | cons r root ih =>
    cases target with
    | nil => cases h
    | cons t target =>
      simp only [joined, List.flatMap_cons, List.cons_append, List.append_assoc,
        List.cons.injEq, true_and] at h
      have hu : joined sep root ++ rest = [] ∨ (joined sep root ++ rest).head? = some sep := by
        rcases joined_head sep root with he | he
        · rw [he, List.nil_append]
          exact hrest
        · exact .inr (by rw [List.head?_append, he]; rfl)
      obtain ⟨rfl, ht⟩ := name_append_inj sep (hroot _ List.mem_cons_self)
        (htarget _ List.mem_cons_self) hu (joined_head sep target) h
      obtain ⟨w, hw⟩ := ih (fun n hn => hroot n (List.mem_cons_of_mem _ hn))
        (fun n hn => htarget n (List.mem_cons_of_mem _ hn)) ht
      exact ⟨w, by rw [List.cons_append, hw]⟩

theorem segments_append_joined {name : List α} {names : List (List α)} (hn : sep ∉ name)
    (h : ∀ n ∈ names, sep ∉ n) : segments sep (name ++ joined sep names) = name :: names := by
  induction names generalizing name with
  | nil =>
    rw [joined, List.flatMap_nil, List.append_nil]
    exact segments_of_notMem sep hn
  | cons next names ih =>
    obtain ⟨hnext, hnames⟩ := List.forall_mem_cons.1 h
    have hsplit : name ++ joined sep (next :: names) =
        name ++ sep :: (next ++ joined sep names) := rfl
    rw [hsplit, segments_append_sep, segments_of_notMem sep hn, ih hnext hnames]
    rfl

end Httpd.PathSegments
