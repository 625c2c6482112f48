import Mathlib.Order.Basic

namespace Httpd.Transition
set_option autoImplicit true

/-- A finite run of a labelled transition relation, with the labels it passes. -/
inductive Run (step : σ → α → σ → Prop) : σ → List α → σ → Prop where
  | nil (s : σ) : Run step s [] s
  | cons : step s a t → Run step t as u → Run step s (a :: as) u

variable {step : σ → α → σ → Prop}

theorem Run.append (h : Run step s as t) (h' : Run step t bs u) :
    Run step s (as ++ bs) u := by
  induction h with
  | nil => exact h'
  | cons hs _ ih => exact .cons hs (ih h')

theorem Run.single (h : step s a t) : Run step s [a] t := .cons h (.nil t)

def follow (next : σ → α → Option σ) (s : σ) : List α → Option σ
  | [] => some s
  | a :: as => (next s a).bind fun t => follow next t as

theorem run_of_follow {next : σ → α → Option σ} (h : follow next s as = some t) :
    Run (fun s a t => next s a = some t) s as t := by
  induction as generalizing s with
  | nil =>
    cases h
    exact .nil _
  | cons a as ih =>
    obtain ⟨u, hu, ht⟩ := Option.bind_eq_some_iff.1 h
    exact .cons hu (ih ht)

theorem Run.mono {step' : σ → α → σ → Prop} (hstep : ∀ s a t, step s a t → step' s a t)
    (h : Run step s as t) : Run step' s as t := by
  induction h with
  | nil s => exact .nil s
  | cons hs _ ih => exact .cons (hstep _ _ _ hs) ih

/-- A predicate every step preserves holds at the end of a run that starts in it. -/
theorem Run.invariant {inv : σ → Prop} (hstep : ∀ s a t, inv s → step s a t → inv t)
    (h : Run step s as t) (hs : inv s) : inv t := by
  induction h with
  | nil => exact hs
  | cons ha _ ih => exact ih (hstep _ _ _ hs ha)

/-- Forward simulation: labels outside `keep` are matched by doing nothing. -/
theorem Run.simulate {step' : τ → α → τ → Prop} {R : σ → τ → Prop} {keep : α → Bool}
    (hstep : ∀ s a t s', R s s' → step s a t →
      if keep a then ∃ t', step' s' a t' ∧ R t t' else R t s')
    (h : Run step s as t) (hR : R s s') :
    ∃ t', Run step' s' (as.filter keep) t' ∧ R t t' := by
  induction h generalizing s' with
  | nil => exact ⟨s', .nil s', hR⟩
  | @cons s a t as u ha _ ih =>
    have hm := hstep s a t s' hR ha
    cases hk : keep a with
    | true =>
      rw [hk, if_pos rfl] at hm
      obtain ⟨t', hs', ht'⟩ := hm
      obtain ⟨u', hr, hu⟩ := ih ht'
      refine ⟨u', ?_, hu⟩
      rw [List.filter_cons_of_pos hk]
      exact .cons hs' hr
    | false =>
      rw [hk, if_neg Bool.false_ne_true] at hm
      rw [List.filter_cons_of_neg (Bool.eq_false_iff.1 hk)]
      exact ih hm

theorem Run.follows {step' : τ → β → τ → Prop} {R : σ → τ → Prop}
    (hstep : ∀ s a t s', R s s' → step s a t → ∃ bs t', Run step' s' bs t' ∧ R t t')
    (h : Run step s as t) (hR : R s s') : ∃ bs t', Run step' s' bs t' ∧ R t t' := by
  induction h generalizing s' with
  | nil => exact ⟨[], s', .nil s', hR⟩
  | cons ha _ ih =>
    obtain ⟨bs, u', hu', hRu⟩ := hstep _ _ _ _ hR ha
    obtain ⟨cs, t', ht', hRt⟩ := ih hRu
    exact ⟨bs ++ cs, t', hu'.append ht', hRt⟩

/-- Where every counted step lowers a measure that no step raises, a run has no more counted steps
than the measure has at its start. -/
theorem Run.count_le {inv : σ → Prop} {counted : α → Bool} (measure : σ → Nat)
    (hstep : ∀ s a t, inv s → step s a t →
      inv t ∧ measure t + (if counted a then 1 else 0) ≤ measure s)
    (h : Run step s as t) (hs : inv s) : measure t + as.countP counted ≤ measure s := by
  induction h with
  | nil => exact Nat.le_refl _
  | cons ha _ ih =>
    obtain ⟨ht, hle⟩ := hstep _ _ _ hs ha
    have hrest := ih ht
    rw [List.countP_cons]
    omega

/-- If in every state that is not final some allowed step lowers a measure, then no more allowed
steps than the measure has at the start lead to a final state. -/
theorem Run.to_final {inv final : σ → Prop} {allowed : α → Prop} (measure : σ → Nat)
    (hstep : ∀ s, inv s → ¬ final s →
      ∃ a t, allowed a ∧ step s a t ∧ inv t ∧ measure t < measure s) (hs : inv s) :
    ∃ as t, (∀ a ∈ as, allowed a) ∧ as.length ≤ measure s ∧ Run step s as t ∧ inv t ∧ final t := by
  induction hm : measure s using Nat.strongRecOn generalizing s with
  | ind m ih =>
    by_cases hf : final s
    · exact ⟨[], s, List.forall_mem_nil _, Nat.zero_le m, .nil s, hs, hf⟩
    · obtain ⟨a, u, ha, hu, hiu, hlt⟩ := hstep s hs hf
      rw [hm] at hlt
      obtain ⟨as, t, has, hle, hr, ht⟩ := ih (measure u) hlt hiu rfl
      have hlength : (a :: as).length ≤ m := Nat.lt_of_le_of_lt hle hlt
      exact ⟨a :: as, t, List.forall_mem_cons.2 ⟨ha, has⟩, hlength, .cons hu hr, ht⟩

/-- The relation with a record of what has happened beside the state. -/
def Recording (step : σ → α → σ → Prop) (record : σ → α → γ → γ) (s : σ × γ) (a : α)
    (t : σ × γ) : Prop :=
  step s.1 a t.1 ∧ t.2 = record s.1 a s.2

theorem Run.recorded (record : σ → α → γ → γ) (h : Run step s as t) (g : γ) :
    ∃ g', Run (Recording step record) (s, g) as (t, g') := by
  induction h generalizing g with
  | nil => exact ⟨g, .nil _⟩
  | @cons s a t as u ha _ ih =>
    obtain ⟨g', hr⟩ := ih (record s a g)
    exact ⟨g', .cons ⟨ha, rfl⟩ hr⟩

theorem Run.unrecorded {record : σ → α → γ → γ} {p q : σ × γ}
    (h : Run (Recording step record) p as q) : Run step p.1 as q.1 := by
  induction h with
  | nil => exact .nil _
  | cons hs _ ih => exact .cons hs.1 ih

theorem recording_of_follow {next : σ → α → Option σ} {record : σ → α → γ → γ} {p q : σ × γ}
    (h : follow (fun p a => (next p.1 a).map fun t => (t, record p.1 a p.2)) p as = some q) :
    Run (Recording (fun s a t => next s a = some t) record) p as q := by
  induction as generalizing p with
  | nil =>
    cases h
    exact .nil _
  | cons a as ih =>
    obtain ⟨u, hu, hq⟩ := Option.bind_eq_some_iff.1 h
    obtain ⟨t, ht, rfl⟩ := Option.map_eq_some_iff.1 hu
    exact .cons ⟨ht, rfl⟩ (ih hq)

def Reachable (init : σ → Prop) (step : σ → α → σ → Prop) (s : σ) : Prop :=
  ∃ s₀ as, init s₀ ∧ Run step s₀ as s

theorem Reachable.invariant {init : σ → Prop} {inv : σ → Prop}
    (hinit : ∀ s, init s → inv s) (hstep : ∀ s a t, inv s → step s a t → inv t)
    (h : Reachable init step s) : inv s := by
  obtain ⟨s₀, as, h₀, hr⟩ := h
  exact hr.invariant hstep (hinit s₀ h₀)

end Httpd.Transition
