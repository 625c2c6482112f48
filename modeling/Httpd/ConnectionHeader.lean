import Httpd.ResponseSequence

namespace Httpd
set_option autoImplicit true

/-- Every response sent in full announces what the loop then does: it reads on exactly if the
response said so. -/
def Honoured : List Turn → Prop
  | [] => True
  | turn :: later =>
    (turn.complete = true → ∃ keepAlive,
      messageField (ascii "Connection") (wire turn.events) = some (connectionText keepAlive) ∧
        (keepAlive = true ↔ later ≠ [])) ∧ Honoured later

/-- None of the turns that `p` selects takes a request that is kept alive and falls back. -/
def NoFallback (p : Turn → Prop) (c : Connection) : Nat → List Turn → Prop
  | _, [] => True
  | k, turn :: later =>
    (p turn → ∀ request requestLine head, turn.read = .request request requestLine head →
      httpShouldKeepAlive request = true → fallsBack (c.os k) c.docRoot request = false) ∧
      NoFallback p c (k + 1) later

theorem NoFallback.mono {p q : Turn → Prop} (hpq : ∀ turn, q turn → p turn) {turns : List Turn}
    (h : NoFallback p c k turns) : NoFallback q c k turns := by
  induction turns generalizing k with
  | nil => exact trivial
  | cons turn later ih => exact ⟨fun hq => h.1 (hpq turn hq), ih h.2⟩

theorem connectionText_injective (h : connectionText a = connectionText b) : a = b := by
  cases a <;> cases b <;> first | rfl | exact absurd h (by decide)

theorem Turn.Answers.announced {turn : Turn} (h : turn.Answers keepAlive)
    (hc : turn.complete = true) :
    messageField (ascii "Connection") (wire turn.events) = some (connectionText keepAlive) := by
  obtain ⟨message, _, hf, hfull, _⟩ := h
  rw [hfull hc, hf]

theorem clientLoop_ne_nil (c : Connection) (k : Nat) (s : ReadState) (outcomes : List SendOutcome) :
    clientLoop c (fuel + 1) k s outcomes ≠ [] := by
  rw [clientLoop]
  split <;> exact List.cons_ne_nil _ _

theorem clientLoop_honoured {s : ReadState} (h : s.unread.length < fuel) :
    Honoured (clientLoop c fuel k s outcomes) ↔
      NoFallback (·.complete = true) c k (clientLoop c fuel k s outcomes) := by
  induction fuel generalizing k s outcomes with
  | zero => cases h
  | succ fuel ih =>
    have hp := clientPass_cases c k s outcomes
    rw [clientLoop]
    revert hp
    generalize clientPass c k s outcomes = pass
    intro hp
    cases hp with
    | ended hr hc hw =>
      simp only [Honoured, NoFallback, hc, hr, Bool.false_eq_true, false_imp_iff, and_self]
    | refused hr ha =>
      simp only [Honoured, NoFallback, and_true]
      refine ⟨fun _ _ => ?_, fun _ hc => ⟨false, ha.announced hc, ?_⟩⟩
      · intro request requestLine head hr'
        rw [hr] at hr'
        cases hr'
      · simp only [Bool.false_eq_true, ne_eq, not_true_eq_false]
    | @stopped turn request requestLine head hr ha hu hs =>
      simp only [Honoured, NoFallback, and_true]
      constructor
      · intro _ hc request' requestLine' head' hr' hk'
        rw [hr] at hr'
        cases hr'
        rcases hs with hs | hs
        · rw [hs] at hc
          cases hc
        · rw [hs] at hk'
          cases hk'
      · intro _ hc
        refine ⟨_, ha.announced hc, ?_⟩
        rcases hs with hs | hs
        · rw [hs] at hc
          cases hc
        · simp only [hs, Bool.false_and, Bool.false_eq_true, ne_eq, not_true_eq_false]
    | @continued turn request requestLine head s' outcomes' hr ha hc hk hs hu hl =>
      have hlt : s'.unread.length < fuel := by omega
      have hne : clientLoop c fuel (k + 1) s' outcomes' ≠ [] := by
        cases fuel with
        | zero => cases hlt
        | succ fuel => exact clientLoop_ne_nil c (k + 1) s' outcomes'
      simp only [Honoured, NoFallback, ih hlt]
      apply and_congr_left
      intro _
      constructor
      · intro hh _ request' requestLine' head' hr' _
        rw [hr] at hr'
        cases hr'
        obtain ⟨keepAlive, hf, hiff⟩ := hh hc
        rw [ha.announced hc] at hf
        rw [hiff.2 hne] at hf
        exact Bool.not_eq_eq_eq_not.1 (connectionText_injective (Option.some.inj hf))
      · intro hn _
        have hfb := hn hc request requestLine head hr hk
        refine ⟨_, ha.announced hc, ?_⟩
        simp only [hfb, Bool.not_false, true_iff]
        exact hne

/-- The announcements hold of a run in which no request that is kept alive falls back, and
they fail exactly where such a request is answered in full. -/
theorem handleClient_honoured (c : Connection) :
    (NoFallback (fun _ => True) c 0 (handleClient c) → Honoured (handleClient c)) ∧
      (Honoured (handleClient c) ↔
        NoFallback (·.complete = true) c 0 (handleClient c)) := by
  have h : Honoured (handleClient c) ↔ NoFallback (·.complete = true) c 0 (handleClient c) :=
    clientLoop_honoured (by rw [ReadState.unread_initial]; exact Nat.lt_succ_self _)
  exact ⟨fun hn => h.2 (hn.mono fun _ _ => trivial), h⟩

def unopenablePage : Connection where
  docRoot := ascii "/srv/www"
  clientIp := ascii "-"
  os _ := { pageOs with fopen := fun _ => none }
  arrivals := [.data 71 (ascii "ET /index.html HTTP/1.1\r\n\r\n")]
  outcomes := []

/-- The loop reads on behind a response that says `Connection: close`. -/
theorem unopenablePage_not_honoured : ¬ Honoured (handleClient unopenablePage) := by
  have hrun : (handleClient unopenablePage).map
      (fun turn => (turn.complete, messageField (ascii "Connection") (wire turn.events))) =
        [(true, some (connectionText false)), (false, none)] := by decide +kernel
  revert hrun
  generalize handleClient unopenablePage = turns
  intro hrun hh
  cases turns with
  | nil => cases hrun
  | cons turn later =>
    rw [List.map_cons, List.cons.injEq, Prod.mk.injEq] at hrun
    obtain ⟨⟨hc, hf⟩, hlater⟩ := hrun
    obtain ⟨keepAlive, hf', hiff⟩ := hh.1 hc
    rw [hf] at hf'
    cases connectionText_injective (Option.some.inj hf')
    have hne : later ≠ [] := by
      intro hl
      rw [hl] at hlater
      cases hlater
    exact Bool.false_ne_true (hiff.2 hne)

end Httpd
