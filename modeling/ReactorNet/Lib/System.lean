import Mathlib.Tactic

/-!
# ReactorNet — runs of a transition system

A system is a partial step function: in a state, an action may be possible and
then leads to one next state. `Reaches` is what any sequence of possible actions
leads to; `Reaches.invariant` is the rule by which safety properties are proved, and
`Simulates.reaches` the one that carries them from one system to another.
-/

namespace ReactorNet.Lib

universe u v w x

variable {S : Type u} {A : Type v}

/-- The states that sequences of actions lead to. -/
inductive Reaches (step : S → A → Option S) (s : S) : S → Prop
  | refl : Reaches step s s
  | next {t t' : S} (h : Reaches step s t) (a : A) (hStep : step t a = some t') :
      Reaches step s t'

variable {step : S → A → Option S}

variable {s t : S} {as : List A}

/-- **Invariants**: what holds at the start and is kept by every step holds of
every state reached. -/
theorem Reaches.invariant {P : S → Prop} (h : Reaches step s t) (hStart : P s)
    (hStep : ∀ t t' a, step t a = some t' → P t → P t') : P t := by
  induction h with
  | refl => exact hStart
  | next _ a hNext ih => exact hStep _ _ a hNext ih

/-- The states that sequences of actions lead to, each of which meets a condition in the
state it is taken in. -/
inductive ReachesBy (step : S → A → Option S) (ok : S → A → Prop) (s : S) : S → Prop
  | refl : ReachesBy step ok s s
  | next {t t' : S} (h : ReachesBy step ok s t) (a : A) (hOk : ok t a)
      (hStep : step t a = some t') : ReachesBy step ok s t'

variable {ok : S → A → Prop}

/-- **Invariants under a condition**: a step has to keep the invariant only if it meets
the condition. -/
theorem ReachesBy.invariant {P : S → Prop} (h : ReachesBy step ok s t) (hStart : P s)
    (hStep : ∀ t t' a, step t a = some t' → ok t a → P t → P t') : P t := by
  induction h with
  | refl => exact hStart
  | next _ a hOk hNext ih => exact hStep _ _ a hNext hOk ih

theorem ReachesBy.mono {ok' : S → A → Prop} (h : ReachesBy step ok s t)
    (hMono : ∀ t a, ok t a → ok' t a) : ReachesBy step ok' s t := by
  induction h with
  | refl => exact .refl
  | next _ a hOk hNext ih => exact ih.next a (hMono _ a hOk) hNext

/-- The state a given sequence of actions leads to, if all of them are possible. -/
def runAll (step : S → A → Option S) : S → List A → Option S
  | s, [] => some s
  | s, a :: as => (step s a).bind fun s' => runAll step s' as

theorem runAll_append_eq_some {bs : List A} :
    runAll step s (as ++ bs) = some t ↔
      ∃ r, runAll step s as = some r ∧ runAll step r bs = some t := by
  induction as generalizing s with
  | nil =>
    constructor
    · exact fun h => ⟨s, rfl, h⟩
    · rintro ⟨r, hr, h⟩
      cases hr
      exact h
  | cons a as ih =>
    simp only [List.cons_append, runAll, Option.bind_eq_some_iff, ih]
    constructor
    · rintro ⟨s', hs, r, hr, h⟩
      exact ⟨r, ⟨s', hs, hr⟩, h⟩
    · rintro ⟨r, ⟨s', hs, hr⟩, h⟩
      exact ⟨s', hs, r, hr, h⟩

theorem Reaches.trans {r : S} (h : Reaches step s t) (h' : Reaches step t r) :
    Reaches step s r := by
  induction h' with
  | refl => exact h
  | next _ a hNext ih => exact ih.next a hNext

theorem reaches_of_runAll (h : runAll step s as = some t) : Reaches step s t := by
  induction as generalizing s with
  | nil =>
    cases h
    exact .refl
  | cons a as ih =>
    obtain ⟨s', hs, h⟩ := Option.bind_eq_some_iff.mp h
    exact (Reaches.refl.next a hs).trans (ih h)

theorem ReachesBy.trans {r : S} (h : ReachesBy step ok s t) (h' : ReachesBy step ok t r) :
    ReachesBy step ok s r := by
  induction h' with
  | refl => exact h
  | next _ a hOk hNext ih => exact ih.next a hOk hNext

/-- The state a given sequence of actions leads to, if all of them are possible and meet
the condition. -/
def runAllBy (step : S → A → Option S) (ok : S → A → Prop) [∀ s a, Decidable (ok s a)] :
    S → List A → Option S
  | s, [] => some s
  | s, a :: as => if ok s a then (step s a).bind fun s' => runAllBy step ok s' as else none

theorem reachesBy_of_runAllBy [∀ s a, Decidable (ok s a)] (h : runAllBy step ok s as = some t) :
    ReachesBy step ok s t := by
  induction as generalizing s with
  | nil =>
    cases h
    exact .refl
  | cons a as ih =>
    simp only [runAllBy] at h
    split_ifs at h with hOk
    obtain ⟨s', hs, h⟩ := Option.bind_eq_some_iff.mp h
    exact (ReachesBy.refl.next a hOk hs).trans (ih h)

/-! ## One system seen as another

A forward simulation relates the states of a detailed system to those of a simpler one, such
that every step of the detailed system is matched by steps of the simpler one, or by none. What
can be reached in the one can then be reached in the other, so what is proved about every state
of the simpler system holds of what it shows of the detailed one. -/

variable {T : Type w} {B : Type x}

/-- Every step that meets the condition is matched, as long as the states are related. -/
def Simulates (step : S → A → Option S) (ok : S → A → Prop) (step' : T → B → Option T)
    (R : S → T → Prop) : Prop :=
  ∀ {s s' : S} {t : T} (a : A), R s t → ok s a → step s a = some s' →
    ∃ t', Reaches step' t t' ∧ R s' t'

variable {step' : T → B → Option T} {R : S → T → Prop}

/-- **Runs are matched by runs.** -/
theorem Simulates.reaches (h : Simulates step ok step' R) {s' : S} {t : T}
    (hRun : ReachesBy step ok s s') (hR : R s t) : ∃ t', Reaches step' t t' ∧ R s' t' := by
  induction hRun with
  | refl => exact ⟨t, .refl, hR⟩
  | next _ a hOk hStep ih =>
    obtain ⟨t', hRun', hR'⟩ := ih
    obtain ⟨t'', hMatch, hR''⟩ := h a hR' hOk hStep
    exact ⟨t'', hRun'.trans hMatch, hR''⟩

theorem Reaches.unconditional {s' : S} (h : Reaches step s s') :
    ReachesBy step (fun _ _ => True) s s' := by
  induction h with
  | refl => exact .refl
  | next _ a hStep ih => exact ih.next a trivial hStep

theorem Reaches.single {t t' : T} (b : B) (h : step' t b = some t') : Reaches step' t t' :=
  Reaches.refl.next b h

end ReactorNet.Lib
