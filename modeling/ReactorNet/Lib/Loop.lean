import Mathlib.Tactic

/-!
# ReactorNet — loops with a decreasing measure

A `for (;;)` whose body either goes round again or leaves is modelled by its
body alone, `body : σ → Pass σ`, together with a measure that the body lowers
whenever it goes round again. `loop` runs the body with as many passes as the
measure allows, so it is structurally recursive and can be evaluated; the two
equations `loop_again` and `loop_done` say that the bound is never felt.

Main results:

* `loop_again` / `loop_done` — `loop` is the unbounded loop.
* `loop_induct` — what one pass preserves, the whole loop preserves.
-/

namespace ReactorNet.Lib

universe u

variable {σ : Type u}

/-- One pass through a loop body: go round again, or leave the loop. -/
inductive Pass (σ : Type u) where
  | again (s : σ)
  | done (s : σ)

/-- The state a pass leaves. -/
def Pass.state : Pass σ → σ
  | .again s => s
  | .done s => s

/-- At most `fuel` passes through the body. -/
def iterate (body : σ → Pass σ) : Nat → σ → σ
  | 0, s => s
  | fuel + 1, s =>
    match body s with
    | .again s' => iterate body fuel s'
    | .done s' => s'

/-- The loop, with one pass more than the measure of the state it starts in. -/
def loop (μ : σ → Nat) (body : σ → Pass σ) (s : σ) : σ :=
  iterate body (μ s + 1) s

variable {μ : σ → Nat} {body : σ → Pass σ}

/-- Two amounts of fuel above the measure give the same result. -/
theorem iterate_congr (hDec : ∀ s s', body s = .again s' → μ s' < μ s) :
    ∀ (m n : Nat) (s : σ), μ s < m → μ s < n → iterate body m s = iterate body n s := by
  -- the induction is on the first amount; the second one follows it down
  intro m
  induction m with
  | zero => intro n s hm; omega
  | succ m ih =>
    intro n s hm hn
    -- both amounts allow a pass, as the measure is below both
    obtain ⟨n, rfl⟩ : ∃ k, n = k + 1 := ⟨n - 1, by omega⟩
    rw [iterate, iterate]
    cases hb : body s with
    | done s' => rfl
    | again s' =>
      have hlt := hDec s s' hb
      exact ih n s' (by omega) (by omega)

theorem loop_again (hDec : ∀ s s', body s = .again s' → μ s' < μ s)
    {s s' : σ} (hb : body s = .again s') : loop μ body s = loop μ body s' := by
  -- the pass is spent: `μ s` passes are left, and `s'` needs fewer
  have h : loop μ body s = iterate body (μ s) s' := by rw [loop, iterate, hb]
  rw [h]
  exact iterate_congr hDec (μ s) (μ s' + 1) s' (hDec s s' hb) (by omega)

theorem loop_done {s s' : σ} (hb : body s = .done s') : loop μ body s = s' := by
  rw [loop, iterate, hb]

/-- A relation between where the loop starts and where it leaves follows from
the passes that leave and from one step back through the passes that do not. -/
theorem loop_induct (hDec : ∀ s s', body s = .again s' → μ s' < μ s)
    {P : σ → σ → Prop}
    (hDone : ∀ s s', body s = .done s' → P s s')
    (hAgain : ∀ s s' r, body s = .again s' → P s' r → P s r) :
    ∀ s, P s (loop μ body s) := by
  intro s
  -- on the measure of the state the loop starts in
  induction hm : μ s using Nat.strong_induction_on generalizing s with
  | _ m ih =>
    cases hb : body s with
    | done s' =>
      rw [loop_done hb]
      exact hDone s s' hb
    | again s' =>
      rw [loop_again hDec hb]
      exact hAgain s s' _ hb (ih (μ s') (by have := hDec s s' hb; omega) s' rfl)

end ReactorNet.Lib
