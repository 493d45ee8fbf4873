import ReactorNet.Lib.Bytes
import ReactorNet.Lib.Loop

/-!
# ReactorNet — scanners over a cursor

A scanner reads a fixed input through a cursor, fails by `return false`, loops without a
bound and calls itself. `Scan` is a monad for such programs that keeps a record of what
they do: every index they read, every value of the cursor, every round of a loop, and how
many nested constructs were open at a time. A run has no result if it needs more passes of
a loop, or more calls of itself, than it was given, or if it reads outside the input.

`Runs` is the total correctness of a scanner: from a cursor within the input it ends, with
a given result, and everything it did is `Within` its bounds. There is one rule for each
way to put a scanner together; the rule for loops (`Runs.loop`) asks for rounds that move
the cursor on.
-/

namespace ReactorNet.Lib

/-- What a scanner did. -/
inductive Event where
  /-- It read the element at an index. -/
  | read (i : Nat)
  /-- It took the substring from an index on, of at most some length. -/
  | substr (i n : Nat)
  /-- It handed out the range between two indices. -/
  | range (i j : Nat)
  /-- The cursor got this value. -/
  | moved (pos : Nat)
  /-- A loop went round again, and the cursor moved from here to there in the meantime. -/
  | round (start stop : Nat)
  /-- A construct was read, from here to there. -/
  | took (start stop : Nat)
  /-- A nested construct was entered, and so many are now open. -/
  | entered (active : Nat)
  deriving DecidableEq, Repr

/-- The bounds for an input of some size and a limit on the nesting. -/
def Event.Within (size limit : Nat) : Event → Prop
  | .read i => i < size
  -- `substr` throws behind the end, and is cut off at the end
  | .substr i _ => i ≤ size
  | .range i j => i ≤ j ∧ j ≤ size
  | .moved pos => pos ≤ size
  | .round start stop => start < stop
  | .took start stop => start < stop
  | .entered active => active ≤ limit

structure Cursor where
  pos : Nat := 0
  active : Nat := 0
  trace : List Event := []
  deriving DecidableEq, Repr

/-- A scanner: what it makes of a cursor, if the run has a result. An inner `none` is
`return false`. -/
def Scan (α : Type) : Type := Cursor → Option (Option α × Cursor)

namespace Scan

variable {α β σ : Type}

/-- What follows a failure is skipped. -/
def andThen (m : Scan α) (f : α → Scan β) : Scan β := fun c =>
  match m c with
  | none => none
  | some (none, c') => some (none, c')
  | some (some a, c') => f a c'

instance : Monad Scan where
  pure a := fun c => some (some a, c)
  bind := andThen

/-- `return false` -/
def fail : Scan α := fun c => some (none, c)

def position : Scan Nat := fun c => some (some c.pos, c)

def log (e : Event) : Scan Unit := fun c => some (some (), { c with trace := c.trace ++ [e] })

/-- `pos_ += n` -/
def advance (n : Nat) : Scan Unit := fun c =>
  log (.moved (c.pos + n)) { c with pos := c.pos + n }

/-- `in_[i]`, which is not checked. -/
def fetch (input : List α) (i : Nat) : Scan α := fun c =>
  match input[i]? with
  | none => none
  | some a => some (some a, { c with trace := c.trace ++ [.read i] })

/-- `in_.substr(i, n)` -/
def substr (input : List α) (i n : Nat) : Scan (List α) := fun c =>
  if i ≤ input.length then
    some (some (slice input i n), { c with trace := c.trace ++ [.substr i n] })
  else none

/-- The elements between two pointers into the input. -/
def range (input : List α) (i j : Nat) : Scan (List α) := fun c =>
  some (some (slice input i (j - i)), { c with trace := c.trace ++ [.range i j] })

/-- A nested construct: it is open while the scanner runs, however that ends. -/
def nested (m : Scan α) : Scan α := fun c =>
  match m { c with active := c.active + 1, trace := c.trace ++ [.entered (c.active + 1)] } with
  | none => none
  | some (r, c') => some (r, { c' with active := c'.active - 1 })

/-- A construct whose extent is recorded when it has been read. -/
def taking (m : Scan α) : Scan α := do
  let start ← position
  let a ← m
  let stop ← position
  log (.took start stop)
  pure a

/-- `for (;;)`, for at most `fuel` passes. -/
def loop (body : σ → Scan (Pass σ)) : Nat → σ → Scan σ
  | 0, _ => fun _ => none
  | fuel + 1, s => do
    let start ← position
    let pass ← body s
    match pass with
    | .done s' => pure s'
    | .again s' =>
      let stop ← position
      log (.round start stop)
      loop body fuel s'

end Scan

/-! ## Total correctness -/

/-- From this cursor the scanner ends, in the given way: with a value and a new cursor, or
with a failure. What it did is within the bounds, and it closes what it opens. -/
def Runs (size limit active : Nat) {α : Type} (m : Scan α) (pos : Nat)
    (result : Option (α × Nat)) : Prop :=
  pos ≤ size → ∀ trace, ∃ pos' done, pos' ≤ size ∧ (∀ e ∈ done, e.Within size limit) ∧
    m ⟨pos, active, trace⟩ = some (result.map Prod.fst, ⟨pos', active, trace ++ done⟩) ∧
    ∀ a p, result = some (a, p) → pos' = p

namespace Runs

variable {size limit active pos : Nat} {α β σ : Type}

theorem pure (a : α) : Runs size limit active (Pure.pure a) pos (some (a, pos)) := by
  intro hPos trace
  refine ⟨pos, [], hPos, by simp, by rw [List.append_nil]; rfl, ?_⟩
  rintro _ _ ⟨⟩
  rfl

theorem fail : Runs size limit active (Scan.fail : Scan α) pos none := by
  intro hPos trace
  refine ⟨pos, [], hPos, by simp, by rw [List.append_nil]; rfl, ?_⟩
  rintro _ _ ⟨⟩

theorem position : Runs size limit active Scan.position pos (some (pos, pos)) := by
  intro hPos trace
  refine ⟨pos, [], hPos, by simp, by rw [List.append_nil]; rfl, ?_⟩
  rintro _ _ ⟨⟩
  rfl

variable {m : Scan α} {input : List α} {i : Nat} {f : α → Scan β} {result : Option (β × Nat)}
  {r : Option (α × Nat)}

/-- One event, and a cursor that may have moved. -/
theorem event {a : α} {p : Nat} {e : Event}
    (hRun : ∀ trace, m ⟨pos, active, trace⟩ = some (some a, ⟨p, active, trace ++ [e]⟩))
    (hWithin : pos ≤ size → p ≤ size ∧ e.Within size limit) :
    Runs size limit active m pos (some (a, p)) := by
  intro hPos trace
  obtain ⟨hp, he⟩ := hWithin hPos
  refine ⟨p, [e], hp, by simpa using he, hRun trace, ?_⟩
  rintro _ _ ⟨⟩
  rfl

theorem log {e : Event} (h : e.Within size limit) :
    Runs size limit active (Scan.log e) pos (some ((), pos)) :=
  event (fun _ => rfl) fun hPos => ⟨hPos, h⟩

theorem advance {n : Nat} (h : pos + n ≤ size) :
    Runs size limit active (Scan.advance n) pos (some ((), pos + n)) :=
  event (e := .moved (pos + n)) (fun _ => rfl) fun _ => ⟨h, h⟩

theorem fetch (h : i < input.length) :
    Runs input.length limit active (Scan.fetch input i) pos (some (input[i], pos)) := by
  refine event (e := .read i) (fun trace => ?_) fun hPos => ⟨hPos, h⟩
  simp only [Scan.fetch, List.getElem?_eq_getElem h]

theorem substr {n : Nat} (h : i ≤ input.length) :
    Runs input.length limit active (Scan.substr input i n) pos
      (some (slice input i n, pos)) := by
  refine event (e := .substr i n) (fun trace => ?_) fun hPos => ⟨hPos, h⟩
  simp only [Scan.substr, if_pos h]

theorem range {j : Nat} (hi : i ≤ j) (hj : j ≤ input.length) :
    Runs input.length limit active (Scan.range input i j) pos
      (some (slice input i (j - i), pos)) :=
  event (fun _ => rfl) fun hPos => ⟨hPos, hi, hj⟩

/-- A scanner that succeeds, and what follows it. -/
theorem bind {a : α} {p : Nat} (h : Runs size limit active m pos (some (a, p)))
    (hNext : p ≤ size → Runs size limit active (f a) p result) :
    Runs size limit active (m >>= f) pos result := by
  intro hPos trace
  -- the second one starts where the first has stopped, and adds to its record
  obtain ⟨p', done, hp', hDone, hRun, hEnd⟩ := h hPos trace
  obtain rfl := hEnd a p rfl
  obtain ⟨q, done', hq, hDone', hRun', hEnd'⟩ := hNext hp' hp' (trace ++ done)
  refine ⟨q, done ++ done', hq, ?_, ?_, hEnd'⟩
  · intro e he
    exact (List.mem_append.mp he).elim (hDone e) (hDone' e)
  · show Scan.andThen m f _ = _
    rw [Scan.andThen, hRun, ← List.append_assoc]
    exact hRun'

/-- A scanner that looks at the element under the cursor, and fails at the end. -/
theorem peek {f : Nat → α → Scan β} (hEnd : ¬ pos < input.length → result = none)
    (hThere : ∀ h : pos < input.length, Runs input.length limit active (f pos input[pos]) pos
      result) :
    Runs input.length limit active
      (Scan.position >>= fun p =>
        if p < input.length then Scan.fetch input p >>= f p else Scan.fail) pos result := by
  refine bind position fun _ => ?_
  by_cases h : pos < input.length
  · rw [if_pos h]
    exact bind (fetch h) fun _ => hThere h
  · rw [if_neg h, hEnd h]
    exact fail

theorem bind_fail (h : Runs size limit active m pos none) :
    Runs size limit active (m >>= f) pos none := by
  intro hPos trace
  obtain ⟨p, done, hp, hDone, hRun, -⟩ := h hPos trace
  refine ⟨p, done, hp, hDone, ?_, ?_⟩
  · show Scan.andThen m f _ = _
    rw [Scan.andThen, hRun]
    rfl
  · rintro _ _ ⟨⟩

/-- A scanner that may fail: then so does the whole, and each value leads on. -/
theorem bind_either (h : Runs size limit active m pos r) (hFail : r = none → result = none)
    (hNext : ∀ a p, r = some (a, p) → p ≤ size → Runs size limit active (f a) p result) :
    Runs size limit active (m >>= f) pos result := by
  cases hr : r with
  | none =>
    rw [hr] at h
    rw [hFail hr]
    exact bind_fail h
  | some ap =>
    obtain ⟨a, p⟩ := ap
    rw [hr] at h
    exact bind h (hNext a p hr)

/-- The result of a scanner that may fail, handed on. -/
theorem bind_cases {g : α × Nat → Option (β × Nat)} (h : Runs size limit active m pos r)
    (hNext : ∀ a p, r = some (a, p) → p ≤ size → Runs size limit active (f a) p (g (a, p))) :
    Runs size limit active (m >>= f) pos (r.bind g) := by
  refine bind_either h (fun hr => by rw [hr]; rfl) fun a p hr hp => ?_
  rw [hr]
  exact hNext a p hr hp

/-- What is made of a value that was read. -/
theorem map (h : Runs size limit active m pos r) (f : α → β) :
    Runs size limit active (m >>= fun a => Pure.pure (f a)) pos
      (r.map fun ap => (f ap.1, ap.2)) := by
  rw [Option.map_eq_bind]
  exact bind_cases h fun a p _ _ => pure (f a)

/-- A nested construct, within the limit. -/
theorem nested {result : Option (α × Nat)} (hLimit : active + 1 ≤ limit)
    (h : Runs size limit (active + 1) m pos result) :
    Runs size limit active (Scan.nested m) pos result := by
  intro hPos trace
  -- the construct is open from its entry on, so its own record starts behind that
  obtain ⟨p, done, hp, hDone, hRun, hEnd⟩ := h hPos (trace ++ [.entered (active + 1)])
  refine ⟨p, .entered (active + 1) :: done, hp, List.forall_mem_cons.mpr ⟨hLimit, hDone⟩, ?_, hEnd⟩
  rw [List.append_assoc, List.singleton_append] at hRun
  rw [Scan.nested, hRun]
  rfl

/-- A construct that takes something. -/
theorem taking {result : Option (α × Nat)} (h : Runs size limit active m pos result)
    (hTakes : ∀ a p, result = some (a, p) → pos < p) :
    Runs size limit active (Scan.taking m) pos result := by
  refine bind position fun _ => bind_either h id fun a p hr _ => ?_
  rw [hr]
  exact bind position fun _ => bind (log (hTakes a p hr)) fun _ => pure a

/-! ### Loops

The result of a loop is that of a loop over some type of states `τ`, in which a value and a
cursor can be seen, unless it has failed. -/

variable {τ : Type} (view : τ → Option (σ × Nat))

/-- What one run of a loop body gives, if this is the pass. -/
def outcome : Pass τ → Option (Pass σ × Nat)
  | .again t => (view t).map fun sp => (.again sp.1, sp.2)
  | .done t => (view t).map fun sp => (.done sp.1, sp.2)

/-- **Loops end.** If every round moves the cursor on, the loop needs no more passes than
there are elements behind the cursor, and one. -/
theorem loop (low : Nat) {body : σ → Scan (Pass σ)} {μ : τ → Nat} {pass : τ → Pass τ}
    (hLeft : ∀ t s pos, view t = some (s, pos) → μ t = size - pos)
    (hDec : ∀ t t', pass t = .again t' → μ t' < μ t)
    (hFailed : ∀ t, view t = none → view (Lib.loop μ pass t) = none)
    (hBody : ∀ t s pos, view t = some (s, pos) → low ≤ pos → pos ≤ size →
      Runs size limit active (body s) pos (outcome view (pass t))) :
    ∀ fuel t s pos, view t = some (s, pos) → low ≤ pos → size - pos < fuel →
      Runs size limit active (Scan.loop body fuel s) pos (view (Lib.loop μ pass t)) := by
  intro fuel
  -- a round uses up one pass, and at least one element
  induction fuel with
  | zero => intro t s pos _ _ hFuel; omega
  | succ fuel ih =>
    intro t s pos hView hLow hFuel hPos
    have hRun := hBody t s pos hView hLow hPos
    refine bind position (fun _ => ?_) hPos
    cases hPass : pass t with
    | done t' =>
      rw [hPass, outcome] at hRun
      rw [loop_done hPass]
      cases hView' : view t' with
      | none =>
        rw [hView'] at hRun
        exact bind_fail hRun
      | some sp =>
        rw [hView'] at hRun
        exact bind hRun fun _ => pure sp.1
    | again t' =>
      have hLess := hDec _ _ hPass
      rw [hPass, outcome] at hRun
      rw [loop_again hDec hPass]
      cases hView' : view t' with
      | none =>
        -- the body has failed, and the other loop keeps the failure to its end
        rw [hView'] at hRun
        rw [hFailed t' hView']
        exact bind_fail hRun
      | some sp =>
        obtain ⟨s', p⟩ := sp
        rw [hView'] at hRun
        rw [hLeft _ _ _ hView, hLeft _ _ _ hView'] at hLess
        have hMoved : Event.Within size limit (.round pos p) := by
          show pos < p
          omega
        exact bind hRun fun _ => bind position fun _ => bind (log hMoved) fun _ =>
          ih t' s' p hView' (by omega) (by omega)

end Runs

end ReactorNet.Lib
