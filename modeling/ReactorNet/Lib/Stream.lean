import Mathlib.Tactic

/-!
# ReactorNet — cutting a stream into frames

A receiver of a stream sees only a prefix of it and must decide whether that
prefix starts with a complete frame, could still become one, or never will.
A `Cutter` is such a decision with the two properties a stateless receiver
relies on: a frame is never empty, and a verdict other than "more" does not
change when more of the stream arrives.

`Cutter.split` cuts a whole prefix: the frames, in order, the items left over,
and whether the cutter gave up. `Cutter.feed` is the same thing done piecewise,
one received chunk at a time.

Main results:

* `Cutter.foldl_feed` — feeding chunks is splitting their concatenation, so the
  way the stream is cut into chunks does not matter.
* `Cutter.split_encode` — a concatenation of encoded frames splits into exactly
  these frames.
-/

namespace ReactorNet.Lib

universe u v

/-- The verdict on the items received so far: they start with the frame `f`,
which takes the first `n` of them; more are needed; or no frame can follow. -/
inductive Cut (β : Type v) where
  | frame (f : β) (n : Nat)
  | more
  | broken

/-- A verdict for every prefix of a stream, stable under extension. -/
structure Cutter (α : Type u) (β : Type v) where
  cut : List α → Cut β
  bound : ∀ {s f n}, cut s = .frame f n → 0 < n ∧ n ≤ s.length
  frame_append : ∀ {s f n} (t : List α), cut s = .frame f n → cut (s ++ t) = .frame f n
  broken_append : ∀ {s} (t : List α), cut s = .broken → cut (s ++ t) = .broken

/-- A prefix of a stream cut as far as it goes. -/
structure Split (α : Type u) (β : Type v) where
  frames : List β
  broken : Bool
  rest : List α

namespace Cutter

variable {α : Type u} {β : Type v} (c : Cutter α β)

/-- Cut frames off the front until the verdict is not a frame any more. -/
def split (s : List α) : Split α β :=
  match _h : c.cut s with
  | .frame f n =>
    let r := split (s.drop n)
    { r with frames := f :: r.frames }
  | .more => ⟨[], false, s⟩
  | .broken => ⟨[], true, s⟩
termination_by s.length
decreasing_by
  have hb := c.bound _h
  rw [List.length_drop]
  omega

/-- One more chunk: a broken stream only piles up, an open one is cut again. -/
def feed (p : Split α β) (chunk : List α) : Split α β :=
  if p.broken then { p with rest := p.rest ++ chunk }
  else
    let r := c.split (p.rest ++ chunk)
    { r with frames := p.frames ++ r.frames }

variable {c}

variable {s : List α}

theorem split_frame {f : β} {n : Nat} (h : c.cut s = .frame f n) :
    c.split s = { c.split (s.drop n) with frames := f :: (c.split (s.drop n)).frames } := by
  rw [split]
  split <;> simp_all

theorem split_more (h : c.cut s = .more) : c.split s = ⟨[], false, s⟩ := by
  rw [split]
  split <;> simp_all

theorem split_broken (h : c.cut s = .broken) : c.split s = ⟨[], true, s⟩ := by
  rw [split]
  split <;> simp_all

variable (c) in
/-- Induction along the frames of a prefix. -/
theorem split_induct {P : List α → Prop}
    (hFrame : ∀ s f n, c.cut s = .frame f n → P (s.drop n) → P s)
    (hMore : ∀ s, c.cut s = .more → P s)
    (hBroken : ∀ s, c.cut s = .broken → P s) : ∀ s, P s := by
  intro s
  -- on the number of items: a frame takes at least one of them
  induction hm : s.length using Nat.strong_induction_on generalizing s with
  | _ m ih =>
    cases h : c.cut s with
    | more => exact hMore s h
    | broken => exact hBroken s h
    | frame f n =>
      have hb := c.bound h
      refine hFrame s f n h (ih (s.drop n).length ?_ (s.drop n) rfl)
      rw [List.length_drop]
      omega

/-- **Splitting a longer prefix** resumes where the shorter one stopped. -/
theorem feed_split (s t : List α) : c.feed (c.split s) t = c.split (s ++ t) := by
  induction s using c.split_induct with
  | hMore s h => rw [split_more h]; simp [feed]
  | hBroken s h => rw [split_broken h, split_broken (c.broken_append t h)]; simp [feed]
  | hFrame s f n h ih =>
    -- the frame is inside `s`, so it is the first one of the longer prefix too
    have hb := c.bound h
    have hdrop : (s ++ t).drop n = s.drop n ++ t := List.drop_append_of_le_length hb.2
    rw [split_frame h, split_frame (c.frame_append t h), hdrop, ← ih]
    by_cases hbr : (c.split (s.drop n)).broken = true
    · simp [feed, hbr]
    · simp [feed, hbr]

/-- A stream that is whole in the end was whole all along. -/
theorem split_not_broken {t : List α} (h : (c.split (s ++ t)).broken = false) :
    (c.split s).broken = false := by
  rw [← feed_split] at h
  -- a broken split stays broken, whatever is fed to it
  by_contra hs
  simp_all [feed]

/-- The items that arrive after a whole prefix are cut with what it left over. -/
theorem split_append (h : (c.split s).broken = false) (t : List α) :
    c.split (s ++ t) =
      { c.split ((c.split s).rest ++ t) with
        frames := (c.split s).frames ++ (c.split ((c.split s).rest ++ t)).frames } := by
  rw [← feed_split]
  simp [feed, h]

theorem frames_split_mono (s t : List α) : (c.split s).frames <+: (c.split (s ++ t)).frames := by
  rw [← feed_split, feed]
  split_ifs
  · exact List.prefix_rfl
  · exact List.prefix_append ..

/-- **Chunk independence.** Feeding chunks one after the other is splitting
their concatenation. -/
theorem foldl_feed (s : List α) (chunks : List (List α)) :
    chunks.foldl c.feed (c.split s) = c.split (s ++ chunks.flatten) := by
  induction chunks generalizing s with
  | nil => simp
  | cons chunk chunks ih =>
    rw [List.foldl_cons, feed_split, ih, List.flatten_cons, List.append_assoc]

/-- Encoded frames at the front are cut off one by one. -/
theorem split_encode {enc : β → List α} {fs : List β}
    (h : ∀ f ∈ fs, ∀ t, c.cut (enc f ++ t) = .frame f (enc f).length) (t : List α) :
    c.split ((fs.map enc).flatten ++ t) =
      { c.split t with frames := fs ++ (c.split t).frames } := by
  induction fs with
  | nil => simp
  | cons f fs ih =>
    have hf := h f (List.mem_cons_self ..) ((fs.map enc).flatten ++ t)
    rw [List.map_cons, List.flatten_cons, List.append_assoc, split_frame hf, List.drop_left,
      ih fun g hg => h g (List.mem_cons_of_mem _ hg)]
    rfl

end Cutter

end ReactorNet.Lib
