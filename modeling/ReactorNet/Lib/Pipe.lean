import ReactorNet.Lib.Bytes
import ReactorNet.Lib.Stream

/-!
# ReactorNet — frames through a byte stream

A sender writes encoded frames into a reliable stream; the stream delivers bytes, in
order and in chunks of any size; a receiver keeps what has arrived in a buffer and cuts
frames off its front. `Carries` relates the three: the frames, how far the stream has
got, and how many frames the receiver has taken.

There is one rule for each thing that can happen (`send`, `deliver`, `take`), and one for
each verdict of the cutter: a frame is the next one of the sender's (`take`), the stream
is never broken (`not_broken`), and a receiver that waits for more when everything has
arrived has taken every frame (`drained`).
-/

namespace ReactorNet.Lib

universe u v

variable {α : Type u} {β : Type v}

/-- The cutter takes the encoding of the frame for the frame, whatever follows it. -/
def Cutter.Reads (c : Cutter α β) (enc : β → List α) (f : β) : Prop :=
  ∀ t, c.cut (enc f ++ t) = .frame f (enc f).length

/-- The messages `sent` are the frames `fs`; `n` of their bytes have arrived, of which
`buf` is not parsed yet; the receiver has taken `k` frames. -/
structure Carries (enc : β → List α) (fs : List β) (sent : List (List α)) (n : Nat)
    (buf : List α) (k : Nat) : Prop where
  sent_eq : sent = fs.map enc
  arrived_le : n ≤ sent.flatten.length
  taken_le : k ≤ fs.length
  stream : buf ++ sent.flatten.drop n = ((fs.drop k).map enc).flatten

namespace Carries

variable {c : Cutter α β} {enc : β → List α} {fs : List β} {sent : List (List α)} {n k : Nat}
  {buf : List α}

theorem nil (enc : β → List α) : Carries enc [] [] 0 [] 0 :=
  ⟨rfl, Nat.le_refl _, Nat.le_refl _, rfl⟩

theorem eq_nil (h : Carries enc [] sent n buf k) : sent = [] ∧ n = 0 ∧ buf = [] ∧ k = 0 := by
  have hSent : sent = [] := h.sent_eq
  have hn := h.arrived_le
  have hStream := h.stream
  rw [hSent] at hn
  rw [List.drop_nil, List.map_nil, List.flatten_nil] at hStream
  exact ⟨hSent, Nat.le_zero.mp hn, (List.append_eq_nil_iff.mp hStream).1,
    Nat.le_zero.mp h.taken_le⟩

theorem send (h : Carries enc fs sent n buf k) (gs : List β) :
    Carries enc (fs ++ gs) (sent ++ gs.map enc) n buf k where
  sent_eq := by rw [h.sent_eq, List.map_append]
  arrived_le := by
    rw [List.flatten_append, List.length_append]
    exact Nat.le_add_right_of_le h.arrived_le
  taken_le := by
    rw [List.length_append]
    exact Nat.le_add_right_of_le h.taken_le
  stream := by
    -- the new frames are behind everything that is under way
    rw [List.flatten_append, List.drop_append_of_le_length h.arrived_le, ← List.append_assoc,
      h.stream, List.drop_append_of_le_length h.taken_le, List.map_append, List.flatten_append]

theorem deliver (h : Carries enc fs sent n buf k) (m : Nat) :
    Carries enc fs sent (n + (slice sent.flatten n m).length) (buf ++ slice sent.flatten n m)
      k where
  sent_eq := h.sent_eq
  arrived_le := add_length_slice_le h.arrived_le m
  taken_le := h.taken_le
  stream := by rw [List.append_assoc, slice_append_drop, h.stream]

/-- The frame at the front, if one is left to be taken. -/
theorem front (h : Carries enc fs sent n buf k) (hReads : ∀ f ∈ fs, c.Reads enc f) {f : β}
    (hf : fs[k]? = some f) :
    c.cut (buf ++ sent.flatten.drop n) = .frame f (enc f).length := by
  obtain ⟨hk, rfl⟩ := List.getElem?_eq_some_iff.mp hf
  rw [h.stream, List.drop_eq_getElem_cons hk, List.map_cons, List.flatten_cons]
  exact hReads _ (List.getElem_mem hk) _

/-- **A frame that is cut off is the sender's next.** -/
theorem take (h : Carries enc fs sent n buf k) (hReads : ∀ f ∈ fs, c.Reads enc f) {f : β}
    {m : Nat} (hCut : c.cut buf = .frame f m) :
    fs[k]? = some f ∧ Carries enc fs sent n (buf.drop m) (k + 1) := by
  have hBound := c.bound hCut
  have hWhole := c.frame_append (sent.flatten.drop n) hCut
  have hk : k < fs.length := by
    by_contra hk
    -- nothing is left of the stream, so there is no frame to cut off
    have hNil := h.stream
    rw [List.drop_of_length_le (Nat.le_of_not_lt hk), List.map_nil, List.flatten_nil] at hNil
    rw [(List.append_eq_nil_iff.mp hNil).1, List.length_nil] at hBound
    omega
  have hFront := h.front hReads (List.getElem?_eq_getElem hk)
  rw [hWhole] at hFront
  injection hFront with hEq hLen
  refine ⟨by rw [hEq]; exact List.getElem?_eq_getElem hk, h.sent_eq, h.arrived_le, hk, ?_⟩
  -- what the cutter took is the encoding of that frame
  rw [← List.drop_append_of_le_length hBound.2, h.stream, List.drop_eq_getElem_cons hk,
    List.map_cons, List.flatten_cons, hLen, List.drop_left]

/-- The receiver of such a stream never gives up. -/
theorem not_broken (h : Carries enc fs sent n buf k) (hReads : ∀ f ∈ fs, c.Reads enc f)
    (hMore : c.cut [] = .more) : c.cut buf ≠ .broken := by
  intro hCut
  have hWhole := c.broken_append (sent.flatten.drop n) hCut
  rcases Nat.lt_or_ge k fs.length with hk | hk
  · rw [h.front hReads (List.getElem?_eq_getElem hk)] at hWhole
    cases hWhole
  · rw [h.stream, List.drop_of_length_le hk, List.map_nil, List.flatten_nil, hMore] at hWhole
    cases hWhole

/-- **Nothing is left over**: when everything has arrived and the receiver waits for more,
it has taken every frame. -/
theorem drained (h : Carries enc fs sent n buf k) (hReads : ∀ f ∈ fs, c.Reads enc f)
    (hCut : c.cut buf = .more) (hArrived : n = sent.flatten.length) : k = fs.length := by
  by_contra hk
  have hLt : k < fs.length := Nat.lt_of_le_of_ne h.taken_le hk
  have hFront := h.front hReads (List.getElem?_eq_getElem hLt)
  rw [hArrived, List.drop_length, List.append_nil, hCut] at hFront
  cases hFront

end Carries

end ReactorNet.Lib
