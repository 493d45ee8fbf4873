import ReactorNet.Net.BufferMemory

/-!
# ReactorNet — how large a buffer gets

The vector of a `Buffer` never shrinks, and when it grows it is not compacted first: the
bytes that were consumed stay in front of the readable ones. `makeSpace` grows only when
the consumed part is too small to be worth a move, though: it is then smaller than the
data to be added. So a vector that has just grown is at most about twice as long as what
is readable in it (`length_append_le`), and between two growths its length stands still.

`Metered` is a buffer with the largest number of readable bytes it has held so far.

Main result: `capacity_le_backlog`.
-/

namespace ReactorNet

open Lib

namespace Buffer

/-! ## One call -/

variable (b : Buffer)

@[simp] theorem readableBytes_append (data : Bytes) :
    (b.append data).readableBytes = b.readableBytes + data.length := by
  rw [← length_contents, contents_append, List.length_append, length_contents]

@[simp] theorem buffer_retrieve (len : Nat) : (b.retrieve len).buffer = b.buffer := by
  unfold retrieve
  split <;> rfl

@[simp] theorem length_buffer_copyIn (data : Bytes) (hRoom : data.length ≤ b.writableBytes) :
    (b.copyIn data hRoom).buffer.length = b.buffer.length := length_overwrite ..

/-- The vector grows only when the bytes to be added do not fit behind the readable ones
after a move to the front. -/
theorem length_makeSpace (len : Nat) :
    (b.makeSpace len).buffer.length = b.buffer.length ∨
      (b.makeSpace len).buffer.length = b.writeIndex + len ∧
        b.buffer.length - b.writeIndex + b.readIndex < len + kCheapPrepend := by
  unfold makeSpace
  split
  · rename_i hSmall
    exact .inr ⟨length_resize .., hSmall⟩
  · exact .inl (length_overwrite ..)

theorem length_ensureWritableBytes (len : Nat) :
    (b.ensureWritableBytes len).buffer.length = b.buffer.length ∨
      (b.ensureWritableBytes len).buffer.length = b.writeIndex + len ∧
        b.buffer.length - b.writeIndex + b.readIndex < len + kCheapPrepend := by
  unfold ensureWritableBytes
  split
  · exact b.length_makeSpace len
  · exact .inl rfl

/-- **A vector that grows is at most twice as long as what is readable in it afterwards**,
but for the prepended bytes. -/
theorem length_append_le (data : Bytes) :
    (b.append data).buffer.length ≤
      max b.buffer.length (2 * (b.append data).readableBytes + kCheapPrepend) := by
  have hLen : (b.append data).buffer.length =
      (b.ensureWritableBytes data.length).buffer.length := length_buffer_copyIn ..
  rw [hLen, readableBytes_append, readableBytes]
  have hr := b.read_le
  have hw := b.write_le
  rcases b.length_ensureWritableBytes data.length with hSame | ⟨hGrown, hSmall⟩
  · omega
  · -- what was consumed is shorter than the new data, so it counts no more than they do
    omega

/-- A read grows the vector by the append of what was spilled. -/
theorem length_readIn_le (chunk : Bytes) :
    (b.readIn chunk).buffer.length ≤
      max b.buffer.length (2 * (b.readIn chunk).readableBytes + kCheapPrepend) := by
  unfold readIn
  split
  · rw [length_buffer_copyIn]
    exact Nat.le_max_left ..
  · have hAppend := (b.copyIn (chunk.take b.writableBytes)
      (b.length_take_writableBytes_le chunk)).length_append_le (chunk.drop b.writableBytes)
    rwa [length_buffer_copyIn] at hAppend

/-! ## Runs -/

/-- The calls that move bytes. `ensureWritableBytes` reserves room for bytes that nobody
may ever put there; in the library only `append` calls it. -/
def Op.movesBytes : Op → Bool
  | .ensureWritableBytes _ => false
  | _ => true

/-- A buffer, with the largest number of readable bytes it has held. -/
structure Metered where
  traced : Traced
  peak : Nat := 0
  deriving DecidableEq

namespace Metered

def start (initialSize : Nat) : Metered := { traced := { mem := Memory.new initialSize } }

def step (m : Metered) (op : Op) : Option Metered :=
  (m.traced.step op).map fun t => ⟨t, max m.peak t.mem.readableBytes⟩

/-- The bound on the vector of a buffer that started with this size and has held so many
readable bytes. -/
def bound (initialSize peak : Nat) : Nat :=
  max (kCheapPrepend + initialSize) (2 * peak + kCheapPrepend)

/-- The memory is that of a buffer with its layout, within the bound. -/
structure Within (initialSize : Nat) (mem : Memory) (peak : Nat) : Prop where
  layout : ∃ b : Buffer, mem = b.memory
  capacity : mem.buffer.length ≤ bound initialSize peak

/-- A call that leaves the vector as long as it is, or at most twice as long as what is
then readable. -/
theorem Within.next {initialSize peak : Nat} {mem : Memory} (h : Within initialSize mem peak)
    {b' : Buffer} (hLength : b'.buffer.length ≤
      max mem.buffer.length (2 * b'.readableBytes + kCheapPrepend)) :
    Within initialSize b'.memory (max peak b'.readableBytes) where
  layout := ⟨b', rfl⟩
  capacity := by
    have hOld := h.capacity
    show b'.buffer.length ≤ _
    unfold bound at hOld ⊢
    omega

theorem Within.same {initialSize peak : Nat} {b b' : Buffer}
    (h : Within initialSize b.memory peak) (hLength : b'.buffer = b.buffer) :
    Within initialSize b'.memory (max peak b'.readableBytes) := by
  have hSame : b'.buffer.length ≤ b.memory.buffer.length := by rw [hLength]; exact le_rfl
  exact h.next (hSame.trans (Nat.le_max_left ..))

theorem within_step {initialSize : Nat} {m m' : Metered} {op : Op}
    (hStep : m.step op = some m') (hOp : op.movesBytes = true)
    (h : Within initialSize m.traced.mem m.peak) :
    Within initialSize m'.traced.mem m'.peak := by
  obtain ⟨⟨mem, put, taken⟩, peak⟩ := m
  obtain ⟨b, rfl⟩ := h.layout
  obtain ⟨t, ht, rfl⟩ := Option.map_eq_some_iff.mp hStep
  -- each call on the memory is the one on `b`
  cases op with
  | append data =>
    obtain rfl := Option.some.inj ht
    simp only [← memory_append]
    exact h.next (b.length_append_le data)
  | ensureWritableBytes len => cases hOp
  | retrieve len =>
    obtain rfl := Option.some.inj ht
    simp only [← memory_retrieve]
    exact h.same (b.buffer_retrieve len)
  | retrieveAll =>
    obtain rfl := Option.some.inj ht
    simp only [← memory_retrieveAll]
    exact h.same rfl
  | retrieveAsString len =>
    obtain rfl := Option.some.inj ht
    simp only [← memory_retrieve]
    exact h.same (b.buffer_retrieve _)
  | retrieveAllAsString =>
    obtain rfl := Option.some.inj ht
    simp only [← memory_retrieve]
    exact h.same (b.buffer_retrieve _)
  | read r =>
    cases r with
    | failed errno =>
      obtain rfl := Option.some.inj ht
      exact h.same rfl
    | bytes chunk =>
      simp only [Traced.step] at ht
      split_ifs at ht
      obtain rfl := Option.some.inj ht
      simp only [memory_readIn]
      exact h.next (b.length_readIn_le chunk)
  | write w =>
    cases w with
    | failed errno =>
      obtain rfl := Option.some.inj ht
      exact h.same rfl
    | accepted n =>
      simp only [Traced.step] at ht
      split_ifs at ht
      obtain rfl := Option.some.inj ht
      simp only [memory_writeCore]
      exact h.same (b.buffer_retrieve n)

theorem within_start (initialSize : Nat) :
    Within initialSize (start initialSize).traced.mem (start initialSize).peak where
  layout := ⟨Buffer.new initialSize, rfl⟩
  capacity := by
    show (List.replicate _ _).length ≤ _
    rw [List.length_replicate]
    exact Nat.le_max_left ..

/-- **The memory of a buffer is proportional to its backlog.** Whatever the size it starts
with and whatever is appended, read, retrieved and written, with any results of the system
calls, the vector is no longer than it was at the start or than twice the largest number of
bytes that were readable at a time, and the prepended bytes. -/
theorem capacity_le_backlog (initialSize : Nat) (m : Metered)
    (h : ReachesBy step (fun _ op => op.movesBytes = true) (start initialSize) m) :
    m.traced.mem.buffer.length ≤
      max (kCheapPrepend + initialSize) (2 * m.peak + kCheapPrepend) :=
  (h.invariant (P := fun m => Within initialSize m.traced.mem m.peak)
    (within_start initialSize) fun _ _ _ => within_step).capacity

/-- Two of three bytes are consumed when four more come: the ten in front are too few for a
move. The read then spills, and the vector grows once more. -/
theorem capacity_le_backlog_spilled :
    ∃ m, runAllBy step (fun _ op => op.movesBytes = true) (start 3)
        [.append [1, 2, 3], .retrieve 2, .append [4, 5, 6, 7], .read (.bytes [8, 9, 10, 11]),
          .retrieveAsString 4, .write (.accepted 1)] = some m ∧
      m.peak = 9 ∧ m.traced.mem.readableBytes = 4 ∧ m.traced.mem.buffer.length = 19 ∧
      m.traced.mem.buffer.length ≤ max (kCheapPrepend + 3) (2 * m.peak + kCheapPrepend) := by
  obtain ⟨m, hRun, hPeak, hReadable, hLength⟩ : ∃ m, runAllBy step
      (fun _ op => op.movesBytes = true) (start 3)
      [.append [1, 2, 3], .retrieve 2, .append [4, 5, 6, 7], .read (.bytes [8, 9, 10, 11]),
        .retrieveAsString 4, .write (.accepted 1)] = some m ∧
      m.peak = 9 ∧ m.traced.mem.readableBytes = 4 ∧ m.traced.mem.buffer.length = 19 :=
    ⟨_, rfl, rfl, rfl, rfl⟩
  exact ⟨m, hRun, hPeak, hReadable, hLength,
    capacity_le_backlog 3 m (reachesBy_of_runAllBy hRun)⟩

end Metered

end Buffer

end ReactorNet
