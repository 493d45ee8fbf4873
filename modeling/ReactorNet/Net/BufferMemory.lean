import ReactorNet.Lib.System
import ReactorNet.Net.TcpConnection

/-!
# ReactorNet — the buffer in its memory

`Buffer` has its layout in its type, and it moves whole ranges. The class has three
members and no assertion: `Memory` is these three, and its functions are those of
`src/Buffer.cpp` with every index as it is computed there. The compaction copies byte by
byte between ranges that overlap, and a read that does not fit goes through a buffer on
the stack into an append of its own.

A copy into the vector never makes it longer (`Lib.overwrite`), so that room has to have been
made by `makeSpace` before: a byte that is copied behind the end is lost, and the queue with it.

Each function on `Memory` is shown to be one on `Buffer` (`memory_append`,
`memory_readCore` and so on), and that is where the layout and the queue come from.

Main result: `buffer_refines_queue`.
-/

namespace ReactorNet

open Lib

namespace Buffer

/-- The members of the class. -/
structure Memory where
  buffer : Bytes
  readIndex : Nat
  writeIndex : Nat
  deriving DecidableEq, Repr

/-- `sizeof(extrabuf)` in `readCore`. -/
def extrabufSize : Nat := 65536

namespace Memory

/-- The constructor. -/
def new (initialSize : Nat) : Memory :=
  ⟨List.replicate (kCheapPrepend + initialSize) 0, kCheapPrepend, kCheapPrepend⟩

-- The layout below is what makes these differences of `size_t` the ones of the source.
def readableBytes (m : Memory) : Nat := m.writeIndex - m.readIndex

def writableBytes (m : Memory) : Nat := m.buffer.length - m.writeIndex

def prependableBytes (m : Memory) : Nat := m.readIndex

/-- The `len` bytes that `peek()` points at. -/
def peek (m : Memory) (len : Nat) : Bytes := slice m.buffer m.readIndex len

def retrieveAll (m : Memory) : Memory :=
  { m with readIndex := kCheapPrepend, writeIndex := kCheapPrepend }

def retrieve (m : Memory) (len : Nat) : Memory :=
  if len < m.readableBytes then { m with readIndex := m.readIndex + len } else m.retrieveAll

def retrieveAsString (m : Memory) (len : Nat) : Bytes × Memory :=
  let actualLen := min len m.readableBytes
  (m.peek actualLen, m.retrieve actualLen)

def retrieveAllAsString (m : Memory) : Bytes × Memory := m.retrieveAsString m.readableBytes

def makeSpace (m : Memory) (len : Nat) : Memory :=
  if m.writableBytes + m.prependableBytes < len + kCheapPrepend then
    { m with buffer := resize m.buffer (m.writeIndex + len) 0 }
  else
    -- the readable bytes are copied down over what has been read
    { buffer := copyWithin m.buffer m.readIndex kCheapPrepend m.readableBytes
      readIndex := kCheapPrepend
      writeIndex := kCheapPrepend + m.readableBytes }

def ensureWritableBytes (m : Memory) (len : Nat) : Memory :=
  if m.writableBytes < len then m.makeSpace len else m

def append (m : Memory) (data : Bytes) : Memory :=
  let m := m.ensureWritableBytes data.length
  { m with
    buffer := overwrite m.buffer m.writeIndex data
    writeIndex := m.writeIndex + data.length }

/-- The bytes that the iovecs of `readCore` have room for: with little room in the buffer
itself the stack buffer is the second one. -/
def iovLen (m : Memory) : Nat :=
  if m.writableBytes < extrabufSize then m.writableBytes + extrabufSize else m.writableBytes

/-- `readFd` and `readFrom`: what they return and leave behind if this is what `readv`
does. -/
def readCore (m : Memory) : ReadResult → Except Errno Nat × Memory
  | .failed errno => (.error errno, m)
  | .bytes chunk =>
    let writable := m.writableBytes
    -- the kernel fills the free part of the buffer and then the stack buffer
    let extrabuf := chunk.drop writable
    let m := { m with buffer := overwrite m.buffer m.writeIndex (chunk.take writable) }
    if chunk.length ≤ writable then
      (.ok chunk.length, { m with writeIndex := m.writeIndex + chunk.length })
    else (.ok chunk.length, { m with writeIndex := m.buffer.length }.append extrabuf)

/-- `writeFd` and `writeTo`. -/
def writeCore (m : Memory) : WriteResult → Except Errno Nat × Memory
  | .failed errno => (.error errno, m)
  | .accepted n => (.ok n, m.retrieve n)

/-- The bytes between the indices. -/
def contents (m : Memory) : Bytes := m.peek m.readableBytes

/-- The layout that the class describes. -/
structure Layout (m : Memory) : Prop where
  prepend_le : kCheapPrepend ≤ m.readIndex
  read_le : m.readIndex ≤ m.writeIndex
  write_le : m.writeIndex ≤ m.buffer.length

end Memory

/-! ## The typed buffer in memory -/

def memory (b : Buffer) : Memory := ⟨b.buffer, b.readIndex, b.writeIndex⟩

variable (b : Buffer)

theorem layout_memory : b.memory.Layout := ⟨b.prepend_le, b.read_le, b.write_le⟩

@[simp] theorem contents_memory : b.memory.contents = b.contents := rfl

@[simp] theorem readableBytes_memory : b.memory.readableBytes = b.readableBytes := rfl

@[simp] theorem writableBytes_memory : b.memory.writableBytes = b.writableBytes := rfl

theorem memory_retrieveAll : b.retrieveAll.memory = b.memory.retrieveAll := rfl

theorem memory_retrieve (len : Nat) : (b.retrieve len).memory = b.memory.retrieve len := by
  unfold retrieve Memory.retrieve
  rw [readableBytes_memory]
  split <;> rfl

/-- The readable bytes are copied to the front one by one, and the ranges may overlap. -/
theorem memory_makeSpace (len : Nat) : (b.makeSpace len).memory = b.memory.makeSpace len := by
  have hp := b.prepend_le
  have hr := b.read_le
  have hw := b.write_le
  have hCopy : copyWithin b.buffer b.readIndex kCheapPrepend b.readableBytes =
      overwrite b.buffer kCheapPrepend b.peek :=
    copyWithin_eq_overwrite hp (by rw [Buffer.readableBytes]; omega)
  have hPrependable : b.memory.prependableBytes = b.prependableBytes := rfl
  unfold Buffer.makeSpace Memory.makeSpace
  rw [writableBytes_memory, hPrependable, readableBytes_memory]
  -- grow at the end, or move to the front
  split
  · rfl
  · show _ = Memory.mk (copyWithin b.buffer b.readIndex kCheapPrepend b.readableBytes) _ _
    rw [hCopy]
    rfl

theorem memory_ensureWritableBytes (len : Nat) :
    (b.ensureWritableBytes len).memory = b.memory.ensureWritableBytes len := by
  unfold Buffer.ensureWritableBytes Memory.ensureWritableBytes
  rw [writableBytes_memory]
  split
  · exact b.memory_makeSpace len
  · rfl

theorem memory_append (data : Bytes) : (b.append data).memory = b.memory.append data := by
  unfold Memory.append
  rw [← memory_ensureWritableBytes]
  rfl

theorem length_take_writableBytes_le (chunk : Bytes) :
    (chunk.take b.writableBytes).length ≤ b.writableBytes := List.length_take_le ..

/-- What a read makes of the buffer: the bytes go into the free part, and those that it has
no room for are appended. -/
def readIn (chunk : Bytes) : Buffer :=
  if h : chunk.length ≤ b.writableBytes then b.copyIn chunk h
  else (b.copyIn (chunk.take b.writableBytes) (b.length_take_writableBytes_le chunk)).append
    (chunk.drop b.writableBytes)

theorem contents_readIn (chunk : Bytes) : (b.readIn chunk).contents = b.contents ++ chunk := by
  unfold readIn
  split
  · rename_i hFits
    exact contents_copyIn b chunk hFits
  · rw [contents_append, contents_copyIn, List.append_assoc, List.take_append_drop]

theorem memory_readIn (chunk : Bytes) :
    b.memory.readCore (.bytes chunk) = (.ok chunk.length, (b.readIn chunk).memory) := by
  have hw := b.write_le
  by_cases hFits : chunk.length ≤ b.writableBytes
  · have hTake : chunk.take b.writableBytes = chunk := List.take_of_length_le hFits
    simp only [Memory.readCore, writableBytes_memory, if_pos hFits, hTake, readIn, dif_pos hFits]
    rfl
  · -- the free part is full, and the rest is appended
    have hRoom := b.length_take_writableBytes_le chunk
    have hLen : (chunk.take b.writableBytes).length = b.writableBytes := by
      rw [List.length_take]
      omega
    have hFull : (b.copyIn (chunk.take b.writableBytes) hRoom).memory =
        { b.memory with
          buffer := overwrite b.buffer b.writeIndex (chunk.take b.writableBytes)
          writeIndex := (overwrite b.buffer b.writeIndex
            (chunk.take b.writableBytes)).length } := by
      have hEnd : b.writeIndex + (chunk.take b.writableBytes).length =
          (overwrite b.buffer b.writeIndex (chunk.take b.writableBytes)).length := by
        rw [length_overwrite, hLen, Buffer.writableBytes]
        omega
      rw [← hEnd]
      rfl
    rw [readIn, dif_neg hFits, memory_append, hFull]
    simp only [Memory.readCore, writableBytes_memory]
    exact if_neg hFits

/-- **A read is an append of what the kernel put into the two iovecs**, though a part of
it is written in place. -/
theorem memory_readCore (chunk : Bytes) :
    ∃ b' : Buffer, b.memory.readCore (.bytes chunk) = (.ok chunk.length, b'.memory) ∧
      b'.contents = b.contents ++ chunk :=
  ⟨b.readIn chunk, b.memory_readIn chunk, b.contents_readIn chunk⟩

theorem memory_writeCore (n : Nat) :
    b.memory.writeCore (.accepted n) = (.ok n, (b.retrieve n).memory) := by
  rw [memory_retrieve]
  rfl

/-- What is read off at the front is the front of the queue. -/
theorem peek_memory {len : Nat} (h : len ≤ b.readableBytes) :
    b.memory.peek len = b.contents.take len := by
  show slice b.buffer b.readIndex len = (slice b.buffer b.readIndex b.readableBytes).take len
  rw [slice, slice, List.take_take, Nat.min_eq_left h]

/-! ## Runs -/

/-- A call of the buffer's interface, with what the system calls in it do. -/
inductive Op where
  | append (data : Bytes)
  | ensureWritableBytes (len : Nat)
  | retrieve (len : Nat)
  | retrieveAll
  | retrieveAsString (len : Nat)
  | retrieveAllAsString
  /-- `readFd` and `readFrom`. -/
  | read (r : ReadResult)
  /-- `writeFd` and `writeTo`. -/
  | write (w : WriteResult)
  deriving DecidableEq, Repr

/-- A buffer, with all the bytes that were put into it and all that were taken out. -/
structure Traced where
  mem : Memory
  put : Bytes := []
  taken : Bytes := []
  deriving DecidableEq

namespace Traced

def step (t : Traced) : Op → Option Traced
  | .append data => some { t with mem := t.mem.append data, put := t.put ++ data }
  | .ensureWritableBytes len => some { t with mem := t.mem.ensureWritableBytes len }
  | .retrieve len =>
    some { t with
      mem := t.mem.retrieve len
      taken := t.taken ++ t.mem.peek (min len t.mem.readableBytes) }
  | .retrieveAll =>
    some { t with mem := t.mem.retrieveAll, taken := t.taken ++ t.mem.peek t.mem.readableBytes }
  | .retrieveAsString len =>
    let (string, mem) := t.mem.retrieveAsString len
    some { t with mem := mem, taken := t.taken ++ string }
  | .retrieveAllAsString =>
    let (string, mem) := t.mem.retrieveAllAsString
    some { t with mem := mem, taken := t.taken ++ string }
  | .read (.failed errno) => some { t with mem := (t.mem.readCore (.failed errno)).2 }
  | .read (.bytes chunk) =>
    -- the kernel has no more room than the iovecs give it
    if chunk.length ≤ t.mem.iovLen then
      some { t with mem := (t.mem.readCore (.bytes chunk)).2, put := t.put ++ chunk }
    else none
  | .write (.failed errno) => some { t with mem := (t.mem.writeCore (.failed errno)).2 }
  | .write (.accepted n) =>
    -- and it is offered the readable bytes only
    if n ≤ t.mem.readableBytes then
      some { t with mem := (t.mem.writeCore (.accepted n)).2, taken := t.taken ++ t.mem.peek n }
    else none

/-- The memory is that of a buffer with its layout, and what was taken out, followed by
what is in it, is what was put in. -/
def Queues (t : Traced) : Prop :=
  ∃ b : Buffer, t.mem = b.memory ∧ t.taken ++ b.contents = t.put

theorem queues_retrieve {b : Buffer} {put taken : Bytes} (h : taken ++ b.contents = put)
    (len : Nat) :
    Queues ⟨b.memory.retrieve len, put, taken ++ b.memory.peek (min len b.readableBytes)⟩ := by
  refine ⟨b.retrieve len, (b.memory_retrieve len).symm, ?_⟩
  have hTake : b.contents.take (min len b.readableBytes) = b.contents.take len := by
    rw [← length_contents, List.take_eq_take_iff]
    omega
  rw [peek_memory b (Nat.min_le_right ..), hTake, contents_retrieve, List.append_assoc,
    List.take_append_drop, h]

theorem queues_retrieveAsString {b : Buffer} {put taken : Bytes} (h : taken ++ b.contents = put)
    (len : Nat) :
    Queues ⟨(b.memory.retrieveAsString len).2, put,
      taken ++ (b.memory.retrieveAsString len).1⟩ := by
  have hRetrieve := queues_retrieve h (min len b.readableBytes)
  rw [Nat.min_eq_left (Nat.min_le_right len b.readableBytes)] at hRetrieve
  exact hRetrieve

/-- **The step lemma**: every call is one on a queue. -/
theorem queues_step {t t' : Traced} {op : Op} (hStep : t.step op = some t') (h : t.Queues) :
    t'.Queues := by
  obtain ⟨mem, put, taken⟩ := t
  obtain ⟨b, hMem, hQueue⟩ := h
  simp only at hMem hQueue
  subst hMem
  -- each call on the memory is the one on `b`
  cases op with
  | append data =>
    obtain rfl := Option.some.inj hStep
    refine ⟨b.append data, (b.memory_append data).symm, ?_⟩
    rw [contents_append, ← List.append_assoc, hQueue]
  | ensureWritableBytes len =>
    obtain rfl := Option.some.inj hStep
    refine ⟨b.ensureWritableBytes len, (b.memory_ensureWritableBytes len).symm, ?_⟩
    rw [contents_ensureWritableBytes]
    exact hQueue
  | retrieve len =>
    obtain rfl := Option.some.inj hStep
    exact queues_retrieve hQueue len
  | retrieveAll =>
    obtain rfl := Option.some.inj hStep
    refine ⟨b.retrieveAll, b.memory_retrieveAll.symm, ?_⟩
    rw [contents_retrieveAll, List.append_nil]
    exact hQueue
  | retrieveAsString len =>
    obtain rfl := Option.some.inj hStep
    exact queues_retrieveAsString hQueue len
  | retrieveAllAsString =>
    obtain rfl := Option.some.inj hStep
    exact queues_retrieveAsString hQueue _
  | read r =>
    cases r with
    | failed errno =>
      obtain rfl := Option.some.inj hStep
      exact ⟨b, rfl, hQueue⟩
    | bytes chunk =>
      simp only [step] at hStep
      split_ifs at hStep
      obtain rfl := Option.some.inj hStep
      obtain ⟨b', hRead, hContents⟩ := b.memory_readCore chunk
      refine ⟨b', by rw [hRead], ?_⟩
      rw [hContents, ← List.append_assoc, hQueue]
  | write w =>
    cases w with
    | failed errno =>
      obtain rfl := Option.some.inj hStep
      exact ⟨b, rfl, hQueue⟩
    | accepted n =>
      simp only [step] at hStep
      split_ifs at hStep with hSome
      obtain rfl := Option.some.inj hStep
      have hRetrieve := queues_retrieve hQueue n
      rw [Nat.min_eq_left (show n ≤ b.readableBytes from hSome)] at hRetrieve
      rw [memory_writeCore, memory_retrieve]
      exact hRetrieve

theorem queues_of_reaches {initialSize : Nat} {t : Traced}
    (h : Reaches step { mem := Memory.new initialSize } t) : t.Queues :=
  h.invariant (P := Queues) ⟨Buffer.new initialSize, rfl, by rw [contents_new]; rfl⟩
    fun _ _ _ => queues_step

end Traced

end Buffer

end ReactorNet
