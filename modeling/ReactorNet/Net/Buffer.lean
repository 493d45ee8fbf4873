import ReactorNet.Lib.Bytes

/-!
# ReactorNet — the connection buffer

`Buffer` is the index-based buffer of `src/Buffer.cpp`: one vector, of which
the bytes between `readIndex` and `writeIndex` are readable and the bytes after
`writeIndex` are free. Space in front of `readIndex` is reused by moving the
readable bytes down, and only when that is not enough does the vector grow.

The layout `kCheapPrepend ≤ readIndex ≤ writeIndex ≤ buffer.size()` is part of
the type, so every operation below establishes it again.

Seen from outside, the buffer is a byte queue. `contents` is that queue:

* `contents_append` — an append puts bytes in at the back, whichever way the
  space for them is made.
* `contents_retrieve` — a retrieve takes bytes out at the front.
-/

namespace ReactorNet

open Lib

/-- Bytes kept free in front of the readable ones. -/
def kCheapPrepend : Nat := 8

/-- Space for payload a buffer starts with by default. -/
def kInitialSize : Nat := 1024

structure Buffer where
  buffer : Bytes
  readIndex : Nat
  writeIndex : Nat
  prepend_le : kCheapPrepend ≤ readIndex
  read_le : readIndex ≤ writeIndex
  write_le : writeIndex ≤ buffer.length

namespace Buffer

/-- The constructor: a zeroed vector and no readable byte. -/
def new (initialSize : Nat) : Buffer where
  buffer := List.replicate (kCheapPrepend + initialSize) 0
  readIndex := kCheapPrepend
  writeIndex := kCheapPrepend
  prepend_le := le_rfl
  read_le := le_rfl
  write_le := by rw [List.length_replicate]; omega

def readableBytes (b : Buffer) : Nat := b.writeIndex - b.readIndex

def writableBytes (b : Buffer) : Nat := b.buffer.length - b.writeIndex

def prependableBytes (b : Buffer) : Nat := b.readIndex

/-- The readable bytes; `peek()` points at the first of them. -/
def peek (b : Buffer) : Bytes := slice b.buffer b.readIndex b.readableBytes

def retrieveAll (b : Buffer) : Buffer where
  buffer := b.buffer
  readIndex := kCheapPrepend
  writeIndex := kCheapPrepend
  prepend_le := le_rfl
  read_le := le_rfl
  write_le := by have := b.prepend_le; have := b.read_le; have := b.write_le; omega

def retrieve (b : Buffer) (len : Nat) : Buffer :=
  if h : len < b.readableBytes then
    -- `readIndex_ += len`; the bytes stay where they are
    { b with
      readIndex := b.readIndex + len
      prepend_le := by have := b.prepend_le; omega
      read_le := by rw [readableBytes] at h; omega }
  else b.retrieveAll

/-- Grow the vector, or move the readable bytes to the front of it. -/
def makeSpace (b : Buffer) (len : Nat) : Buffer :=
  -- free space in front and behind together is not enough
  if b.writableBytes + b.prependableBytes < len + kCheapPrepend then
    { b with
      buffer := resize b.buffer (b.writeIndex + len) 0
      write_le := by rw [length_resize]; omega }
  else
    -- `std::copy` of the readable bytes down to `kCheapPrepend`
    { buffer := overwrite b.buffer kCheapPrepend b.peek
      readIndex := kCheapPrepend
      writeIndex := kCheapPrepend + b.readableBytes
      prepend_le := le_rfl
      read_le := by omega
      write_le := by
        have hp := b.prepend_le
        have hr := b.read_le
        have hw := b.write_le
        rw [length_overwrite, readableBytes]
        omega }

def ensureWritableBytes (b : Buffer) (len : Nat) : Buffer :=
  if b.writableBytes < len then b.makeSpace len else b

theorem length_peek (b : Buffer) : b.peek.length = b.readableBytes := by
  have hr := b.read_le
  have hw := b.write_le
  exact length_slice (by rw [readableBytes]; omega)

/-- Either way of making space makes enough of it. -/
theorem le_writableBytes_makeSpace (b : Buffer) (len : Nat) :
    len ≤ (b.makeSpace len).writableBytes := by
  have hp := b.prepend_le
  have hr := b.read_le
  have hw := b.write_le
  have hlen := b.length_peek
  unfold makeSpace
  split
  · -- grown: the new length is `writeIndex + len`
    simp only [writableBytes, length_resize]
    omega
  · -- moved: what was free in front is now free behind
    rename_i h
    rw [writableBytes, prependableBytes] at h
    simp only [writableBytes]
    rw [length_overwrite, readableBytes]
    omega

theorem le_writableBytes_ensureWritableBytes (b : Buffer) (len : Nat) :
    len ≤ (b.ensureWritableBytes len).writableBytes := by
  unfold ensureWritableBytes
  split
  · exact b.le_writableBytes_makeSpace len
  · omega

/-- Copy the data behind the readable bytes and move `writeIndex` past it. -/
def copyIn (b : Buffer) (data : Bytes) (hRoom : data.length ≤ b.writableBytes) : Buffer where
  buffer := overwrite b.buffer b.writeIndex data
  readIndex := b.readIndex
  writeIndex := b.writeIndex + data.length
  prepend_le := b.prepend_le
  read_le := by have := b.read_le; omega
  write_le := by
    have hw := b.write_le
    rw [writableBytes] at hRoom
    rw [length_overwrite]
    omega

def append (b : Buffer) (data : Bytes) : Buffer :=
  (b.ensureWritableBytes data.length).copyIn data
    (b.le_writableBytes_ensureWritableBytes data.length)

/-! ## The buffer as a byte queue -/

/-- The queue a buffer stands for: its readable bytes, oldest first. -/
def contents (b : Buffer) : Bytes := b.peek

@[simp] theorem peek_eq_contents (b : Buffer) : b.peek = b.contents := rfl

@[simp] theorem length_contents (b : Buffer) : b.contents.length = b.readableBytes :=
  b.length_peek

@[simp] theorem contents_new (initialSize : Nat) : (new initialSize).contents = [] := by
  simp [contents, peek, new, readableBytes, slice]

theorem contents_retrieveAll (b : Buffer) : b.retrieveAll.contents = [] := by
  simp [contents, peek, retrieveAll, readableBytes, slice]

/-- **A retrieve takes bytes out at the front.** -/
@[simp] theorem contents_retrieve (b : Buffer) (len : Nat) :
    (b.retrieve len).contents = b.contents.drop len := by
  unfold retrieve
  split
  · -- a partial retrieve: the slice starts `len` later
    rename_i h
    rw [contents, contents, peek, peek, drop_slice]
    simp only [readableBytes]
    rw [Nat.sub_add_eq]
  · -- at or above `readableBytes` the indices are reset
    rename_i h
    rw [contents_retrieveAll, List.drop_of_length_le]
    rw [length_contents]
    omega

theorem contents_makeSpace (b : Buffer) (len : Nat) (h : b.writableBytes < len) :
    (b.makeSpace len).contents = b.contents := by
  have hr := b.read_le
  have hw := b.write_le
  rw [writableBytes] at h
  unfold makeSpace
  split
  · -- the vector only got longer
    rw [contents, contents, peek, peek]
    simp only [readableBytes]
    exact slice_resize (by omega) (by omega)
  · -- the copy reads the old bytes, so an overlap does no harm
    have hp := b.prepend_le
    have hlen := b.length_peek
    rw [contents, peek]
    simp only [readableBytes, Nat.add_sub_cancel_left]
    rw [← readableBytes, ← b.length_peek]
    rw [readableBytes] at hlen
    exact slice_overwrite_self (by omega)

theorem contents_ensureWritableBytes (b : Buffer) (len : Nat) :
    (b.ensureWritableBytes len).contents = b.contents := by
  unfold ensureWritableBytes
  split
  · rename_i h
    exact b.contents_makeSpace len h
  · rfl

theorem contents_copyIn (b : Buffer) (data : Bytes) (hRoom : data.length ≤ b.writableBytes) :
    (b.copyIn data hRoom).contents = b.contents ++ data := by
  have hr := b.read_le
  have hw := b.write_le
  have hindex : b.readIndex + b.readableBytes = b.writeIndex := by rw [readableBytes]; omega
  have hcount : (b.copyIn data hRoom).readableBytes = b.readableBytes + data.length := by
    simp only [readableBytes, copyIn]
    omega
  rw [contents, contents, peek, hcount, peek]
  simp only [copyIn]
  rw [← hindex]
  rw [writableBytes] at hRoom
  exact slice_overwrite_append (by omega)

/-- **An append puts bytes in at the back**, also when it had to move or grow
what is already there. -/
@[simp] theorem contents_append (b : Buffer) (data : Bytes) :
    (b.append data).contents = b.contents ++ data := by
  rw [append, contents_copyIn, contents_ensureWritableBytes]

end Buffer

end ReactorNet
