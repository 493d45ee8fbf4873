import Mathlib.Data.List.AList
import ReactorNet.Lib.System
import ReactorNet.Net.Dispatch

/-!
# ReactorNet — the poller and the kernel

`EPollPoller`, the channels it is told about and the interest list of the kernel, as they are: a
channel is an object at an address, with a mask of events and the mark `index_`; the poller keeps
a map from descriptors to addresses; the kernel keeps a mask and an address for a descriptor, and
hands the address back with every event. Nothing but the discipline of the callers keeps the three
together, and an address that is handed back is used without a look at the map.

The discipline is that of the asserts and of the owners in this library: a channel is taken out
of the loop before it is destroyed, which is not in the middle of its own events or while the loop
has still to come to it; a descriptor is closed after the channels on it were taken out; and of
two channels on one descriptor only one is in use at a time.

What the operations do when nothing is wrong is said by `setInterest_mod`, `setInterest_del`,
`setInterest_add`, `remove_eq` and `fillActiveChannels_eq`.
-/

namespace ReactorNet.Epoll

open Lib

/-! ## Channels -/

def EPOLLIN : UInt32 := 0x001
def EPOLLPRI : UInt32 := 0x002
def EPOLLOUT : UInt32 := 0x004
def EPOLLERR : UInt32 := 0x008
def EPOLLHUP : UInt32 := 0x010

def kNoneEvent : UInt32 := 0
def kReadEvent : UInt32 := EPOLLIN ||| EPOLLPRI
def kWriteEvent : UInt32 := EPOLLOUT

/-- What the kernel reports in any case. -/
def kAlwaysReported : UInt32 := EPOLLERR ||| EPOLLHUP

structure Channel where
  fd : Nat
  events : UInt32 := kNoneEvent
  revents : UInt32 := 0
  index : ChannelIndex := .fresh
  addedToLoop : Bool := false
  eventHandling : Bool := false
  deriving DecidableEq

namespace Channel

def isNoneEvent (ch : Channel) : Bool := ch.events == kNoneEvent

end Channel

/-- The five switches of a channel. -/
inductive Interest where
  | enableReading
  | disableReading
  | enableWriting
  | disableWriting
  | disableAll
  deriving DecidableEq

/-- What a switch does to the mask. -/
def Interest.mask : Interest → UInt32 → UInt32
  | .enableReading, events => events ||| kReadEvent
  | .disableReading, events => events &&& ~~~kReadEvent
  | .enableWriting, events => events ||| kWriteEvent
  | .disableWriting, events => events &&& ~~~kWriteEvent
  | .disableAll, _ => kNoneEvent

/-- The masks that a channel can have. -/
def IsMask (events : UInt32) : Prop :=
  events = kNoneEvent ∨ events = kReadEvent ∨ events = kWriteEvent ∨
    events = kReadEvent ||| kWriteEvent

instance (events : UInt32) : Decidable (IsMask events) :=
  inferInstanceAs (Decidable (_ ∨ _ ∨ _ ∨ _))

theorem IsMask.mask {events : UInt32} (h : IsMask events) (switch : Interest) :
    IsMask (switch.mask events) := by
  rcases h with rfl | rfl | rfl | rfl <;> cases switch <;> decide

/-! ## The poller -/

inductive Operation where
  | add
  | mod
  | del
  deriving DecidableEq

/-- A loop: the channels in memory, the poller, the kernel's part, and the walk over the channels
that `poll` has returned. -/
structure EventLoop where
  /-- The channel at an address, if it has been constructed and not been destroyed. -/
  memory : Nat → Option Channel := fun _ => none
  /-- `channels_`. -/
  channels : AList fun _ : Nat => Nat := ∅
  /-- The kernel's interest list: mask and `data.ptr` for a descriptor. -/
  interest : AList fun _ : Nat => UInt32 × Nat := ∅
  openFds : List Nat := []
  /-- `events_.size()`, at first `kInitEventListSize`. -/
  eventsSize : Nat := 16
  activeChannels : List Nat := []
  /-- How many of them the loop has come to. -/
  position : Nat := 0
  /-- The loop is in the `handleEvent` of this channel. -/
  handling : Option Nat := none
  /-- The calls of `epoll_ctl` that failed. -/
  failed : List (Operation × Nat) := []
  /-- The addresses that were used when there was no channel. -/
  dangling : List Nat := []

namespace EventLoop

/-- A member of a channel is used. -/
def withChannel (s : EventLoop) (p : Nat) (f : Channel → EventLoop) : EventLoop :=
  match s.memory p with
  | some ch => f ch
  | none => { s with dangling := s.dangling ++ [p] }

def store (s : EventLoop) (p : Nat) (ch : Channel) : EventLoop :=
  { s with memory := Function.update s.memory p (some ch) }

/-- `epoll_ctl`. The descriptors of this library are not shared, so closing one takes it off the
interest list. -/
def epollCtl (s : EventLoop) (operation : Operation) (fd : Nat) (event : UInt32 × Nat) :
    EventLoop :=
  match operation with
  | .add =>
    if fd ∈ s.openFds ∧ fd ∉ s.interest then { s with interest := s.interest.insert fd event }
    else { s with failed := s.failed ++ [(.add, fd)] }
  | .mod =>
    if fd ∈ s.interest then { s with interest := s.interest.insert fd event }
    else { s with failed := s.failed ++ [(.mod, fd)] }
  | .del =>
    if fd ∈ s.interest then { s with interest := s.interest.erase fd }
    else { s with failed := s.failed ++ [(.del, fd)] }

/-- `EPollPoller::update`. -/
def update (s : EventLoop) (operation : Operation) (p : Nat) (ch : Channel) : EventLoop :=
  s.epollCtl operation ch.fd (ch.events, p)

def updateChannel (s : EventLoop) (p : Nat) : EventLoop :=
  s.withChannel p fun ch =>
    match ch.index with
    | .fresh =>
      { s with channels := s.channels.insert ch.fd p }.store p { ch with index := .added }
        |>.update .add p ch
    -- the map has kept the channel
    | .deleted => (s.store p { ch with index := .added }).update .add p ch
    | .added =>
      if ch.isNoneEvent then (s.update .del p ch).store p { ch with index := .deleted }
      else s.update .mod p ch

def removeChannel (s : EventLoop) (p : Nat) : EventLoop :=
  s.withChannel p fun ch =>
    let s' := { s with channels := s.channels.erase ch.fd }
    let s'' := if ch.index = .added then s'.update .del p ch else s'
    s''.store p { ch with index := .fresh }

def hasChannel (s : EventLoop) (p : Nat) (ch : Channel) : Bool :=
  s.channels.lookup ch.fd == some p

/-- One of the switches of a channel, with `Channel::update`. -/
def setInterest (s : EventLoop) (p : Nat) (switch : Interest) : EventLoop :=
  s.withChannel p fun ch =>
    (s.store p { ch with events := switch.mask ch.events, addedToLoop := true }).updateChannel p

/-- `Channel::remove`. -/
def remove (s : EventLoop) (p : Nat) : EventLoop :=
  s.withChannel p fun ch => (s.store p { ch with addedToLoop := false }).removeChannel p

/-- One pass of the loop in `fillActiveChannels`, for an event with its `data.ptr`. -/
def fillActiveChannel (s : EventLoop) (event : UInt32 × Nat) : EventLoop :=
  let s := s.withChannel event.2 fun ch => s.store event.2 { ch with revents := event.1 }
  { s with activeChannels := s.activeChannels ++ [event.2] }

def fillActiveChannels (s : EventLoop) (events : List (UInt32 × Nat)) : EventLoop :=
  events.foldl fillActiveChannel s

/-- `EPollPoller::poll`, when `epoll_wait` has filled in these events; none is a timeout or an
interrupted wait. The list of active channels was cleared before. -/
def poll (s : EventLoop) (events : List (UInt32 × Nat)) : EventLoop :=
  let s := { s with activeChannels := [], position := 0 }.fillActiveChannels events
  if 0 < events.length ∧ events.length = s.eventsSize then
    { s with eventsSize := s.eventsSize * 2 }
  else s

/-! ## The machine -/

/-- The active channels that the loop has still to come to. -/
def waiting (s : EventLoop) : List Nat := s.activeChannels.drop s.position

inductive Action where
  /-- A descriptor comes into being. -/
  | open (fd : Nat)
  | close (fd : Nat)
  | construct (p : Nat) (fd : Nat)
  | destroy (p : Nat)
  | setInterest (p : Nat) (switch : Interest)
  | remove (p : Nat)
  /-- `epoll_wait` returns with these descriptors ready, and these masks. -/
  | poll (ready : List (Nat × UInt32))
  /-- The loop calls `handleEvent` of the next active channel. -/
  | dispatch
  /-- `handleEvent` returns. -/
  | ret
  deriving DecidableEq

/-- User code runs in a callback, or when the walk is over. -/
def inUserCode (s : EventLoop) : Prop := s.handling.isSome ∨ s.waiting = []

instance (s : EventLoop) : Decidable s.inUserCode := inferInstanceAs (Decidable (_ ∨ _))

/-- The kernel reports a descriptor of the interest list, with events that were asked for or are
always reported. -/
def Ready (s : EventLoop) (r : Nat × UInt32) : Prop :=
  match s.interest.lookup r.1 with
  | none => False
  | some event => r.2 ≠ 0 ∧ r.2 &&& ~~~(event.1 ||| kAlwaysReported) = 0

instance (s : EventLoop) (r : Nat × UInt32) : Decidable (s.Ready r) := by
  unfold Ready
  split <;> infer_instance

/-- What the kernel fills in for a ready descriptor. -/
def eventFor (s : EventLoop) (r : Nat × UInt32) : Option (UInt32 × Nat) :=
  (s.interest.lookup r.1).map fun event => (r.2, event.2)

def step (s : EventLoop) : Action → Option EventLoop
  | .open fd => if fd ∈ s.openFds then none else some { s with openFds := s.openFds ++ [fd] }
  | .close fd =>
    if fd ∈ s.openFds then
      some { s with openFds := s.openFds.filter (· ≠ fd), interest := s.interest.erase fd }
    else none
  | .construct p fd =>
    match s.memory p with
    | none => some (s.store p { fd := fd })
    | some _ => none
  | .destroy p => some { s with memory := Function.update s.memory p none }
  | .setInterest p switch => if s.inUserCode then some (s.setInterest p switch) else none
  | .remove p => if s.inUserCode then some (s.remove p) else none
  | .poll ready =>
    if s.handling = none ∧ s.waiting = [] ∧ (ready.map Prod.fst).Nodup ∧ (∀ r ∈ ready, s.Ready r) ∧
        ready.length ≤ s.eventsSize then
      some (s.poll (ready.filterMap s.eventFor))
    else none
  | .dispatch =>
    match s.handling, s.waiting with
    | none, p :: _ =>
      some ((s.withChannel p fun ch => s.store p { ch with eventHandling := true }) |> fun s =>
        { s with position := s.position + 1, handling := some p })
    | _, _ => none
  | .ret =>
    match s.handling with
    | none => none
    | some p =>
      some ((s.withChannel p fun ch => s.store p { ch with eventHandling := false }) |> fun s =>
        { s with handling := none })

/-- What an action that is possible leads to. -/
inductive Outcome (s : EventLoop) : Action → EventLoop → Prop where
  | opened (fd : Nat) : Outcome s (.open fd) { s with openFds := s.openFds ++ [fd] }
  | closed (fd : Nat) : Outcome s (.close fd)
      { s with openFds := s.openFds.filter (· ≠ fd), interest := s.interest.erase fd }
  | constructed (p fd : Nat) (hNone : s.memory p = none) :
      Outcome s (.construct p fd) (s.store p { fd := fd })
  | destroyed (p : Nat) :
      Outcome s (.destroy p) { s with memory := Function.update s.memory p none }
  | switched (p : Nat) (switch : Interest) (hUser : s.inUserCode) :
      Outcome s (.setInterest p switch) (s.setInterest p switch)
  | removed (p : Nat) (hUser : s.inUserCode) : Outcome s (.remove p) (s.remove p)
  | polled (ready : List (Nat × UInt32)) (hHandling : s.handling = none) (hWaiting : s.waiting = [])
      (hNodup : (ready.map Prod.fst).Nodup) (hReady : ∀ r ∈ ready, s.Ready r)
      (hLength : ready.length ≤ s.eventsSize) :
      Outcome s (.poll ready) (s.poll (ready.filterMap s.eventFor))
  | dispatched (p : Nat) (rest : List Nat) (hHandling : s.handling = none)
      (hWaiting : s.waiting = p :: rest) : Outcome s .dispatch
      ((s.withChannel p fun ch => s.store p { ch with eventHandling := true }) |> fun s =>
        { s with position := s.position + 1, handling := some p })
  | returned (p : Nat) (hHandling : s.handling = some p) : Outcome s .ret
      ((s.withChannel p fun ch => s.store p { ch with eventHandling := false }) |> fun s =>
        { s with handling := none })

/-- **Inversion of a step.** -/
theorem step_outcome {s s' : EventLoop} {a : Action} (h : s.step a = some s') : s.Outcome a s' := by
  cases a with
  | «open» fd =>
    simp only [step] at h
    split_ifs at h
    exact Option.some.inj h ▸ .opened fd
  | close fd =>
    simp only [step] at h
    split_ifs at h
    exact Option.some.inj h ▸ .closed fd
  | construct p fd =>
    simp only [step] at h
    split at h
    · rename_i hNone
      exact Option.some.inj h ▸ .constructed p fd hNone
    · cases h
  | destroy p => exact Option.some.inj h ▸ .destroyed p
  | setInterest p switch =>
    simp only [step] at h
    split_ifs at h with hUser
    exact Option.some.inj h ▸ .switched p switch hUser
  | remove p =>
    simp only [step] at h
    split_ifs at h with hUser
    exact Option.some.inj h ▸ .removed p hUser
  | poll ready =>
    simp only [step] at h
    split_ifs at h with hGuard
    obtain ⟨hHandling, hWaiting, hNodup, hReady, hLength⟩ := hGuard
    exact Option.some.inj h ▸ .polled ready hHandling hWaiting hNodup hReady hLength
  | dispatch =>
    simp only [step] at h
    split at h
    · rename_i p rest hHandling hWaiting
      exact Option.some.inj h ▸ .dispatched p rest hHandling hWaiting
    · cases h
  | ret =>
    simp only [step] at h
    split at h
    · cases h
    · rename_i p hHandling
      exact Option.some.inj h ▸ .returned p hHandling

/-- No other channel on the descriptor is in use. -/
def Sole (s : EventLoop) (p : Nat) (ch : Channel) : Prop :=
  ∀ q ch', s.memory q = some ch' → ch'.fd = ch.fd → q = p ∨ ch'.index = .fresh

/-- The discipline of the callers. -/
def Disciplined (s : EventLoop) : Action → Prop
  | .open _ | .poll _ | .dispatch | .ret => True
  | .close fd => ∀ p ch, s.memory p = some ch → ch.fd = fd → ch.index = .fresh
  | .construct _ fd => fd ∈ s.openFds
  | .destroy p => ∃ ch, s.memory p = some ch ∧ ch.addedToLoop = false ∧ s.handling ≠ some p ∧
      p ∉ s.waiting
  | .setInterest p _ => ∃ ch, s.memory p = some ch ∧ ch.fd ∈ s.openFds ∧ s.Sole p ch
  | .remove p => ∃ ch, s.memory p = some ch ∧ ch.isNoneEvent = true ∧ s.Sole p ch

/-! ## What the operations do -/

section Operations

variable {s : EventLoop} {p : Nat} {ch : Channel}

/-- A switch of a channel that is in the interest list and stays there. -/
theorem setInterest_mod (hp : s.memory p = some ch) (switch : Interest) (hIndex : ch.index = .added)
    (hMem : ch.fd ∈ s.interest) (hSome : switch.mask ch.events ≠ kNoneEvent) :
    s.setInterest p switch = { s with
      memory := Function.update s.memory p
        (some { ch with events := switch.mask ch.events, addedToLoop := true })
      interest := s.interest.insert ch.fd (switch.mask ch.events, p) } := by
  simp [setInterest, withChannel, hp, updateChannel, store, hIndex, Channel.isNoneEvent, hSome,
    update, epollCtl, hMem]

/-- A switch of a channel that leaves the interest list, for want of interest. -/
theorem setInterest_del (hp : s.memory p = some ch) (switch : Interest) (hIndex : ch.index = .added)
    (hMem : ch.fd ∈ s.interest) (hNone : switch.mask ch.events = kNoneEvent) :
    s.setInterest p switch = { s with
      memory := Function.update s.memory p
        (some { ch with events := kNoneEvent, addedToLoop := true, index := .deleted })
      interest := s.interest.erase ch.fd } := by
  simp [setInterest, withChannel, hp, updateChannel, store, hIndex, Channel.isNoneEvent, hNone,
    update, epollCtl, hMem]

/-- A switch of a channel that is not in the interest list puts it there, also with an empty mask. -/
theorem setInterest_add (hp : s.memory p = some ch) (switch : Interest) (hIndex : ch.index ≠ .added)
    (hOpen : ch.fd ∈ s.openFds) (hMem : ch.fd ∉ s.interest) :
    s.setInterest p switch = { s with
      memory := Function.update s.memory p
        (some { ch with
          events := switch.mask ch.events, addedToLoop := true, index := .added })
      channels := if ch.index = .fresh then s.channels.insert ch.fd p else s.channels
      interest := s.interest.insert ch.fd (switch.mask ch.events, p) } := by
  cases hMark : ch.index with
  | fresh | deleted =>
    simp [setInterest, withChannel, hp, updateChannel, store, hMark, update, epollCtl, hOpen, hMem]
  | added => exact absurd hMark hIndex

theorem remove_eq (hp : s.memory p = some ch)
    (hMem : ch.index = .added → ch.fd ∈ s.interest) :
    s.remove p = { s with
      memory := Function.update s.memory p
        (some { ch with addedToLoop := false, index := .fresh })
      channels := s.channels.erase ch.fd
      interest := if ch.index = .added then s.interest.erase ch.fd else s.interest } := by
  by_cases hIndex : ch.index = .added
  · simp [remove, withChannel, hp, removeChannel, store, hIndex, update, epollCtl, hMem hIndex]
  · simp [remove, withChannel, hp, removeChannel, store, hIndex]

end Operations

/-! ## Events are reported -/

/-- What the poller is concerned with. -/
def registration (ch : Channel) : Nat × UInt32 × ChannelIndex × Bool :=
  (ch.fd, ch.events, ch.index, ch.addedToLoop)

/-- The channels after `setRevents` was called for these events. -/
def reported (events : List (UInt32 × Nat)) (memory : Nat → Option Channel) :
    Nat → Option Channel :=
  events.foldl (fun memory event => Function.update memory event.2
    ((memory event.2).map fun ch => { ch with revents := event.1 })) memory

theorem registration_reported (events : List (UInt32 × Nat)) (memory : Nat → Option Channel)
    (q : Nat) : (reported events memory q).map registration = (memory q).map registration := by
  induction events generalizing memory with
  | nil => rfl
  | cons event events ih =>
    rw [reported, List.foldl_cons, ← reported, ih]
    by_cases hq : q = event.2
    · rw [hq, Function.update_self, Option.map_map]
      rfl
    · rw [Function.update_of_ne hq]

theorem isSome_reported (events : List (UInt32 × Nat)) (memory : Nat → Option Channel) (q : Nat) :
    (reported events memory q).isSome = (memory q).isSome := by
  have hSame := congrArg Option.isSome (registration_reported events memory q)
  simpa using hSame

theorem reported_of_notMem {events : List (UInt32 × Nat)} {q : Nat}
    (hq : q ∉ events.map Prod.snd) (memory : Nat → Option Channel) :
    reported events memory q = memory q := by
  induction events generalizing memory with
  | nil => rfl
  | cons event events ih =>
    rw [List.map_cons, List.mem_cons, not_or] at hq
    rw [reported, List.foldl_cons, ← reported, ih hq.2, Function.update_of_ne hq.1]

/-- An address that is reported once has the mask it is reported with. -/
theorem reported_of_mem {events : List (UInt32 × Nat)} (hNodup : (events.map Prod.snd).Nodup)
    {event : UInt32 × Nat} (hMem : event ∈ events) (memory : Nat → Option Channel) :
    reported events memory event.2 =
      (memory event.2).map fun ch => { ch with revents := event.1 } := by
  induction events generalizing memory with
  | nil => cases hMem
  | cons first events ih =>
    rw [List.map_cons, List.nodup_cons] at hNodup
    rw [reported, List.foldl_cons, ← reported]
    rcases List.mem_cons.mp hMem with rfl | hMem
    · rw [reported_of_notMem hNodup.1, Function.update_self]
    · have hNe : event.2 ≠ first.2 := by
        intro hEq
        exact hNodup.1 (hEq ▸ List.mem_map_of_mem hMem)
      rw [ih hNodup.2 hMem, Function.update_of_ne hNe]

/-- With addresses of channels that exist, `fillActiveChannels` reports the events and nothing
else. -/
theorem fillActiveChannels_eq (events : List (UInt32 × Nat)) (s : EventLoop)
    (hLive : ∀ event ∈ events, (s.memory event.2).isSome) :
    s.fillActiveChannels events = { s with
      memory := reported events s.memory
      activeChannels := s.activeChannels ++ events.map Prod.snd } := by
  induction events generalizing s with
  | nil => simp [fillActiveChannels, reported]
  | cons event events ih =>
    obtain ⟨ch, hp⟩ := Option.isSome_iff_exists.mp (hLive event (List.mem_cons_self ..))
    have hPass : s.fillActiveChannel event = { s with
        memory := reported [event] s.memory
        activeChannels := s.activeChannels ++ [event.2] } := by
      simp [fillActiveChannel, withChannel, hp, store, reported]
    have hRest : ∀ e ∈ events, ((s.fillActiveChannel event).memory e.2).isSome := by
      intro e he
      rw [hPass]
      exact (isSome_reported ..).trans (hLive e (List.mem_cons_of_mem _ he))
    rw [fillActiveChannels, List.foldl_cons, ← fillActiveChannels, ih _ hRest, hPass]
    simp [reported]

end EventLoop

end ReactorNet.Epoll
