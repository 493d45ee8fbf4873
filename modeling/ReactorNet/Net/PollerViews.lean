import ReactorNet.Net.PollerExact
import ReactorNet.Net.TcpConnection

/-!
# ReactorNet — what connections and the loop see of the poller

A `TcpConnection` looks at its channel as two switches and whether the descriptor is in the epoll
set; the walk over the active channels looks at the poller as a set of channels and their marks.
Both are views of the one poller with its masks, addresses, map and interest list, and keep up with
it: a channel's view changes by the channel's own operations only, and as they say; and every
disciplined run of the loop is a run of the walk.

Main results:

* `channel_view` — the view of a connection, along every step of every run.
* `dispatch_view` — the view of the walk: a forward simulation.
-/

namespace ReactorNet.Epoll

open Lib

namespace EventLoop

/-! ## The view of a connection -/

/-- What a connection sees of a mask and a mark. -/
def viewOf (events : UInt32) (index : ChannelIndex) : ReactorNet.Channel where
  reading := events &&& kReadEvent != 0
  writing := events &&& kWriteEvent != 0
  inEpoll := index == .added

/-- What a connection sees of its channel. -/
def view (ch : Channel) : ReactorNet.Channel := viewOf ch.events ch.index

/-- What a switch is to a connection. -/
def Interest.onView : Interest → ReactorNet.Channel → ReactorNet.Channel
  | .enableReading, ch => ch.enableReading
  | .disableReading, ch => { ch with reading := false }.update
  | .enableWriting, ch => ch.enableWriting
  | .disableWriting, ch => ch.disableWriting
  | .disableAll, ch => ch.disableAll

/-- What `Channel::remove` makes of it. -/
def takenOut (ch : Channel) : Channel := { ch with addedToLoop := false, index := .fresh }

/-- **A switch is to a connection what its own model of a channel says.** -/
theorem view_switched {ch : Channel} (hMask : IsMask ch.events) (switch : Interest) :
    view (switched switch ch) = Interest.onView switch (view ch) := by
  have hAll : ∀ events, IsMask events → ∀ index,
      viewOf (switch.mask events) (markAfter index (switch.mask events)) =
        Interest.onView switch (viewOf events index) := by
    -- four masks, five switches, three marks
    rintro events (rfl | rfl | rfl | rfl) index <;> cases switch <;> cases index <;> decide
  exact hAll ch.events hMask ch.index

section Effects

variable {s s' : EventLoop} {p : Nat} {ch : Channel}

/-- **What a step does to a channel that it does not destroy.** -/
inductive Effect (a : Action) (p : Nat) (ch ch' : Channel) : Prop
  /-- A switch of the channel. -/
  | switched (switch : Interest) (ha : a = .setInterest p switch)
      (h : ch' = EventLoop.switched switch ch)
  /-- The channel is taken out. -/
  | takenOut (ha : a = .remove p) (hNone : ch.isNoneEvent = true)
      (h : ch' = EventLoop.takenOut ch)
  /-- Nothing that the poller is concerned with. -/
  | other (hSwitch : ∀ switch, a ≠ .setInterest p switch) (hRemove : a ≠ .remove p)
      (h : registration ch' = registration ch)

theorem effect_of_step (h : Exact s) {a : Action} (hStep : s.step a = some s')
    (hOk : s.Disciplined a) (hp : s.memory p = some ch) (hKept : a ≠ .destroy p) :
    ∃ ch', s'.memory p = some ch' ∧ Effect a p ch ch' := by
  -- a step about something else leaves the registration as it was
  have hOther : ∀ {a : Action}, (∀ switch, a ≠ .setInterest p switch) → a ≠ .remove p →
      (s'.memory p).map registration = (s.memory p).map registration →
      ∃ ch', s'.memory p = some ch' ∧ Effect a p ch ch' := by
    intro a hSwitch hRemove hMemory
    rw [hp, Option.map_some] at hMemory
    obtain ⟨ch', hp', hSame⟩ := Option.map_eq_some_iff.mp hMemory
    exact ⟨ch', hp', .other hSwitch hRemove hSame⟩
  cases step_outcome hStep with
  | opened | closed => exact hOther (by simp) (by simp) rfl
  | constructed q fd hNone =>
    have hNe : p ≠ q := by
      rintro rfl
      rw [hNone] at hp
      cases hp
    exact hOther (by simp) (by simp) (congrArg _ (Function.update_of_ne hNe ..))
  | destroyed q =>
    have hNe : p ≠ q := by
      rintro rfl
      exact hKept rfl
    exact hOther (by simp) (by simp) (congrArg _ (Function.update_of_ne hNe ..))
  | switched q switch =>
    obtain ⟨chq, hq, hOpen, hSole⟩ := hOk
    obtain ⟨channels, interest, hEq⟩ := h.setInterest_eq hq hOpen hSole switch
    rw [hEq]
    by_cases hEq : p = q
    · subst hEq
      rw [hp] at hq
      cases hq
      exact ⟨_, Function.update_self .., .switched switch rfl rfl⟩
    · exact ⟨ch, (Function.update_of_ne hEq ..).trans hp,
        .other (by simp [Ne.symm hEq]) (by simp) rfl⟩
  | removed q =>
    obtain ⟨chq, hq, hNone, hSole⟩ := hOk
    rw [remove_eq hq (h.mem_interest hq)]
    by_cases hEq : p = q
    · subst hEq
      rw [hp] at hq
      cases hq
      exact ⟨_, Function.update_self .., .takenOut rfl hNone rfl⟩
    · exact ⟨ch, (Function.update_of_ne hEq ..).trans hp,
        .other (by simp) (by simp [Ne.symm hEq]) rfl⟩
  | polled ready =>
    -- a report writes `revents_` only
    refine hOther (by simp) (by simp) ?_
    rw [h.poll_eq ready]
    exact registration_reported (ready.filterMap s.eventFor) s.memory p
  | dispatched q rest _ hWaiting =>
    obtain ⟨chq, hq⟩ := Option.isSome_iff_exists.mp (h.live q (by rw [hWaiting]; simp))
    refine hOther (by simp) (by simp) ?_
    simp only [withChannel, hq]
    exact Exact.registration_store hq { chq with eventHandling := true } rfl p
  | returned q hHandling =>
    obtain ⟨chq, hq⟩ := Option.isSome_iff_exists.mp (h.handled q hHandling)
    refine hOther (by simp) (by simp) ?_
    simp only [withChannel, hq]
    exact Exact.registration_store hq { chq with eventHandling := false } rfl p

end Effects

/-- What a step is to the connection that has the channel. -/
def onView (a : Action) (p : Nat) (ch : ReactorNet.Channel) : ReactorNet.Channel :=
  match a with
  | .setInterest q switch => if q = p then Interest.onView switch ch else ch
  | .remove q => if q = p then ch.remove else ch
  | _ => ch

/-- A channel may be taken out only when it wants nothing, so the view loses no interest. -/
theorem view_takenOut (ch : Channel) : view (takenOut ch) = (view ch).remove := rfl

/-- **A connection sees its channel as it is.** In every disciplined run, every step that does not
destroy a channel changes the connection's view of it as the connection's own model of a channel
says: by the channel's own switches and by its removal, and not by anything that happens to other
channels, to descriptors, or in `poll`. -/
theorem channel_view (s s' : EventLoop) (hRun : ReachesBy step Disciplined {} s) (a : Action)
    (hOk : s.Disciplined a) (hStep : s.step a = some s') (p : Nat) (ch : Channel)
    (hp : s.memory p = some ch) (hKept : a ≠ .destroy p) :
    ∃ ch', s'.memory p = some ch' ∧ view ch' = onView a p (view ch) := by
  have h := exact_of_reachesBy hRun
  obtain ⟨ch', hp', hEffect⟩ := effect_of_step h hStep hOk hp hKept
  refine ⟨ch', hp', ?_⟩
  cases hEffect with
  | switched switch ha hEq =>
    subst ha hEq
    rw [onView, if_pos rfl]
    exact view_switched (h.mask p ch hp) switch
  | takenOut ha _ hEq =>
    subst ha hEq
    rw [onView, if_pos rfl]
    exact view_takenOut ch
  | other hSwitch hRemove hSame =>
    have hView : view ch' = view ch := by
      simp only [registration, Prod.mk.injEq] at hSame
      rw [view, view, hSame.2.1, hSame.2.2.1]
    rw [hView]
    -- a switch or a removal of another channel
    cases a with
    | setInterest q switch =>
      rw [onView, if_neg]
      rintro rfl
      exact hSwitch switch rfl
    | remove q =>
      rw [onView, if_neg]
      rintro rfl
      exact hRemove rfl
    | «open» | close | construct | destroy | poll | dispatch | ret => rfl

theorem channel_view_reading :
    ∃ s' ch', readingChannel.step (.setInterest 1 .enableWriting) = some s' ∧
      s'.memory 1 = some ch' ∧ view ch' = ⟨true, true, true⟩ := by
  have hRun := reaches_readingChannel.mono fun _ _ hOk => hOk.1
  have hp : readingChannel.memory 1 =
      some { fd := 5, events := kReadEvent, index := .added, addedToLoop := true } := rfl
  have hOk : readingChannel.Disciplined (.setInterest 1 .enableWriting) :=
    ⟨_, hp, (exact_of_reachesBy hRun).isOpen 1 _ hp (by decide),
      (exact_of_reachesBy hRun).sole hp (by decide)⟩
  have hStep : readingChannel.step (.setInterest 1 .enableWriting) =
      some (readingChannel.setInterest 1 .enableWriting) := by
    rw [step, if_pos (show readingChannel.inUserCode from .inr rfl)]
  obtain ⟨ch', hp', hView⟩ := channel_view readingChannel _ hRun _ hOk hStep 1 _ hp (by simp)
  exact ⟨_, ch', hStep, hp', hView.trans (by decide)⟩

end EventLoop

/-! ## The view of the walk -/

/-- The poller of the walk has these marks, and the channels with mark `1` in its set. -/
structure Marks {C : Type} (poller : EPollPoller C) (marks : C → ChannelIndex) : Prop where
  index : poller.index = marks
  epoll : ∀ c, c ∈ poller.epoll ↔ marks c = .added
  nodup : poller.epoll.Nodup

namespace Marks

variable {C : Type} [DecidableEq C] {poller : EPollPoller C} {marks : C → ChannelIndex}

theorem setIndex_eq (h : Marks poller marks) (c : C) (i : ChannelIndex) :
    (fun c' => if c' = c then i else poller.index c') = Function.update marks c i := by
  funext c'
  by_cases hEq : c' = c
  · rw [if_pos hEq, hEq, Function.update_self]
  · rw [if_neg hEq, Function.update_of_ne hEq, h.index]

theorem updateChannel (h : Marks poller marks) (c : C) (isNoneEvent : Bool) :
    Marks (poller.updateChannel c isNoneEvent)
      (Function.update marks c
        (if marks c = .added ∧ isNoneEvent = true then .deleted else .added)) := by
  by_cases hAdded : marks c = .added
  · have hIndex : poller.index c = .added := by rw [h.index, hAdded]
    by_cases hNone : isNoneEvent = true
    · -- out of the set
      rw [if_pos ⟨hAdded, hNone⟩]
      simp only [EPollPoller.updateChannel, hIndex, hNone, if_true]
      refine ⟨h.setIndex_eq c _, fun c' => ?_, h.nodup.erase c⟩
      show c' ∈ poller.epoll.erase c ↔ _
      rw [h.nodup.mem_erase_iff, h.epoll]
      by_cases hEq : c' = c
      · simp [hEq]
      · simp [hEq]
    · rw [if_neg (by simp [hNone])]
      simp only [EPollPoller.updateChannel, hIndex, hNone, if_false, Bool.false_eq_true]
      rw [← hAdded, Function.update_eq_self]
      exact h
  · -- into the set
    have hNot : c ∉ poller.epoll := fun hMem => hAdded ((h.epoll c).mp hMem)
    have hUpdate : poller.updateChannel c isNoneEvent = (poller.setIndex c .added).ctlAdd c := by
      have hIndex : poller.index c ≠ .added := by rwa [h.index]
      unfold EPollPoller.updateChannel
      split
      · rfl
      · rfl
      · exact absurd ‹_› hIndex
    rw [if_neg (by simp [hAdded]), hUpdate, EPollPoller.ctlAdd,
      if_neg (show c ∉ (poller.setIndex c .added).epoll from hNot)]
    refine ⟨h.setIndex_eq c _, fun c' => ?_, ?_⟩
    · show c' ∈ poller.epoll ++ [c] ↔ _
      rw [List.mem_append, List.mem_singleton, h.epoll]
      by_cases hEq : c' = c
      · simp [hEq]
      · simp [hEq]
    · exact h.nodup.append (List.nodup_singleton c) (by simpa using hNot)

theorem removeChannel (h : Marks poller marks) (c : C) :
    Marks (poller.removeChannel c) (Function.update marks c .fresh) := by
  have hErase : ∀ c', c' ∈ poller.epoll.erase c ↔ Function.update marks c .fresh c' = .added := by
    intro c'
    rw [h.nodup.mem_erase_iff, h.epoll]
    by_cases hEq : c' = c
    · simp [hEq]
    · simp [hEq]
  unfold EPollPoller.removeChannel
  by_cases hAdded : poller.index c = .added
  · simp only [hAdded, if_true]
    exact ⟨h.setIndex_eq c _, hErase, h.nodup.erase c⟩
  · have hNot : c ∉ poller.epoll := by
      rw [h.epoll, ← h.index]
      exact hAdded
    simp only [hAdded, if_false]
    refine ⟨h.setIndex_eq c _, fun c' => ?_, h.nodup⟩
    rw [← hErase c', List.erase_of_not_mem hNot]
    rfl

end Marks

namespace EventLoop

/-- The mark of the channel at an address. -/
def indexOf (s : EventLoop) (p : Nat) : ChannelIndex :=
  match s.memory p with
  | some ch => ch.index
  | none => .fresh

theorem indexOf_of_some {s : EventLoop} {p : Nat} {ch : Channel} (hp : s.memory p = some ch) :
    s.indexOf p = ch.index := by
  rw [indexOf, hp]

theorem indexOf_update {s s' : EventLoop} {p : Nat} {new : Option Channel}
    (hMemory : s'.memory = Function.update s.memory p new) :
    s'.indexOf = Function.update s.indexOf p ((new.map (·.index)).getD .fresh) := by
  funext q
  by_cases hEq : q = p
  · rw [hEq, Function.update_self, indexOf, hMemory, Function.update_self]
    cases new <;> rfl
  · rw [Function.update_of_ne hEq, indexOf, indexOf, hMemory, Function.update_of_ne hEq]

theorem indexOf_of_registration {s s' : EventLoop}
    (hMemory : ∀ q, (s'.memory q).map registration = (s.memory q).map registration) :
    s'.indexOf = s.indexOf := by
  funext q
  have hSame := hMemory q
  rw [indexOf, indexOf]
  cases hNew : s'.memory q with
  | none =>
    rw [hNew, Option.map_none, eq_comm, Option.map_eq_none_iff] at hSame
    rw [hSame]
  | some ch' =>
    rw [hNew, Option.map_some, eq_comm] at hSame
    obtain ⟨ch, hOld, hEq⟩ := Option.map_eq_some_iff.mp hSame
    simp only [registration, Prod.mk.injEq] at hEq
    rw [hOld]
    exact hEq.2.2.1.symm

/-- What the walk sees of the loop. -/
structure WalkView (s : EventLoop) (d : Dispatch Nat) : Prop where
  exact_ : Exact s
  marks : Marks d.poller s.indexOf
  eventsSize : d.poller.eventsSize = s.eventsSize
  positive : 0 < s.eventsSize
  activeChannels : d.activeChannels = s.activeChannels
  position : d.position = s.position
  handling : d.handling = s.handling.isSome

namespace WalkView

variable {s s' : EventLoop} {d : Dispatch Nat}

theorem new : WalkView {} {} where
  exact_ := exact_new
  marks := ⟨rfl, fun c => by simp [indexOf], List.nodup_nil⟩
  eventsSize := rfl
  positive := by decide
  activeChannels := rfl
  position := rfl
  handling := rfl

theorem waiting_eq (h : WalkView s d) : d.waiting = s.waiting := by
  rw [Dispatch.waiting, waiting, h.activeChannels, h.position]

theorem inUserCode (h : WalkView s d) (hUser : s.inUserCode) : d.inUserCode := by
  rw [Dispatch.inUserCode, h.handling, h.waiting_eq]
  exact hUser

theorem unseen (h : WalkView s d) (hExact : Exact s') (hMarks : s'.indexOf = s.indexOf)
    (hSize : s'.eventsSize = s.eventsSize) (hActive : s'.activeChannels = s.activeChannels)
    (hPosition : s'.position = s.position) (hHandling : s'.handling = s.handling) :
    WalkView s' d where
  exact_ := hExact
  marks := hMarks ▸ h.marks
  eventsSize := h.eventsSize.trans hSize.symm
  positive := hSize ▸ h.positive
  activeChannels := h.activeChannels.trans hActive.symm
  position := h.position.trans hPosition.symm
  handling := h.handling.trans (by rw [hHandling])

theorem setInterest (h : WalkView s d) {p : Nat} {ch : Channel} (hp : s.memory p = some ch)
    (hOpen : ch.fd ∈ s.openFds) (hSole : s.Sole p ch) (switch : Interest) :
    WalkView (s.setInterest p switch) { d with
      poller := d.poller.updateChannel p (switch.mask ch.events == kNoneEvent) } := by
  have hExact := h.exact_.setInterest hp hOpen hSole switch
  have hMarks := h.marks.updateChannel p (switch.mask ch.events == kNoneEvent)
  obtain ⟨channels, interest, hEq⟩ := h.exact_.setInterest_eq hp hOpen hSole switch
  rw [hEq] at hExact ⊢
  refine ⟨hExact, ?_, ?_, h.positive, h.activeChannels, h.position, h.handling⟩
  · rw [indexOf_update rfl]
    simpa [indexOf_of_some hp, switched, markAfter] using hMarks
  · refine Eq.trans ?_ h.eventsSize
    show (d.poller.updateChannel p _).eventsSize = _
    unfold EPollPoller.updateChannel EPollPoller.ctlAdd
    split
    · split_ifs <;> rfl
    · split_ifs <;> rfl
    · split_ifs <;> rfl

theorem remove (h : WalkView s d) {p : Nat} {ch : Channel} (hp : s.memory p = some ch)
    (hNone : ch.isNoneEvent = true) (hSole : s.Sole p ch) :
    WalkView (s.remove p) { d with
      poller := d.poller.removeChannel p
      log := d.log ++ [.removeChannel p] } := by
  have hExact := h.exact_.remove hp hNone hSole
  rw [remove_eq hp (h.exact_.mem_interest hp)] at hExact ⊢
  refine ⟨hExact, ?_, ?_, h.positive, h.activeChannels, h.position, h.handling⟩
  · rw [indexOf_update rfl]
    exact h.marks.removeChannel p
  · refine Eq.trans ?_ h.eventsSize
    show (d.poller.removeChannel p).eventsSize = _
    unfold EPollPoller.removeChannel
    simp only
    split_ifs <;> rfl

/-- The channels that the kernel reports are a possible report for the walk. -/
theorem poll (h : WalkView s d) {ready : List (Nat × UInt32)} (hHandling : s.handling = none)
    (hWaiting : s.waiting = []) (hNodup : (ready.map Prod.fst).Nodup)
    (hReady : ∀ r ∈ ready, s.Ready r) (hLength : ready.length ≤ s.eventsSize) :
    ∃ d', d.step (.poll ((ready.filterMap s.eventFor).map Prod.snd)) = some d' ∧
      WalkView (s.poll (ready.filterMap s.eventFor)) d' := by
  have hEvents := length_events hReady
  have hStep : d.step (.poll ((ready.filterMap s.eventFor).map Prod.snd)) =
      some { poller := d.poller.grow ((ready.filterMap s.eventFor).map Prod.snd).length
             activeChannels := (ready.filterMap s.eventFor).map Prod.snd } := by
    refine if_pos ⟨?_, h.waiting_eq.trans hWaiting, h.exact_.nodup_events hNodup, ?_, ?_⟩
    · rw [h.handling, hHandling]
      rfl
    · intro p hp
      obtain ⟨event, he, rfl⟩ := List.mem_map.mp hp
      obtain ⟨ch, hp, hIndex, -⟩ := h.exact_.live_event he
      rw [h.marks.epoll, indexOf_of_some hp, hIndex]
    · rw [List.length_map, hEvents, h.eventsSize]
      exact hLength
  refine ⟨_, hStep, ?_⟩
  have hExact := h.exact_.poll ready
  rw [h.exact_.poll_eq ready] at hExact ⊢
  have hMarks : ({ s with
      memory := reported (ready.filterMap s.eventFor) s.memory } : EventLoop).indexOf = s.indexOf :=
    indexOf_of_registration fun q => registration_reported ..
  have hGrow : (d.poller.grow ((ready.filterMap s.eventFor).map Prod.snd).length).index =
        d.poller.index ∧
      (d.poller.grow ((ready.filterMap s.eventFor).map Prod.snd).length).epoll = d.poller.epoll := by
    unfold EPollPoller.grow
    split_ifs <;> exact ⟨rfl, rfl⟩
  refine ⟨hExact, ⟨?_, fun c => ?_, ?_⟩, ?_, ?_, rfl, rfl, ?_⟩
  · exact (hGrow.1.trans h.marks.index).trans hMarks.symm
  · rw [hGrow.2, h.marks.epoll]
    exact iff_of_eq (congrArg (· = ChannelIndex.added) (congrFun hMarks c).symm)
  · rw [hGrow.2]
    exact h.marks.nodup
  · -- an empty report leaves the array alone, as it has a place
    have hPositive := h.positive
    unfold EPollPoller.grow
    rw [List.length_map, h.eventsSize]
    by_cases hFull : (ready.filterMap s.eventFor).length = s.eventsSize
    · simp [hFull, hPositive]
    · simp [hFull, h.eventsSize]
  · have hPositive := h.positive
    simp only
    split_ifs <;> omega
  · show false = s.handling.isSome
    rw [hHandling]
    rfl

/-- **Every disciplined step of the loop is a step of the walk, or one that it does not see.** -/
theorem simulates : Simulates step Disciplined Dispatch.step WalkView := by
  intro s s' d a h hOk hStep
  have hExact := h.exact_.step hStep hOk
  cases step_outcome hStep with
  | opened | closed => exact ⟨d, .refl, h.unseen hExact rfl rfl rfl rfl rfl⟩
  | constructed p fd hNone =>
    refine ⟨d, .refl, h.unseen hExact ?_ rfl rfl rfl rfl⟩
    rw [indexOf_update rfl, Function.update_eq_self_iff, indexOf, hNone]
    rfl
  | destroyed p =>
    obtain ⟨ch, hp, hFlag, -, -⟩ := hOk
    refine ⟨d, .refl, h.unseen hExact ?_ rfl rfl rfl rfl⟩
    rw [indexOf_update rfl, Function.update_eq_self_iff, indexOf_of_some hp]
    -- a channel that was taken out has no mark
    by_contra hUsed
    have hFlag' := (h.exact_.flag p ch hp).mpr (Ne.symm hUsed)
    rw [hFlag] at hFlag'
    cases hFlag'
  | switched p switch hUser =>
    obtain ⟨ch, hp, hOpen, hSole⟩ := hOk
    exact ⟨_, .single (.update p (switch.mask ch.events == kNoneEvent))
      (if_pos (h.inUserCode hUser)), h.setInterest hp hOpen hSole switch⟩
  | removed p hUser =>
    obtain ⟨ch, hp, hNone, hSole⟩ := hOk
    exact ⟨_, .single (.remove p) (if_pos (h.inUserCode hUser)), h.remove hp hNone hSole⟩
  | polled ready hHandling hWaiting hNodup hReady hLength =>
    obtain ⟨d', hd', h'⟩ := h.poll hHandling hWaiting hNodup hReady hLength
    exact ⟨d', .single _ hd', h'⟩
  | dispatched p rest hHandling hWaiting =>
    obtain ⟨ch, hp⟩ := Option.isSome_iff_exists.mp (h.exact_.live p (by rw [hWaiting]; simp))
    simp only [withChannel, hp] at hExact ⊢
    have hMarks : (s.store p { ch with eventHandling := true }).indexOf = s.indexOf :=
      indexOf_of_registration (Exact.registration_store hp _ rfl)
    have hWalk : d.step .dispatch = some { d with
        position := d.position + 1, handling := true, log := d.log ++ [.handleEvent p] } := by
      simp only [Dispatch.step, h.handling, hHandling, h.waiting_eq, hWaiting, Option.isSome_none]
    refine ⟨_, .single .dispatch hWalk, hExact, ?_, h.eventsSize, h.positive, h.activeChannels,
      ?_, rfl⟩
    · exact hMarks ▸ h.marks
    · show d.position + 1 = s.position + 1
      rw [h.position]
  | returned p hHandling =>
    obtain ⟨ch, hp⟩ := Option.isSome_iff_exists.mp (h.exact_.handled p hHandling)
    simp only [withChannel, hp] at hExact ⊢
    have hMarks : (s.store p { ch with eventHandling := false }).indexOf = s.indexOf :=
      indexOf_of_registration (Exact.registration_store hp _ rfl)
    have hWalk : d.step .ret = some { d with handling := false } := by
      refine if_pos ?_
      rw [h.handling, hHandling]
      rfl
    exact ⟨_, .single .ret hWalk, hExact, hMarks ▸ h.marks, h.eventsSize, h.positive,
      h.activeChannels, h.position, rfl⟩

end WalkView

/-- **The walk sees the loop as it is.** Every disciplined run of the loop, with its masks,
addresses, descriptors and the kernel's list, is a run of the walk over the active channels, with
the same marks, the same active channels and the same place among them; the channels of the walk's
epoll set are those whose descriptor is in the kernel's list. -/
theorem dispatch_view (s : EventLoop) (hRun : ReachesBy step Disciplined {} s) :
    ∃ d : Dispatch Nat, Reaches Dispatch.step {} d ∧ d.waiting = s.waiting ∧
      d.handling = s.handling.isSome ∧ d.poller.eventsSize = s.eventsSize ∧
      (∀ p ch, s.memory p = some ch → d.poller.index p = ch.index) ∧
      ∀ p, p ∈ d.poller.epoll ↔ ∃ fd mask, s.interest.lookup fd = some (mask, p) := by
  obtain ⟨d, hWalk, h⟩ := WalkView.simulates.reaches hRun WalkView.new
  refine ⟨d, hWalk, h.waiting_eq, h.handling, h.eventsSize, fun p ch hp => ?_, fun p => ?_⟩
  · rw [h.marks.index, indexOf_of_some hp]
  · rw [h.marks.epoll]
    constructor
    · intro hAdded
      unfold indexOf at hAdded
      split at hAdded
      · rename_i ch hp
        exact ⟨ch.fd, ch.events, h.exact_.registered p ch hp hAdded⟩
      · cases hAdded
    · rintro ⟨fd, mask, hEntry⟩
      obtain ⟨ch, hp, -, hIndex⟩ := h.exact_.entry fd (mask, p) hEntry
      rw [indexOf_of_some hp, hIndex]

theorem dispatch_view_reading :
    ∃ d : Dispatch Nat, Reaches Dispatch.step {} d ∧ d.poller.index 1 = .added := by
  obtain ⟨d, hWalk, -, -, -, hIndex, -⟩ :=
    dispatch_view readingChannel (reaches_readingChannel.mono fun _ _ hOk => hOk.1)
  exact ⟨d, hWalk, hIndex 1 _ rfl⟩

end EventLoop

end ReactorNet.Epoll
