import ReactorNet.Net.Poller

/-!
# ReactorNet — the interest list is what the channels want

Under the discipline of the callers the poller's map, the marks of the channels and the interest
list of the kernel agree in every state of every run (`Exact`). A switch changes one channel, and
what is said about its descriptor (`Exact.change`); a poll changes nothing that the poller is
concerned with (`Exact.of_registration`).

Main results:

* `Exact.step` — every disciplined step keeps the agreement.
* `registration_exact` — so the list is exact, no call of `epoll_ctl` has failed, and no destroyed
  channel was touched.
* `poll_reports` — what `poll` hands to the loop.
* `eventsSize_le` — how large the array of events gets.
-/

namespace ReactorNet.Epoll

open Lib

namespace EventLoop

/-- The mark of a channel after a switch that leaves this mask. -/
def markAfter (index : ChannelIndex) (events : UInt32) : ChannelIndex :=
  if index = .added ∧ events = kNoneEvent then .deleted else .added

/-- What a switch makes of a channel. -/
def switched (switch : Interest) (ch : Channel) : Channel :=
  { ch with
    events := switch.mask ch.events
    addedToLoop := true
    index := markAfter ch.index (switch.mask ch.events) }

/-! ## The invariant -/

/-- Map, marks and interest list agree, and nothing has gone wrong. -/
structure Exact (s : EventLoop) : Prop where
  /-- A channel with the mark is in the interest list, under its mask and address. -/
  registered : ∀ p ch, s.memory p = some ch → ch.index = .added →
    s.interest.lookup ch.fd = some (ch.events, p)
  /-- Nothing else is. -/
  entry : ∀ fd event, s.interest.lookup fd = some event →
    ∃ ch, s.memory event.2 = some ch ∧ ch.fd = fd ∧ ch.index = .added
  /-- The map has the channels that are in use, and no other. -/
  mapped : ∀ p ch, s.memory p = some ch → ch.index ≠ .fresh → s.channels.lookup ch.fd = some p
  known : ∀ fd p, s.channels.lookup fd = some p →
    ∃ ch, s.memory p = some ch ∧ ch.fd = fd ∧ ch.index ≠ .fresh
  /-- Interest is never lost: a channel that is not in the list wants nothing. -/
  idle : ∀ p ch, s.memory p = some ch → ch.index ≠ .added → ch.events = kNoneEvent
  mask : ∀ p ch, s.memory p = some ch → IsMask ch.events
  flag : ∀ p ch, s.memory p = some ch → (ch.addedToLoop = true ↔ ch.index ≠ .fresh)
  isOpen : ∀ p ch, s.memory p = some ch → ch.index ≠ .fresh → ch.fd ∈ s.openFds
  live : ∀ p ∈ s.waiting, (s.memory p).isSome
  handled : ∀ p, s.handling = some p → (s.memory p).isSome
  failed : s.failed = []
  dangling : s.dangling = []

theorem exact_new : Exact {} where
  registered := fun _ _ h => by cases h
  entry := fun _ _ h => by cases h
  mapped := fun _ _ h => by cases h
  known := fun _ _ h => by cases h
  idle := fun _ _ h => by cases h
  mask := fun _ _ h => by cases h
  flag := fun _ _ h => by cases h
  isOpen := fun _ _ h => by cases h
  live := fun _ h => by cases h
  handled := fun _ h => by cases h
  failed := rfl
  dangling := rfl

namespace Exact

variable {s s' : EventLoop} {p : Nat} {ch ch' : Channel}

/-- A channel that is not marked has no entry in the interest list. -/
theorem notMem_interest (h : Exact s) (hSole : s.Sole p ch) (hp : s.memory p = some ch)
    (hIndex : ch.index ≠ .added) : s.interest.lookup ch.fd = none := by
  by_contra hSome
  obtain ⟨event, hEvent⟩ := Option.ne_none_iff_exists'.mp hSome
  obtain ⟨ch', hq, hFd, hAdded⟩ := h.entry _ _ hEvent
  -- it would be the entry of another channel on the descriptor
  rcases hSole _ _ hq hFd with hEq | hFresh
  · rw [hEq, hp] at hq
    cases hq
    exact hIndex hAdded
  · rw [hFresh] at hAdded
    cases hAdded

/-- Of two channels in use on one descriptor there is only one. -/
theorem sole (h : Exact s) (hp : s.memory p = some ch) (hIndex : ch.index ≠ .fresh) :
    s.Sole p ch := by
  intro q ch' hq hFd
  by_contra hNot
  rw [not_or] at hNot
  have hMapped := h.mapped q ch' hq hNot.2
  rw [hFd, h.mapped p ch hp hIndex] at hMapped
  exact hNot.1 (Option.some.inj hMapped).symm

/-- **One channel changes**, and with it what map and interest list say about its descriptor. -/
theorem change (h : Exact s) (hp : s.memory p = some ch) (hSole : s.Sole p ch)
    (hMemory : s'.memory = Function.update s.memory p (some ch')) (hFd : ch'.fd = ch.fd)
    (hInterest : ∀ fd ≠ ch.fd, s'.interest.lookup fd = s.interest.lookup fd)
    (hOwn : s'.interest.lookup ch.fd = if ch'.index = .added then some (ch'.events, p) else none)
    (hChannels : ∀ fd ≠ ch.fd, s'.channels.lookup fd = s.channels.lookup fd)
    (hMap : s'.channels.lookup ch.fd = if ch'.index = .fresh then none else some p)
    (hIdle : ch'.index ≠ .added → ch'.events = kNoneEvent) (hMask : IsMask ch'.events)
    (hFlag : ch'.addedToLoop = true ↔ ch'.index ≠ .fresh)
    (hOpen : ch'.index ≠ .fresh → ch.fd ∈ s.openFds) (hFds : s'.openFds = s.openFds)
    (hWaiting : s'.waiting = s.waiting) (hHandling : s'.handling = s.handling)
    (hFailed : s'.failed = s.failed) (hDangling : s'.dangling = s.dangling) : Exact s' := by
  have hSelf : s'.memory p = some ch' := by rw [hMemory, Function.update_self]
  have hOther : ∀ q, q ≠ p → s'.memory q = s.memory q := by
    intro q hq
    rw [hMemory, Function.update_of_ne hq]
  -- a channel in use that is not the one that changes has another descriptor
  have hApart : ∀ q ch₁, q ≠ p → s.memory q = some ch₁ → ch₁.index ≠ .fresh → ch₁.fd ≠ ch.fd := by
    intro q ch₁ hq hMem hUsed hSame
    exact (hSole q ch₁ hMem hSame).elim hq hUsed
  have hLive : ∀ q, (s.memory q).isSome → (s'.memory q).isSome := by
    intro q hq
    by_cases hEq : q = p
    · rw [hEq, hSelf]
      rfl
    · rwa [hOther q hEq]
  -- what holds of every channel is shown for the one that changes, and for the others
  have hEach : ∀ {P : Nat → Channel → Prop}, P p ch' →
      (∀ q ch₁, q ≠ p → s.memory q = some ch₁ → P q ch₁) →
      ∀ q ch₁, s'.memory q = some ch₁ → P q ch₁ := by
    intro P hThis hRest q ch₁ hq
    by_cases hEq : q = p
    · subst hEq
      rw [hSelf] at hq
      exact Option.some.inj hq ▸ hThis
    · rw [hOther q hEq] at hq
      exact hRest q ch₁ hEq hq
  refine {
    registered := hEach ?_ ?_
    entry := ?_
    mapped := hEach ?_ ?_
    known := ?_
    idle := hEach hIdle fun q ch₁ _ hq => h.idle q ch₁ hq
    mask := hEach hMask fun q ch₁ _ hq => h.mask q ch₁ hq
    flag := hEach hFlag fun q ch₁ _ hq => h.flag q ch₁ hq
    isOpen := hEach ?_ ?_
    live := ?_
    handled := ?_
    failed := hFailed.trans h.failed
    dangling := hDangling.trans h.dangling }
  · intro hAdded
    rw [hFd, hOwn, if_pos hAdded]
  · intro q ch₁ hNe hq hAdded
    rw [hInterest _ (hApart q ch₁ hNe hq (by simp [hAdded]))]
    exact h.registered q ch₁ hq hAdded
  · intro fd event hEntry
    by_cases hSame : fd = ch.fd
    · subst hSame
      rw [hOwn] at hEntry
      split_ifs at hEntry with hAdded
      cases hEntry
      exact ⟨ch', hSelf, hFd, hAdded⟩
    · rw [hInterest fd hSame] at hEntry
      obtain ⟨ch₁, hq, rfl, hAdded⟩ := h.entry fd event hEntry
      have hNe : event.2 ≠ p := by
        rintro hEq
        rw [hEq, hp] at hq
        cases hq
        exact hSame rfl
      exact ⟨ch₁, by rw [hOther _ hNe]; exact hq, rfl, hAdded⟩
  · intro hUsed
    rw [hFd, hMap, if_neg hUsed]
  · intro q ch₁ hNe hq hUsed
    rw [hChannels _ (hApart q ch₁ hNe hq hUsed)]
    exact h.mapped q ch₁ hq hUsed
  · intro fd q hKnown
    by_cases hSame : fd = ch.fd
    · subst hSame
      rw [hMap] at hKnown
      split_ifs at hKnown with hFresh
      cases hKnown
      exact ⟨ch', hSelf, hFd, hFresh⟩
    · rw [hChannels fd hSame] at hKnown
      obtain ⟨ch₁, hq, rfl, hUsed⟩ := h.known fd q hKnown
      have hNe : q ≠ p := by
        rintro rfl
        rw [hp] at hq
        cases hq
        exact hSame rfl
      exact ⟨ch₁, by rw [hOther _ hNe]; exact hq, rfl, hUsed⟩
  · intro hUsed
    rw [hFd, hFds]
    exact hOpen hUsed
  · intro q ch₁ _ hq hUsed
    rw [hFds]
    exact h.isOpen q ch₁ hq hUsed
  · intro q hq
    rw [hWaiting] at hq
    exact hLive q (h.live q hq)
  · intro q hq
    rw [hHandling] at hq
    exact hLive q (h.handled q hq)

end Exact

namespace Exact

variable {s s' : EventLoop} {p : Nat} {ch : Channel}

theorem mem_interest (h : Exact s) (hp : s.memory p = some ch) (hIndex : ch.index = .added) :
    ch.fd ∈ s.interest := by
  rw [← AList.lookup_isSome, h.registered p ch hp hIndex]
  rfl

/-- **A switch keeps the agreement.** -/
theorem setInterest (h : Exact s) (hp : s.memory p = some ch) (hOpen : ch.fd ∈ s.openFds)
    (hSole : s.Sole p ch) (switch : Interest) : Exact (s.setInterest p switch) := by
  have hMask := (h.mask p ch hp).mask switch
  by_cases hIndex : ch.index = .added
  · have hMem := h.mem_interest hp hIndex
    have hMap := h.mapped p ch hp (by simp [hIndex])
    by_cases hNone : switch.mask ch.events = kNoneEvent
    · rw [setInterest_del hp switch hIndex hMem hNone]
      refine h.change hp hSole rfl rfl (fun fd hFd => ?_) ?_ (fun _ _ => rfl) hMap (fun _ => rfl)
        (.inl rfl) (by simp) (fun _ => hOpen) rfl rfl rfl rfl rfl
      · exact AList.lookup_erase_ne hFd
      · exact AList.lookup_erase ..
    · rw [setInterest_mod hp switch hIndex hMem hNone]
      refine h.change hp hSole rfl rfl (fun fd hFd => ?_) ?_ (fun _ _ => rfl) ?_
        (fun hNot => absurd hIndex hNot) hMask (by simp [hIndex]) (fun _ => hOpen) rfl rfl rfl rfl rfl
      · exact AList.lookup_insert_ne hFd
      · rw [AList.lookup_insert, if_pos hIndex]
      · rw [if_neg (by simp [hIndex])]
        exact hMap
  · have hMem := h.notMem_interest hSole hp hIndex
    rw [setInterest_add hp switch hIndex hOpen (AList.lookup_eq_none.mp hMem)]
    refine h.change hp hSole rfl rfl (fun fd hFd => ?_) ?_ (fun fd hFd => ?_) ?_
      (fun hNot => absurd rfl hNot) hMask (by simp) (fun _ => hOpen) rfl rfl rfl rfl rfl
    · exact AList.lookup_insert_ne hFd
    · rw [AList.lookup_insert, if_pos rfl]
    · show AList.lookup fd (if _ then _ else _) = _
      split_ifs
      · exact AList.lookup_insert_ne hFd
      · rfl
    · -- a channel that was in use before is in the map
      by_cases hFresh : ch.index = .fresh
      · simp [hFresh]
      · simpa [hFresh] using h.mapped p ch hp hFresh

/-- A switch is seen in the channel, in the map and in the interest list, and nowhere else. -/
theorem setInterest_eq (h : Exact s) (hp : s.memory p = some ch) (hOpen : ch.fd ∈ s.openFds)
    (hSole : s.Sole p ch) (switch : Interest) :
    ∃ channels interest, s.setInterest p switch = { s with
      memory := Function.update s.memory p (some (switched switch ch))
      channels := channels
      interest := interest } := by
  by_cases hIndex : ch.index = .added
  · have hMem := h.mem_interest hp hIndex
    by_cases hNone : switch.mask ch.events = kNoneEvent
    · rw [setInterest_del hp switch hIndex hMem hNone]
      exact ⟨s.channels, s.interest.erase ch.fd, by simp [switched, markAfter, hIndex, hNone]⟩
    · rw [setInterest_mod hp switch hIndex hMem hNone]
      exact ⟨s.channels, s.interest.insert ch.fd (switch.mask ch.events, p),
        by simp [switched, markAfter, hIndex, hNone]⟩
  · have hMem := AList.lookup_eq_none.mp (h.notMem_interest hSole hp hIndex)
    rw [setInterest_add hp switch hIndex hOpen hMem]
    refine ⟨if ch.index = .fresh then s.channels.insert ch.fd p else s.channels,
      s.interest.insert ch.fd (switch.mask ch.events, p), ?_⟩
    simp [switched, markAfter, hIndex]

/-- **Taking a channel out keeps the agreement.** -/
theorem remove (h : Exact s) (hp : s.memory p = some ch) (hNone : ch.isNoneEvent = true)
    (hSole : s.Sole p ch) : Exact (s.remove p) := by
  have hEvents : ch.events = kNoneEvent := by simpa [Channel.isNoneEvent] using hNone
  rw [remove_eq hp (h.mem_interest hp)]
  refine h.change hp hSole rfl rfl (fun fd hFd => ?_) ?_ (fun fd hFd => ?_) ?_ (fun _ => hEvents)
    (.inl hEvents) (by simp) (fun hUsed => absurd rfl hUsed) rfl rfl rfl rfl rfl
  · show AList.lookup fd (if _ then _ else _) = _
    split_ifs
    · exact AList.lookup_erase_ne hFd
    · rfl
  · show AList.lookup ch.fd (if _ then _ else _) = none
    split_ifs with hIndex
    · exact AList.lookup_erase ..
    · exact h.notMem_interest hSole hp hIndex
  · exact AList.lookup_erase_ne hFd
  · exact AList.lookup_erase ..

end Exact

namespace Exact

variable {s s' : EventLoop}

/-- What the poller is not concerned with does not matter. -/
theorem of_registration (h : Exact s)
    (hMemory : ∀ q, (s'.memory q).map registration = (s.memory q).map registration)
    (hChannels : s'.channels = s.channels) (hInterest : s'.interest = s.interest)
    (hFds : s'.openFds = s.openFds) (hLive : ∀ p ∈ s'.waiting, (s.memory p).isSome)
    (hHandled : ∀ p, s'.handling = some p → (s.memory p).isSome) (hFailed : s'.failed = s.failed)
    (hDangling : s'.dangling = s.dangling) : Exact s' := by
  have hBack : ∀ q ch', s'.memory q = some ch' →
      ∃ ch, s.memory q = some ch ∧ registration ch = registration ch' := by
    intro q ch' hq
    have hSame := (hMemory q).symm
    rw [hq, Option.map_some] at hSame
    exact Option.map_eq_some_iff.mp hSame
  have hForth : ∀ q ch, s.memory q = some ch →
      ∃ ch', s'.memory q = some ch' ∧ registration ch' = registration ch := by
    intro q ch hq
    have hSame := hMemory q
    rw [hq, Option.map_some] at hSame
    exact Option.map_eq_some_iff.mp hSame
  have hSome : ∀ q, (s.memory q).isSome → (s'.memory q).isSome := by
    intro q hq
    obtain ⟨ch, hq⟩ := Option.isSome_iff_exists.mp hq
    obtain ⟨ch', hq', -⟩ := hForth q ch hq
    rw [hq']
    rfl
  -- what holds of every channel by its registration
  have hEach : ∀ {P : Nat → Nat × UInt32 × ChannelIndex × Bool → Prop},
      (∀ q ch, s.memory q = some ch → P q (registration ch)) →
      ∀ q ch', s'.memory q = some ch' → P q (registration ch') := by
    intro P hP q ch' hq
    obtain ⟨ch, hq', hSame⟩ := hBack q ch' hq
    exact hSame ▸ hP q ch hq'
  refine {
    registered := ?_
    entry := ?_
    mapped := ?_
    known := ?_
    idle := hEach (P := fun _ r => r.2.2.1 ≠ .added → r.2.1 = kNoneEvent) h.idle
    mask := hEach (P := fun _ r => IsMask r.2.1) h.mask
    flag := hEach (P := fun _ r => r.2.2.2 = true ↔ r.2.2.1 ≠ .fresh) h.flag
    isOpen := ?_
    live := fun p hp => hSome p (hLive p hp)
    handled := fun p hp => hSome p (hHandled p hp)
    failed := hFailed.trans h.failed
    dangling := hDangling.trans h.dangling }
  · rw [hInterest]
    exact hEach (P := fun q r => r.2.2.1 = .added → s.interest.lookup r.1 = some (r.2.1, q))
      h.registered
  · intro fd event hEntry
    rw [hInterest] at hEntry
    obtain ⟨ch, hq, hFd, hIndex⟩ := h.entry fd event hEntry
    obtain ⟨ch', hq', hSame⟩ := hForth _ ch hq
    simp only [registration, Prod.mk.injEq] at hSame
    exact ⟨ch', hq', hSame.1.trans hFd, hSame.2.2.1.trans hIndex⟩
  · rw [hChannels]
    exact hEach (P := fun q r => r.2.2.1 ≠ .fresh → s.channels.lookup r.1 = some q) h.mapped
  · intro fd p hKnown
    rw [hChannels] at hKnown
    obtain ⟨ch, hq, hFd, hIndex⟩ := h.known fd p hKnown
    obtain ⟨ch', hq', hSame⟩ := hForth _ ch hq
    simp only [registration, Prod.mk.injEq] at hSame
    exact ⟨ch', hq', hSame.1.trans hFd, fun hFresh => hIndex (hSame.2.2.1.symm.trans hFresh)⟩
  · rw [hFds]
    exact hEach (P := fun _ r => r.2.2.1 ≠ .fresh → r.1 ∈ s.openFds) h.isOpen

/-- Every event that the kernel fills in is of a channel that exists. -/
theorem live_event (h : Exact s) {ready : List (Nat × UInt32)} {event : UInt32 × Nat}
    (he : event ∈ ready.filterMap s.eventFor) : ∃ ch, s.memory event.2 = some ch ∧
      ch.index = .added ∧ (ch.fd, event.1) ∈ ready := by
  obtain ⟨r, hr, hEvent⟩ := List.mem_filterMap.mp he
  obtain ⟨entry, hEntry, rfl⟩ := Option.map_eq_some_iff.mp hEvent
  obtain ⟨ch, hp, hFd, hIndex⟩ := h.entry r.1 entry hEntry
  exact ⟨ch, hp, hIndex, by rw [hFd]; exact hr⟩

theorem poll_eq (h : Exact s) (ready : List (Nat × UInt32)) :
    s.poll (ready.filterMap s.eventFor) = { s with
      memory := reported (ready.filterMap s.eventFor) s.memory
      activeChannels := (ready.filterMap s.eventFor).map Prod.snd
      position := 0
      eventsSize :=
        if 0 < (ready.filterMap s.eventFor).length ∧
            (ready.filterMap s.eventFor).length = s.eventsSize then s.eventsSize * 2
        else s.eventsSize } := by
  have hFill := fillActiveChannels_eq (ready.filterMap s.eventFor)
    { s with activeChannels := [], position := 0 } (by
      intro event he
      obtain ⟨ch, hp, -⟩ := h.live_event he
      exact Option.isSome_iff_exists.mpr ⟨ch, hp⟩)
  rw [EventLoop.poll, hFill]
  simp only [List.nil_append]
  split_ifs <;> rfl

theorem poll (h : Exact s) (ready : List (Nat × UInt32)) :
    Exact (s.poll (ready.filterMap s.eventFor)) := by
  rw [h.poll_eq ready]
  refine h.of_registration (fun q => registration_reported ..) rfl rfl rfl ?_ h.handled rfl rfl
  intro p hp
  simp only [waiting, List.drop_zero] at hp
  obtain ⟨event, he, rfl⟩ := List.mem_map.mp hp
  obtain ⟨ch, hp, -⟩ := h.live_event he
  exact Option.isSome_iff_exists.mpr ⟨ch, hp⟩

/-! ## Descriptors and channels come and go -/

theorem close (h : Exact s) {fd : Nat}
    (hFresh : ∀ p ch, s.memory p = some ch → ch.fd = fd → ch.index = .fresh) :
    Exact { s with openFds := s.openFds.filter (· ≠ fd), interest := s.interest.erase fd } :=
  { h with
    registered := by
      intro p ch hp hIndex
      have hNe : ch.fd ≠ fd := by
        intro hFd
        rw [hFresh p ch hp hFd] at hIndex
        cases hIndex
      rw [AList.lookup_erase_ne hNe]
      exact h.registered p ch hp hIndex
    entry := by
      intro fd' event hEntry
      by_cases hFd : fd' = fd
      · subst hFd
        rw [AList.lookup_erase] at hEntry
        cases hEntry
      · rw [AList.lookup_erase_ne hFd] at hEntry
        exact h.entry fd' event hEntry
    isOpen := by
      intro p ch hp hUsed
      refine List.mem_filter.mpr ⟨h.isOpen p ch hp hUsed, ?_⟩
      simpa using fun hFd => hUsed (hFresh p ch hp hFd) }

variable {p : Nat}

/-- A channel that is not in use appears or disappears. -/
theorem of_fresh (h : Exact s) {new : Option Channel}
    (hOld : ∀ ch, s.memory p = some ch → ch.index = .fresh)
    (hNew : ∀ ch, new = some ch → ch.index = .fresh ∧ ch.events = kNoneEvent ∧ ch.addedToLoop =
      false) (hKept : (s.memory p).isSome → new.isSome ∨ p ∉ s.waiting ∧ s.handling ≠ some p) :
    Exact { s with memory := Function.update s.memory p new } := by
  have hEach : ∀ {P : Nat → Channel → Prop}, (∀ ch, new = some ch → P p ch) →
      (∀ q ch, s.memory q = some ch → P q ch) →
      ∀ q ch, Function.update s.memory p new q = some ch → P q ch := by
    intro P hThis hRest q ch hq
    by_cases hEq : q = p
    · subst hEq
      rw [Function.update_self] at hq
      exact hThis ch hq
    · rw [Function.update_of_ne hEq] at hq
      exact hRest q ch hq
  -- a channel in use is another one
  have hOther : ∀ q ch, s.memory q = some ch → ch.index ≠ .fresh →
      Function.update s.memory p new q = some ch := by
    intro q ch hq hUsed
    have hNe : q ≠ p := by
      rintro rfl
      exact hUsed (hOld ch hq)
    rwa [Function.update_of_ne hNe]
  have hLive : ∀ q, (s.memory q).isSome → (q ≠ p ∨ ¬ (p ∉ s.waiting ∧ s.handling ≠ some p)) →
      (Function.update s.memory p new q).isSome := by
    intro q hq hWhich
    by_cases hEq : q = p
    · subst hEq
      rw [Function.update_self]
      exact (hKept hq).resolve_right (hWhich.resolve_left (by simp))
    · rwa [Function.update_of_ne hEq]
  exact { h with
    registered := hEach (fun ch hch hIndex => by rw [(hNew ch hch).1] at hIndex; cases hIndex)
      h.registered
    entry := by
      intro fd event hEntry
      obtain ⟨ch, hq, hFd, hIndex⟩ := h.entry fd event hEntry
      exact ⟨ch, hOther _ ch hq (by simp [hIndex]), hFd, hIndex⟩
    mapped := hEach (fun ch hch hUsed => absurd (hNew ch hch).1 hUsed) h.mapped
    known := by
      intro fd q hKnown
      obtain ⟨ch, hq, hFd, hUsed⟩ := h.known fd q hKnown
      exact ⟨ch, hOther _ ch hq hUsed, hFd, hUsed⟩
    idle := hEach (fun ch hch _ => (hNew ch hch).2.1) h.idle
    mask := hEach (fun ch hch => .inl (hNew ch hch).2.1) h.mask
    flag := hEach (fun ch hch => by simp [(hNew ch hch).1, (hNew ch hch).2.2]) h.flag
    isOpen := hEach (fun ch hch hUsed => absurd (hNew ch hch).1 hUsed) h.isOpen
    live := by
      intro q hq
      refine hLive q (h.live q hq) ?_
      by_cases hEq : q = p
      · exact .inr fun hGone => hGone.1 (hEq ▸ hq)
      · exact .inl hEq
    handled := by
      intro q hq
      refine hLive q (h.handled q hq) ?_
      by_cases hEq : q = p
      · exact .inr fun hGone => hGone.2 (hEq ▸ hq)
      · exact .inl hEq }

/-- A mark on a channel that the poller is not concerned with. -/
theorem registration_store {ch : Channel} (hp : s.memory p = some ch) (ch' : Channel)
    (hSame : registration ch' = registration ch) (q : Nat) :
    ((s.store p ch').memory q).map registration = (s.memory q).map registration := by
  show (Function.update s.memory p (some ch') q).map registration = _
  by_cases hEq : q = p
  · rw [hEq, Function.update_self, hp, Option.map_some, Option.map_some, hSame]
  · rw [Function.update_of_ne hEq]

theorem mark (h : Exact s) {ch ch' : Channel} (hp : s.memory p = some ch)
    (hSame : registration ch' = registration ch) {position : Nat} {handling : Option Nat}
    (hLive : ∀ q ∈ s.activeChannels.drop position, q ∈ s.waiting)
    (hHandled : ∀ q, handling = some q → q = p) :
    Exact { s.store p ch' with position := position, handling := handling } := by
  refine h.of_registration (registration_store hp ch' hSame) rfl rfl rfl
    (fun q hq => h.live q (hLive q hq)) ?_ rfl rfl
  intro q hq
  rw [hHandled q hq, hp]
  rfl

/-- **Every disciplined step keeps the agreement.** -/
theorem step (h : Exact s) {a : Action} (hStep : s.step a = some s') (hOk : s.Disciplined a) :
    Exact s' := by
  cases step_outcome hStep with
  | opened fd =>
    exact { h with
      isOpen := fun p ch hp hUsed => List.mem_append_left _ (h.isOpen p ch hp hUsed) }
  | closed fd => exact h.close hOk
  | constructed p fd hNone =>
    -- nothing was at the address, and a new channel is unregistered
    refine h.of_fresh ?_ ?_ ?_
    · intro ch hp
      rw [hNone] at hp
      cases hp
    · intro ch hch
      cases hch
      exact ⟨rfl, rfl, rfl⟩
    · intro hSome
      rw [hNone] at hSome
      cases hSome
  | destroyed p =>
    -- `~Channel` asserts that the channel was taken out
    obtain ⟨ch, hp, hFlag, hHandling, hWaiting⟩ := hOk
    refine h.of_fresh ?_ (by simp) (fun _ => .inr ⟨hWaiting, hHandling⟩)
    intro ch' hp'
    rw [hp] at hp'
    cases hp'
    by_contra hUsed
    rw [(h.flag p ch hp).mpr hUsed] at hFlag
    cases hFlag
  | switched p switch =>
    obtain ⟨ch, hp, hOpen, hSole⟩ := hOk
    exact h.setInterest hp hOpen hSole switch
  | removed p =>
    obtain ⟨ch, hp, hNone, hSole⟩ := hOk
    exact h.remove hp hNone hSole
  | polled ready => exact h.poll ready
  | dispatched p rest hHandling hWaiting =>
    -- `eventHandling_` is not part of the registration
    obtain ⟨ch, hp⟩ := Option.isSome_iff_exists.mp (h.live p (by rw [hWaiting]; simp))
    simp only [withChannel, hp]
    have hSame : registration { ch with eventHandling := true } = registration ch := rfl
    refine h.mark hp hSame ?_ (fun q hq => (Option.some.inj hq).symm)
    intro q hq
    rw [← List.drop_drop] at hq
    exact List.mem_of_mem_drop hq
  | returned p hHandling =>
    obtain ⟨ch, hp⟩ := Option.isSome_iff_exists.mp (h.handled p hHandling)
    simp only [withChannel, hp]
    have hSame : registration { ch with eventHandling := false } = registration ch := rfl
    refine h.mark hp hSame (fun q hq => hq) ?_
    intro q hq
    cases hq

end Exact

variable {s s' : EventLoop}

theorem exact_of_reachesBy (hRun : ReachesBy step Disciplined {} s) : Exact s :=
  hRun.invariant (P := Exact) exact_new fun _ _ _ hStep hOk h => h.step hStep hOk

/-- **The interest list is what the channels want.** However channels are constructed, switched on
and off, taken out and destroyed, in callbacks or between polls, as long as the callers keep the
discipline: a descriptor is in the kernel's list exactly if a channel on it has the mark `1`, with
that channel's mask and address; a channel that wants an event is in the list; the poller's map has
exactly the channels that were not taken out, and `hasChannel` and `addedToLoop_` say the same; no
two of them share a descriptor; no call of `epoll_ctl` has failed, and no destroyed channel was
touched. -/
theorem registration_exact (s : EventLoop) (hRun : ReachesBy step Disciplined {} s) :
    (∀ fd mask p, s.interest.lookup fd = some (mask, p) ↔
      ∃ ch, s.memory p = some ch ∧ ch.fd = fd ∧ ch.index = .added ∧ ch.events = mask) ∧
    (∀ p ch, s.memory p = some ch → ch.isNoneEvent = false → ch.index = .added) ∧
    (∀ p ch, s.memory p = some ch → (s.hasChannel p ch = true ↔ ch.index ≠ .fresh) ∧
      (ch.addedToLoop = true ↔ ch.index ≠ .fresh)) ∧
    (∀ p q ch ch', s.memory p = some ch → s.memory q = some ch' → ch.fd = ch'.fd →
      ch.index ≠ .fresh → ch'.index ≠ .fresh → p = q) ∧
    s.failed = [] ∧ s.dangling = [] := by
  have h := exact_of_reachesBy hRun
  refine ⟨fun fd mask p => ⟨fun hEntry => ?_, ?_⟩, fun p ch hp hWants => ?_, fun p ch hp =>
    ⟨⟨fun hHas => ?_, fun hUsed => ?_⟩, h.flag p ch hp⟩, fun p q ch ch' hp hq hFd hUsed hUsed' => ?_,
    h.failed, h.dangling⟩
  · obtain ⟨ch, hp, rfl, hIndex⟩ := h.entry fd (mask, p) hEntry
    rw [h.registered p ch hp hIndex] at hEntry
    cases hEntry
    exact ⟨ch, hp, rfl, hIndex, rfl⟩
  · rintro ⟨ch, hp, rfl, hIndex, rfl⟩
    exact h.registered p ch hp hIndex
  · by_contra hIndex
    have hNone := h.idle p ch hp hIndex
    simp [Channel.isNoneEvent, hNone] at hWants
  · obtain ⟨ch', hp', -, hUsed⟩ := h.known ch.fd p (by simpa [hasChannel] using hHas)
    rw [hp] at hp'
    cases hp'
    exact hUsed
  · simpa [hasChannel] using h.mapped p ch hp hUsed
  · have hSole := h.sole hq hUsed'
    exact (hSole p ch hp hFd).resolve_right hUsed

/-- A descriptor with a channel on it, at address one, that reads. -/
def readingChannel : EventLoop :=
  (({ openFds := [5] } : EventLoop).store 1 { fd := 5 }).setInterest 1 .enableReading

theorem reaches_readingChannel :
    ReachesBy step (fun s a => s.Disciplined a ∧ s.interest.keys.length ≤ 1) {}
      readingChannel := by
  have hOpen : ReachesBy step (fun s a => s.Disciplined a ∧ s.interest.keys.length ≤ 1) {}
      { openFds := [5] } := ReachesBy.refl.next (.open 5) ⟨trivial, by decide⟩ rfl
  have hConstruct := hOpen.next (.construct 1 5) ⟨List.mem_singleton.mpr rfl, by decide⟩ rfl
  refine hConstruct.next (.setInterest 1 .enableReading)
    ⟨⟨{ fd := 5 }, rfl, by simp [store], ?_⟩, by decide⟩ rfl
  intro q ch' hq _
  by_contra hNot
  rw [not_or] at hNot
  simp [store, Function.update_of_ne hNot.1] at hq

theorem registration_exact_reading :
    readingChannel.interest.lookup 5 = some (kReadEvent, 1) ∧ readingChannel.failed = [] := by
  have h := registration_exact readingChannel (reaches_readingChannel.mono fun _ _ hOk => hOk.1)
  exact ⟨(h.1 5 kReadEvent 1).mpr ⟨_, rfl, rfl, rfl, rfl⟩, h.2.2.2.2.1⟩

variable {ready : List (Nat × UInt32)}

theorem Exact.nodup_events (h : Exact s) (hNodup : (ready.map Prod.fst).Nodup) :
    ((ready.filterMap s.eventFor).map Prod.snd).Nodup := by
  rw [List.nodup_iff_pairwise_ne, List.pairwise_map] at hNodup ⊢
  refine hNodup.filterMap _ ?_
  intro r r' hNe event hEvent event' hEvent' hEq
  obtain ⟨entry, hEntry, rfl⟩ := Option.map_eq_some_iff.mp hEvent
  obtain ⟨entry', hEntry', rfl⟩ := Option.map_eq_some_iff.mp hEvent'
  obtain ⟨ch, hp, hFd, -⟩ := h.entry r.1 entry hEntry
  obtain ⟨ch', hp', hFd', -⟩ := h.entry r'.1 entry' hEntry'
  -- one address has one channel, and that one descriptor
  rw [show entry.2 = entry'.2 from hEq, hp'] at hp
  cases hp
  exact hNe (hFd.symm.trans hFd')

/-- Every ready descriptor is in the list, so there is an event for it. -/
theorem length_events (hReady : ∀ r ∈ ready, s.Ready r) :
    (ready.filterMap s.eventFor).length = ready.length := by
  induction ready with
  | nil => rfl
  | cons r ready ih =>
    have hFirst := hReady r (List.mem_cons_self ..)
    unfold Ready at hFirst
    split at hFirst
    · exact hFirst.elim
    · rename_i event hEvent
      have hFor : s.eventFor r = some (r.2, event.2) := by rw [eventFor, hEvent, Option.map_some]
      rw [List.filterMap_cons_some hFor, List.length_cons, List.length_cons,
        ih fun r hr => hReady r (List.mem_cons_of_mem _ hr)]

/-- **What `poll` hands to the loop** are channels that exist and are registered, one for each
ready descriptor; each has the mask that the kernel reported, which is of events that the channel
has asked for, or an error or hang-up. -/
theorem poll_reports (s s' : EventLoop) (hRun : ReachesBy step Disciplined {} s)
    (ready : List (Nat × UInt32)) (hStep : s.step (.poll ready) = some s') :
    s'.activeChannels.length = ready.length ∧ s'.activeChannels.Nodup ∧
      ∀ p ∈ s'.activeChannels, ∃ ch, s'.memory p = some ch ∧ ch.index = .added ∧
        (ch.fd, ch.revents) ∈ ready ∧ ch.revents &&& ~~~(ch.events ||| kAlwaysReported) = 0 := by
  have h := exact_of_reachesBy hRun
  simp only [step] at hStep
  split_ifs at hStep with hGuard
  cases hStep
  obtain ⟨-, -, hNodup, hReady, -⟩ := hGuard
  rw [h.poll_eq ready]
  have hNodup' := h.nodup_events hNodup
  refine ⟨by rw [List.length_map, length_events hReady], hNodup', fun p hp => ?_⟩
  obtain ⟨event, he, rfl⟩ := List.mem_map.mp hp
  obtain ⟨ch, hp, hIndex, hMem⟩ := h.live_event he
  refine ⟨{ ch with revents := event.1 }, ?_, hIndex, hMem, ?_⟩
  · show reported _ s.memory event.2 = _
    rw [reported_of_mem hNodup' he, hp, Option.map_some]
  · -- the kernel's mask for the descriptor is the channel's
    have hMask := hReady _ hMem
    rw [Ready, h.registered _ ch hp hIndex] at hMask
    exact hMask.2

theorem poll_reports_reading :
    ∃ s', readingChannel.step (.poll [(5, EPOLLIN)]) = some s' ∧ s'.activeChannels.length = 1 := by
  have hStep : (readingChannel.step (.poll [(5, EPOLLIN)])).isSome = true := by decide
  obtain ⟨s', hs'⟩ := Option.isSome_iff_exists.mp hStep
  have h := poll_reports readingChannel s' (reaches_readingChannel.mono fun _ _ hOk => hOk.1) _ hs'
  exact ⟨s', hs', h.1⟩

/-! ## The array of events -/

theorem eventsSize_withChannel {p : Nat} {f : Channel → EventLoop}
    (h : ∀ ch, (f ch).eventsSize = s.eventsSize) :
    (s.withChannel p f).eventsSize = s.eventsSize := by
  unfold withChannel
  split
  · exact h _
  · rfl

@[simp] theorem eventsSize_update (s : EventLoop) (operation : Operation) (p : Nat) (ch : Channel) :
    (s.update operation p ch).eventsSize = s.eventsSize := by
  unfold update epollCtl
  cases operation <;> simp only <;> split_ifs <;> rfl

@[simp] theorem eventsSize_updateChannel (s : EventLoop) (p : Nat) :
    (s.updateChannel p).eventsSize = s.eventsSize := by
  refine eventsSize_withChannel fun ch => ?_
  cases ch.index with
  | fresh | deleted => exact eventsSize_update ..
  | added =>
    simp only
    split_ifs
    · exact eventsSize_update ..
    · exact eventsSize_update ..

theorem eventsSize_remove (s : EventLoop) (p : Nat) :
    (s.remove p).eventsSize = s.eventsSize := by
  refine eventsSize_withChannel fun ch => eventsSize_withChannel fun ch' => ?_
  simp only
  split_ifs
  · exact eventsSize_update ..
  · rfl

theorem eventsSize_fillActiveChannels (s : EventLoop) (events : List (UInt32 × Nat)) :
    (s.fillActiveChannels events).eventsSize = s.eventsSize := by
  induction events generalizing s with
  | nil => rfl
  | cons event events ih =>
    rw [fillActiveChannels, List.foldl_cons, ← fillActiveChannels, ih]
    exact eventsSize_withChannel fun ch => rfl

/-- The ready descriptors are different ones of the interest list. -/
theorem length_ready_le (hNodup : (ready.map Prod.fst).Nodup) (hReady : ∀ r ∈ ready, s.Ready r) :
    ready.length ≤ s.interest.keys.length := by
  rw [← List.length_map Prod.fst]
  refine (List.subperm_of_subset hNodup fun fd hFd => ?_).length_le
  obtain ⟨r, hr, rfl⟩ := List.mem_map.mp hFd
  have hEntry := hReady r hr
  unfold Ready at hEntry
  rw [← AList.mem_keys, ← AList.lookup_isSome]
  split at hEntry
  · exact hEntry.elim
  · rename_i event hEvent
    rw [hEvent]
    rfl

/-- Only `poll` resizes the array, when it was filled. -/
theorem eventsSize_step {a : Action} (hStep : s.step a = some s') :
    s'.eventsSize = s.eventsSize ∨
      s'.eventsSize = s.eventsSize * 2 ∧ s.eventsSize ≤ s.interest.keys.length := by
  cases step_outcome hStep with
  | polled ready _ _ hNodup hReady =>
    have hSame := eventsSize_fillActiveChannels { s with activeChannels := [], position := 0 }
      (ready.filterMap s.eventFor)
    unfold poll
    simp only
    split_ifs with hFull
    · -- as many descriptors are ready as there are places
      refine .inr ⟨congrArg (· * 2) hSame, ?_⟩
      rw [length_events hReady] at hFull
      exact (hSame.symm.trans hFull.2.symm).trans_le (length_ready_le hNodup hReady)
    · exact .inl hSame
  | switched => exact .inl (eventsSize_withChannel fun ch => eventsSize_updateChannel ..)
  | removed p => exact .inl (eventsSize_remove s p)
  | opened | closed | constructed | destroyed => exact .inl rfl
  | dispatched | returned => exact .inl (eventsSize_withChannel fun ch => rfl)

/-- **The array of events grows with the number of channels, not with time.** If at most `n`
descriptors are ever registered at once, the array has at most sixteen places, or twice `n`;
the callers need no discipline for that. -/
theorem eventsSize_le (s : EventLoop) (n : Nat)
    (hRun : ReachesBy step (fun s _ => s.interest.keys.length ≤ n) {} s) :
    s.eventsSize ≤ max 16 (2 * n) := by
  refine hRun.invariant (P := fun s => s.eventsSize ≤ max 16 (2 * n)) (Nat.le_max_left ..) ?_
  rintro s s' a hStep hSize hLe
  rcases eventsSize_step hStep with hSame | ⟨hDouble, hFull⟩
  · rwa [hSame]
  · rw [hDouble]
    omega

theorem eventsSize_le_reading : readingChannel.eventsSize ≤ max 16 (2 * 1) :=
  eventsSize_le readingChannel 1 (reaches_readingChannel.mono fun _ _ hOk => hOk.2)

end EventLoop

end ReactorNet.Epoll
