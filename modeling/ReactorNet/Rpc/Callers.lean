import Mathlib.Data.List.ReduceOption
import ReactorNet.Rpc.Completion

/-!
# ReactorNet — calls from other threads

`Call` and `CallAsync` may be called on any thread. They make a promise, post a functor to the loop
of the client, and `Call` waits for the promise; the functor starts the call with a completion that
fulfils it. `Callers` is that side of a client: the calls that were posted, the functors that are
queued or swapped out, whose promise each call of the client fulfils, and what the threads got.

What the client is in does not matter to its callers, as long as its calls are numbered and its
completions recorded (`Host`). `Threads` is a host with the callers of each of its clients. `Call`
on the loop thread returns `kBadRequest` and does nothing else, so it is no step here.

Main result: `promises_kept` — against any peer, every promise is fulfilled at most once, with the
response to its own call; calls are started in the order in which they were posted; and none is
left waiting when the client has nothing left to do.
-/

namespace ReactorNet.Rpc

open Lib

universe u v

/-! ## The callers of a client -/

/-- A call is known by its place among the ones that were posted. -/
structure Callers where
  /-- In the order in which `queueInLoop` took the lock. -/
  posted : List CallSpec := []
  pendingFunctors : List Nat := []
  /-- The functors that `doPendingFunctors` has swapped out and not run yet. -/
  functors : List Nat := []
  /-- For every call of the client, the posted one that it is; there is none if the call was made
  on the loop thread. -/
  owners : List (Option Nat) := []
  /-- What threads got from the futures of their calls. -/
  returned : List (Nat × Response) := []

namespace Callers

/-- `CallAsync` on another thread. -/
def callAsync (c : Callers) (spec : CallSpec) : Callers :=
  { c with
    posted := c.posted ++ [spec]
    pendingFunctors := c.pendingFunctors ++ [c.posted.length] }

def doPendingFunctors (c : Callers) : Callers :=
  { c with pendingFunctors := [], functors := c.pendingFunctors }

/-- A call of the client, if there is one, is the one of this owner. -/
def record (c : Callers) (made : Option CallSpec) (owner : Option Nat) : Callers :=
  { c with owners := c.owners ++ made.toList.map fun _ => owner }

/-- The posted call that a call of the client is. -/
def ownerOf (c : Callers) (call : Nat) : Option Nat := c.owners[call]?.join

/-- The value of the promise of a posted call, if its completion has run. -/
def promise (c : Callers) (completed : List (Nat × Response)) (t : Nat) : Option Response :=
  (completed.find? fun e => c.ownerOf e.1 == some t).map Prod.snd

end Callers

/-! ## The system -/

/-- What a system with clients has to say about them. -/
structure Host (ι : Type) (S : Type u) (A : Type v) where
  step : S → A → Option S
  calls : S → ι → List CallSpec
  completed : S → ι → List (Nat × Response)
  /-- The call that an action makes on a client. -/
  made : A → ι → Option CallSpec
  /-- The loop of the client can run a functor. -/
  free : S → ι → Bool
  calls_of_step : ∀ {s s' : S} {a : A}, step s a = some s' →
    ∀ i, calls s' i = calls s i ++ (made a i).toList
  completed_of_step : ∀ {s s' : S} {a : A}, step s a = some s' →
    ∀ i, completed s i <+: completed s' i

structure Threads (ι : Type) (S : Type u) where
  host : S
  callers : ι → Callers := fun _ => {}

namespace Threads

variable {ι : Type} [DecidableEq ι] {S : Type u} {A : Type v}

inductive Action (ι : Type) (A : Type v) where
  | callAsync (i : ι) (spec : CallSpec)
  | doPendingFunctors (i : ι)
  /-- The next functor starts its call, which is this action of the host. -/
  | functor (i : ι) (a : A)
  | loop (a : A)
  /-- A thread gets the response of its call from the future. -/
  | get (i : ι) (t : Nat)

def set (s : Threads ι S) (i : ι) (c : Callers) : Threads ι S :=
  { s with callers := Function.update s.callers i c }

/-- An action of the host; its calls are made on the loop thread. -/
def advance (s : Threads ι S) (H : Host ι S A) (host : S) (a : A) : Threads ι S where
  host := host
  callers := fun i => (s.callers i).record (H.made a i) none

def step (H : Host ι S A) (s : Threads ι S) : Action ι A → Option (Threads ι S)
  | .callAsync i spec => some (s.set i ((s.callers i).callAsync spec))
  | .doPendingFunctors i =>
    if H.free s.host i = true ∧ (s.callers i).functors = [] then
      some (s.set i (s.callers i).doPendingFunctors)
    else none
  | .functor i a =>
    match (s.callers i).functors with
    | [] => none
    | t :: rest =>
      if H.free s.host i = true ∧ (H.made a i).isSome ∧ H.made a i = (s.callers i).posted[t]? then
        (H.step s.host a).map fun host =>
          (s.advance H host a).set i
            ({ s.callers i with functors := rest }.record (H.made a i) (some t))
      else none
  | .loop a => (H.step s.host a).map fun host => s.advance H host a
  | .get i t =>
    -- the thread waits as long as there is no value
    ((s.callers i).promise (H.completed s.host i) t).map fun response =>
      s.set i { s.callers i with returned := (s.callers i).returned ++ [(t, response)] }

/-- What the callers do is not seen by the host. -/
theorem reaches_host {H : Host ι S A} {s s' : Threads ι S} (h : Reaches (step H) s s') :
    Reaches H.step s.host s'.host := by
  refine h.invariant (P := fun t => Reaches H.step s.host t.host) .refl ?_
  intro t t' a hStep hReach
  cases a with
  | callAsync =>
    cases hStep
    exact hReach
  | doPendingFunctors =>
    simp only [step] at hStep
    split_ifs at hStep
    cases hStep
    exact hReach
  | functor i a =>
    simp only [step] at hStep
    split at hStep
    · cases hStep
    · split_ifs at hStep
      obtain ⟨host, hHost, rfl⟩ := Option.map_eq_some_iff.mp hStep
      exact hReach.next a hHost
  | loop a =>
    obtain ⟨host, hHost, rfl⟩ := Option.map_eq_some_iff.mp hStep
    exact hReach.next a hHost
  | get =>
    obtain ⟨response, -, rfl⟩ := Option.map_eq_some_iff.mp hStep
    exact hReach

end Threads

/-! ## What every step keeps -/

/-- The callers of a client agree with its calls and completions. -/
structure Kept (calls : List CallSpec) (completed : List (Nat × Response)) (c : Callers) :
    Prop where
  length : c.owners.length = calls.length
  own : ∀ {k t : Nat}, c.owners[k]? = some (some t) →
    ∃ spec, c.posted[t]? = some spec ∧ calls[k]? = some spec
  /-- Posted calls are started in their order; the others are swapped out or queued. -/
  fifo : c.owners.reduceOption ++ (c.functors ++ c.pendingFunctors) = List.range c.posted.length
  returned : ∀ e ∈ c.returned, ∃ k, c.owners[k]? = some (some e.1) ∧ (k, e.2) ∈ completed

namespace Kept

variable {calls calls' : List CallSpec} {completed completed' : List (Nat × Response)}
  {c : Callers}

theorem new (completed : List (Nat × Response)) : Kept [] completed {} where
  length := rfl
  own h := by cases h
  fifo := rfl
  returned _ he := absurd he List.not_mem_nil

theorem callAsync (h : Kept calls completed c) (spec : CallSpec) :
    Kept calls completed (c.callAsync spec) where
  length := h.length
  own hOwner := by
    obtain ⟨spec', hPosted, hCall⟩ := h.own hOwner
    exact ⟨spec', getElem?_mono (List.prefix_append ..) hPosted, hCall⟩
  fifo := by
    show c.owners.reduceOption ++ (c.functors ++ (c.pendingFunctors ++ [c.posted.length])) =
      List.range (c.posted ++ [spec]).length
    rw [List.length_append, List.length_singleton, List.range_succ, ← h.fifo]
    simp only [List.append_assoc]
  returned := h.returned

theorem doPendingFunctors (h : Kept calls completed c) (hFunctors : c.functors = []) :
    Kept calls completed c.doPendingFunctors where
  length := h.length
  own := h.own
  fifo := by
    have hFifo := h.fifo
    rw [hFunctors, List.nil_append] at hFifo
    show c.owners.reduceOption ++ (c.pendingFunctors ++ []) = _
    rw [List.append_nil]
    exact hFifo
  returned := h.returned

/-- What is posted does not change whose an older call is. -/
theorem returned_mono (h : Kept calls completed c) (more : List (Option Nat))
    (hCompleted : completed <+: completed') {e : Nat × Response} (he : e ∈ c.returned) :
    ∃ k, (c.owners ++ more)[k]? = some (some e.1) ∧ (k, e.2) ∈ completed' := by
  obtain ⟨k, hOwner, hMem⟩ := h.returned e he
  exact ⟨k, getElem?_mono (List.prefix_append ..) hOwner, hCompleted.subset hMem⟩

/-- An action of the host, with a call on the loop thread or none. -/
theorem advance (h : Kept calls completed c) {made : Option CallSpec}
    (hCalls : calls' = calls ++ made.toList) (hCompleted : completed <+: completed') :
    Kept calls' completed' (c.record made none) where
  length := by
    cases made <;> simp [Callers.record, hCalls, h.length]
  own {k t} hOwner := by
    have hOld : c.owners[k]? = some (some t) := by
      rw [Callers.record] at hOwner
      rcases Nat.lt_or_ge k c.owners.length with hk | hk
      · rwa [List.getElem?_append_left hk] at hOwner
      · rw [List.getElem?_append_right hk] at hOwner
        obtain ⟨_, _, hEq⟩ := List.mem_map.mp (List.mem_of_getElem? hOwner)
        cases hEq
    obtain ⟨spec, hPosted, hCall⟩ := h.own hOld
    exact ⟨spec, hPosted, hCalls ▸ getElem?_mono (List.prefix_append ..) hCall⟩
  fifo := by
    have hSame : (c.owners ++ made.toList.map fun _ => none).reduceOption =
        c.owners.reduceOption := by
      cases made <;> simp [List.reduceOption_append]
    show (c.owners ++ made.toList.map fun _ => none).reduceOption ++ _ = _
    rw [hSame]
    exact h.fifo
  returned _ he := h.returned_mono _ hCompleted he

variable {k t : Nat}

theorem functor (h : Kept calls completed c) {rest : List Nat} {spec : CallSpec}
    (hFunctors : c.functors = t :: rest) (hPosted : c.posted[t]? = some spec)
    (hCalls : calls' = calls ++ [spec]) (hCompleted : completed <+: completed') :
    Kept calls' completed' ({ c with functors := rest }.record (some spec) (some t)) where
  length := by simp [Callers.record, hCalls, h.length]
  own {k u} hOwner := by
    rw [hCalls]
    have hOwner : (c.owners ++ [some t])[k]? = some (some u) := hOwner
    rcases Nat.lt_or_ge k c.owners.length with hk | hk
    · rw [List.getElem?_append_left hk] at hOwner
      obtain ⟨spec', hPosted', hCall⟩ := h.own hOwner
      exact ⟨spec', hPosted', getElem?_mono (List.prefix_append ..) hCall⟩
    · -- the call that is started now
      obtain rfl : k = c.owners.length := by
        have hLt := (List.getElem?_eq_some_iff.mp hOwner).1
        simp only [List.length_append, List.length_singleton] at hLt
        omega
      have hNow : (c.owners ++ [some t])[c.owners.length]? = some (some t) := by simp
      obtain rfl : t = u := by simpa using hNow.symm.trans hOwner
      exact ⟨spec, hPosted, by simp [h.length]⟩
  fifo := by
    have hFifo := h.fifo
    rw [hFunctors] at hFifo
    show (c.owners ++ [some t]).reduceOption ++ (rest ++ c.pendingFunctors) =
      List.range c.posted.length
    rw [List.reduceOption_append]
    simpa using hFifo
  returned _ he := h.returned_mono _ hCompleted he

theorem ownerOf_eq_some : c.ownerOf k = some t ↔ c.owners[k]? = some (some t) := by
  rw [Callers.ownerOf]
  cases c.owners[k]? with
  | none => simp
  | some o => simp

theorem get (h : Kept calls completed c) {response : Response}
    (hPromise : c.promise completed t = some response) :
    Kept calls completed { c with returned := c.returned ++ [(t, response)] } where
  length := h.length
  own := h.own
  fifo := h.fifo
  returned e he := by
    rcases List.mem_append.mp he with he | he
    · exact h.returned e he
    · rw [List.mem_singleton.mp he]
      obtain ⟨⟨k, response'⟩, hFind, rfl⟩ := Option.map_eq_some_iff.mp hPromise
      have hOwner : c.ownerOf k = some t := by simpa using List.find?_some hFind
      exact ⟨k, ownerOf_eq_some.mp hOwner, List.mem_of_find?_eq_some hFind⟩

/-- Of two posted calls, the one that was posted first was started first. -/
theorem owners_lt (h : Kept calls completed c) {k' t' : Nat} (hk : k < k')
    (hOwner : c.owners[k]? = some (some t)) (hOwner' : c.owners[k']? = some (some t')) :
    t < t' := by
  have hSorted : c.owners.reduceOption.Pairwise (· < ·) := by
    have hAll : (List.range c.posted.length).Pairwise (· < ·) := List.pairwise_lt_range
    rw [← h.fifo] at hAll
    exact hAll.sublist (List.sublist_append_left ..)
  rw [List.reduceOption, List.pairwise_filterMap] at hSorted
  obtain ⟨hLt, hEq⟩ := List.getElem?_eq_some_iff.mp hOwner
  obtain ⟨hLt', hEq'⟩ := List.getElem?_eq_some_iff.mp hOwner'
  exact List.pairwise_iff_getElem.mp hSorted k k' hLt hLt' hk t hEq t' hEq'

theorem owners_inj (h : Kept calls completed c) {k' : Nat} (hOwner : c.owners[k]? = some (some t))
    (hOwner' : c.owners[k']? = some (some t)) : k = k' := by
  rcases Nat.lt_trichotomy k k' with hk | hk | hk
  · exact absurd (h.owners_lt hk hOwner hOwner') (Nat.lt_irrefl t)
  · exact hk
  · exact absurd (h.owners_lt hk hOwner' hOwner) (Nat.lt_irrefl t)

/-- A posted call that is not queued any more was started. -/
theorem started (h : Kept calls completed c) (hFunctors : c.functors = [])
    (hPending : c.pendingFunctors = []) (ht : t < c.posted.length) :
    ∃ k < calls.length, c.owners[k]? = some (some t) := by
  have hFifo := h.fifo
  rw [hFunctors, hPending, List.append_nil, List.append_nil] at hFifo
  have hMem : t ∈ c.owners.reduceOption := by
    rw [hFifo]
    exact List.mem_range.mpr ht
  obtain ⟨k, hk⟩ := List.getElem?_of_mem (List.reduceOption_mem_iff.mp hMem)
  exact ⟨k, h.length ▸ (List.getElem?_eq_some_iff.mp hk).1, hk⟩

end Kept

namespace Threads

variable {ι : Type} [DecidableEq ι] {S : Type u} {A : Type v} {H : Host ι S A}

/-- The callers of every client agree with it. -/
def AllKept (H : Host ι S A) (s : Threads ι S) : Prop :=
  ∀ i, Kept (H.calls s.host i) (H.completed s.host i) (s.callers i)

variable {s : Threads ι S}

theorem AllKept.set (h : AllKept H s) {i : ι} {c : Callers}
    (hc : Kept (H.calls s.host i) (H.completed s.host i) c) : AllKept H (s.set i c) := by
  intro j
  by_cases hj : j = i
  · subst hj
    simpa [Threads.set] using hc
  · simpa [Threads.set, Function.update_of_ne hj] using h j

omit [DecidableEq ι] in
theorem AllKept.advance (h : AllKept H s) {a : A} {host : S} (hStep : H.step s.host a = some host) :
    AllKept H (s.advance H host a) := fun i =>
  (h i).advance (H.calls_of_step hStep i) (H.completed_of_step hStep i)

/-- **Every step keeps the callers in agreement with their client.** -/
theorem allKept_step {s' : Threads ι S} {a : Action ι A} (hStep : s.step H a = some s')
    (h : AllKept H s) : AllKept H s' := by
  cases a with
  | callAsync i spec =>
    cases hStep
    exact h.set ((h i).callAsync spec)
  | doPendingFunctors i =>
    simp only [step] at hStep
    split_ifs at hStep with hGuard
    cases hStep
    exact h.set ((h i).doPendingFunctors hGuard.2)
  | functor i a =>
    -- the functor makes the call it was posted for, and the promise is that call's
    simp only [step] at hStep
    split at hStep
    · cases hStep
    · rename_i t rest hFunctors
      split_ifs at hStep with hGuard
      obtain ⟨-, hSome, hPosted⟩ := hGuard
      obtain ⟨host, hHost, rfl⟩ := Option.map_eq_some_iff.mp hStep
      obtain ⟨spec, hMade⟩ := Option.isSome_iff_exists.mp hSome
      have hCalls := H.calls_of_step hHost i
      rw [hMade] at hCalls hPosted ⊢
      exact (h.advance hHost).set ((h i).functor hFunctors hPosted.symm hCalls
        (H.completed_of_step hHost i))
  | loop a =>
    obtain ⟨host, hHost, rfl⟩ := Option.map_eq_some_iff.mp hStep
    exact h.advance hHost
  | get i t =>
    obtain ⟨response, hPromise, rfl⟩ := Option.map_eq_some_iff.mp hStep
    exact h.set ((h i).get hPromise)

theorem allKept_of_reaches {s' : Threads ι S} (h : AllKept H s) (hReach : Reaches (step H) s s') :
    AllKept H s' :=
  hReach.invariant (P := AllKept H) h fun _ _ _ => allKept_step

omit [DecidableEq ι] in
theorem allKept_start {host : S} (h : ∀ i, H.calls host i = []) :
    AllKept H ({ host := host } : Threads ι S) := by
  intro i
  show Kept (H.calls host i) (H.completed host i) {}
  rw [h i]
  exact .new _

end Threads

/-! ## A client on its own -/

namespace Client

/-- The call that an action makes. -/
def Action.made : Action → Option CallSpec
  | .call spec => some spec
  | _ => none

theorem calls_of_step {c c' : Client} {a : Action} (hStep : c.step a = some c') :
    c'.calls = c.calls ++ a.made.toList := by
  cases step_outcome hStep with
  | unconnected | unencodable | started => rfl
  | disconnected | returned | waiting | broken | alien | late | answered | failed | closed | gone
  | expiredAll | stale | timedOut | received | expired | up | down =>
    exact (List.append_nil _).symm

/-- A client, with a peer that may send anything. -/
def host : Host Unit Client Action where
  step := Client.step
  calls c _ := c.calls
  completed c _ := c.completed
  made a _ := a.made
  free c _ := c.running = [] ∧ c.control = .idle
  calls_of_step hStep _ := calls_of_step hStep
  completed_of_step hStep _ := completed_of_step hStep

end Client

/-- A value of a promise stands for one completion of one call. -/
theorem Kept.fulfilled_le {calls : List CallSpec} {completed : List (Nat × Response)} {c : Callers}
    (h : Kept calls completed c) (hOnce : ∀ k, (completed.map Prod.fst).count k ≤ 1) (t : Nat) :
    (completed.filter fun e => c.ownerOf e.1 == some t).length ≤ 1 := by
  by_contra hMore
  -- two completions would be of one call
  obtain ⟨e, rest, hFilter⟩ : ∃ e rest, completed.filter (fun e => c.ownerOf e.1 == some t) =
      e :: rest := by
    cases hFilter : completed.filter fun e => c.ownerOf e.1 == some t with
    | nil => simp [hFilter] at hMore
    | cons e rest => exact ⟨e, rest, rfl⟩
  have hOwner : ∀ e' ∈ completed.filter (fun e => c.ownerOf e.1 == some t), e'.1 = e.1 := by
    have hIs : ∀ e' ∈ completed.filter (fun e => c.ownerOf e.1 == some t),
        c.owners[e'.1]? = some (some t) := fun e' he' =>
      Kept.ownerOf_eq_some.mp (by simpa using (List.mem_filter.mp he').2)
    intro e' he'
    exact h.owners_inj (hIs e' he') (hIs e (by rw [hFilter]; exact List.mem_cons_self ..))
  have hCount : (completed.filter fun e => c.ownerOf e.1 == some t).length ≤
      (completed.map Prod.fst).count e.1 := by
    calc (completed.filter fun e => c.ownerOf e.1 == some t).length
        = ((completed.filter fun e => c.ownerOf e.1 == some t).map Prod.fst).count e.1 := by
          rw [List.count_eq_length.mpr, List.length_map]
          intro k hk
          obtain ⟨e', he', rfl⟩ := List.mem_map.mp hk
          exact (hOwner e' he').symm
      _ ≤ (completed.map Prod.fst).count e.1 :=
          (List.filter_sublist.map Prod.fst).count_le _
  exact hMore (hCount.trans (hOnce e.1))

/-- **Promises are kept.** Whatever the peer sends, whatever happens to the connection, and however
threads and the loop take turns: calls are started in the order in which they were posted, and none
is lost; the promise of a call is fulfilled at most once; what a thread gets is the response that
its own call completed with; and when no functor is queued and the client has nothing left to do,
every promise has been fulfilled. -/
theorem promises_kept (serializerId : UInt8) (frameReader : FrameReader) (s : Threads Unit Client)
    (hReach : Reaches (Threads.step Client.host)
      { host := Client.new serializerId frameReader } s) :
    (s.callers ()).owners.reduceOption ++
        ((s.callers ()).functors ++ (s.callers ()).pendingFunctors) =
      List.range (s.callers ()).posted.length ∧
    (∀ t, (s.host.completed.filter fun e => (s.callers ()).ownerOf e.1 == some t).length ≤ 1) ∧
    (∀ e ∈ (s.callers ()).returned, ∃ k spec, (s.callers ()).ownerOf k = some e.1 ∧
      (s.callers ()).posted[e.1]? = some spec ∧ s.host.calls[k]? = some spec ∧
      (k, e.2) ∈ s.host.completed) ∧
    ((s.callers ()).functors = [] → (s.callers ()).pendingFunctors = [] →
      s.host.control = .idle → s.host.pendings = [] →
      ∀ t < (s.callers ()).posted.length,
        ((s.callers ()).promise s.host.completed t).isSome) := by
  have hKept : Kept s.host.calls s.host.completed (s.callers ()) :=
    Threads.allKept_of_reaches (Threads.allKept_start fun _ => rfl) hReach ()
  have hClient : Reaches Client.step (Client.new serializerId frameReader) s.host :=
    Threads.reaches_host hReach
  have hAccounted : s.host.Accounted := hClient.invariant
    (fun k => by simp [Client.new, Client.pendingCalls, Client.heldCalls, Client.completedCalls,
      Client.callsIn])
    fun _ _ _ => Client.accounted_step
  refine ⟨hKept.fifo, hKept.fulfilled_le fun k => ?_, fun e he => ?_,
    fun hFunctors hPending hIdle hNone t ht => ?_⟩
  · have hOnce := hAccounted k
    show s.host.completedCalls.count k ≤ 1
    split_ifs at hOnce <;> omega
  · obtain ⟨k, hOwner, hMem⟩ := hKept.returned e he
    obtain ⟨spec, hPosted, hCall⟩ := hKept.own hOwner
    exact ⟨k, spec, Kept.ownerOf_eq_some.mpr hOwner, hPosted, hCall, hMem⟩
  · obtain ⟨k, hk, hOwner⟩ := hKept.started hFunctors hPending ht
    -- the call is in no table, so it has completed
    have hOnce := hAccounted k
    rw [if_pos hk, Client.heldCalls, hIdle, Client.pendingCalls, hNone] at hOnce
    have hMem : k ∈ s.host.completedCalls := by
      refine List.count_pos_iff.mp ?_
      simp only [Client.callsIn, List.map_nil, List.count_nil] at hOnce
      omega
    obtain ⟨e, he, rfl⟩ := List.mem_map.mp hMem
    rw [Callers.promise, Option.isSome_map, List.find?_isSome]
    exact ⟨e, he, by simpa using Kept.ownerOf_eq_some.mpr hOwner⟩

/-- Two threads call. The first call is sent, and given up with the connection; the second one
comes too late for it. -/
def twoThreads : List (Threads.Action Unit Client.Action) :=
  [.callAsync () Client.sampleCalls.1, .loop .up, .doPendingFunctors (),
    .callAsync () Client.sampleCalls.2, .functor () (.call Client.sampleCalls.1), .loop .down,
    .loop (.resume 0), .loop .ret, .loop (.resume 0), .doPendingFunctors (),
    .functor () (.call Client.sampleCalls.2), .loop .ret, .get () 1]

theorem promises_kept_twoThreads : ∃ s : Threads Unit Client,
    (s.callers ()).posted.length = 2 ∧ ((s.callers ()).promise s.host.completed 0).isSome ∧
    ∃ k response, (k, response) ∈ s.host.completed ∧ (s.callers ()).ownerOf k = some 1 ∧
      response.status = .kConnectionClosed := by
  have hRun : (runAll (Threads.step Client.host)
      { host := Client.new kSerializerRaw FrameReader.default } twoThreads).map (fun s =>
        (s.host.control, s.host.pendingCalls ++ (s.callers ()).functors ++
          (s.callers ()).pendingFunctors, (s.callers ()).posted.length,
          (s.callers ()).returned.map fun e => (e.1, e.2.status))) =
      some (.idle, [], 2, [(1, .kConnectionClosed)]) := by decide
  obtain ⟨s, hs, hFields⟩ := Option.map_eq_some_iff.mp hRun
  simp only [Prod.mk.injEq, List.append_eq_nil_iff] at hFields
  obtain ⟨hIdle, ⟨⟨hCalls, hFunctors⟩, hPending⟩, hTwo, hReturned⟩ := hFields
  have hNone : s.host.pendings = [] := List.map_eq_nil_iff.mp hCalls
  obtain ⟨-, -, hGot, hAll⟩ := promises_kept _ _ s (reaches_of_runAll hs)
  obtain ⟨⟨t, response⟩, he, hEq⟩ := List.mem_map.mp (hReturned ▸ List.mem_singleton_self _)
  obtain ⟨rfl, hStatus⟩ := Prod.mk.inj hEq
  obtain ⟨k, spec, hOwner, -, -, hMem⟩ := hGot _ he
  exact ⟨s, hTwo, hAll hFunctors hPending hIdle hNone 0 (by rw [hTwo]; decide), k, response, hMem,
    hOwner, hStatus⟩

end ReactorNet.Rpc
