import ReactorNet.Rpc.Callers
import ReactorNet.Rpc.WiredRefines

/-!
# ReactorNet — blocking calls are linearizable

Threads that call through clients, each client on its loop and its connection, and the server with
its handlers: the whole of the system, from `Call` to the socket and back. A call that has returned
with an answer of the server stands, in the order in which the server executed the calls, before
every call that was made afterwards, on whatever thread and through whatever client.

Main result: `blocking_calls_linearizable`.
-/

namespace ReactorNet.Rpc

open Lib TcpConnection
open Endpoint (upToRead afterRead)

universe u v

variable {ι : Type} [DecidableEq ι] {σ : Type u}

/-! ## The connections as a host of clients -/

/-- The call that an action makes on a client. -/
def Wired.Action.made (i : ι) : Wired.Action ι → Option CallSpec
  | .rpc j a _ => if j = i then a.made else none
  | _ => none

namespace Wire

variable {l l' : Wire}

/-- What callbacks of the connection do to the calls of the client. -/
theorem calls_of_clientStep {a : Endpoint.Action} (h : l.clientStep a = some l') :
    l'.rpc.calls = l.rpc.calls ∧ l'.rpc.completed = l.rpc.completed := by
  simp only [clientStep] at h
  split_ifs at h
  obtain ⟨e, -, rfl⟩ := Option.map_eq_some_iff.mp h
  show (l.rpc.onUpcall (l.client.tcp.upcall e.tcp)).calls = _ ∧
    (l.rpc.onUpcall (l.client.tcp.upcall e.tcp)).completed = _
  unfold Client.onUpcall
  split <;> exact ⟨rfl, rfl⟩

theorem calls_of_rpcStep {a : Client.Action} {w : WriteResult} (h : l.rpcStep a w = some l') :
    l'.rpc.calls = l.rpc.calls ++ a.made.toList ∧ l.rpc.completed <+: l'.rpc.completed := by
  simp only [rpcStep] at h
  split_ifs at h
  split at h
  · cases h
  · rename_i c hc
    have hCalls := Client.calls_of_step hc
    have hCompleted := Client.completed_of_step hc
    obtain ⟨e, -, rfl⟩ := Option.map_eq_some_iff.mp h
    exact ⟨hCalls, hCompleted⟩

theorem rpc_of_serverStep {a : Endpoint.Action} (h : l.serverStep a = some l') :
    l'.rpc = l.rpc := by
  simp only [serverStep] at h
  split_ifs at h
  obtain ⟨e, -, rfl⟩ := Option.map_eq_some_iff.mp h
  rfl

theorem rpc_of_commit {conn : Conn σ} {w : WriteResult} {serving : Bool}
    (h : l.commit conn w serving = some l') : l'.rpc = l.rpc := by
  obtain ⟨e, -, rfl⟩ := Option.map_eq_some_iff.mp h
  rfl

end Wire

namespace Wired

variable {server : RpcServer σ} {s s' : Wired ι σ}

/-- A pass of the server is none of the client's business. -/
theorem rpc_of_commit {i : ι} {conn : Conn σ} {w : WriteResult} {serving : Bool}
    (h : s.commit i conn w serving = some s') (j : ι) :
    (s'.wires j).rpc = (s.wires j).rpc := by
  obtain ⟨l, hl, rfl⟩ := Option.map_eq_some_iff.mp h
  by_cases hj : j = i
  · subst hj
    simpa using Wire.rpc_of_commit hl
  · simp [Function.update_of_ne hj]

/-- What a step does to the calls of the clients. -/
theorem calls_of_step {a : Action ι} (h : s.step server a = some s') (j : ι) :
    (s'.wires j).rpc.calls = (s.wires j).rpc.calls ++ (a.made j).toList ∧
      (s.wires j).rpc.completed <+: (s'.wires j).rpc.completed := by
  -- the other wires stay as they are
  have hOther : ∀ {i : ι} {l : Wire}, i ≠ j → ((s.set i l).wires j).rpc = (s.wires j).rpc := by
    intro i l hNe
    simp [Wired.set, Function.update_of_ne (Ne.symm hNe)]
  cases a with
  | client i a =>
    obtain ⟨l, hl, rfl⟩ := Option.map_eq_some_iff.mp h
    by_cases hj : i = j
    · subst hj
      obtain ⟨hCalls, hCompleted⟩ := Wire.calls_of_clientStep hl
      simp [Wired.set, Action.made, hCalls, hCompleted]
    · simp [Action.made, hOther hj]
  | rpc i a w =>
    obtain ⟨l, hl, rfl⟩ := Option.map_eq_some_iff.mp h
    by_cases hj : i = j
    · subst hj
      simpa [Wired.set, Action.made] using Wire.calls_of_rpcStep hl
    · simp [Action.made, hOther hj, hj]
  | server i a =>
    obtain ⟨l, hl, rfl⟩ := Option.map_eq_some_iff.mp h
    by_cases hj : i = j
    · subst hj
      simp [Wired.set, Action.made, Wire.rpc_of_serverStep hl]
    · simp [Action.made, hOther hj]
  | pass i w =>
    simp only [step] at h
    split_ifs at h
    split at h
    · simp [Action.made, rpc_of_commit h j]
    · simp [Action.made, rpc_of_commit h j]

/-- The clients on their connections, as their callers know them. -/
def host (server : RpcServer σ) : Host ι (Wired ι σ) (Action ι) where
  step := step server
  calls s i := (s.wires i).rpc.calls
  completed s i := (s.wires i).rpc.completed
  made a i := a.made i
  free s i := (s.wires i).rpc.running = [] ∧ (s.wires i).rpc.control = .idle ∧
    (s.wires i).client.tcp.stack = []
  calls_of_step h i := (calls_of_step h i).1
  completed_of_step h i := (calls_of_step h i).2

end Wired

/-! ## What callers only add to -/

namespace Threads

variable {S : Type u} {A : Type v} {H : Host ι S A} {s s' : Threads ι S}

/-- The posted calls and the owners of calls only grow. -/
theorem grows_step {a : Action ι A} (hStep : s.step H a = some s') (i : ι) :
    (s.callers i).posted <+: (s'.callers i).posted ∧
      (s.callers i).owners <+: (s'.callers i).owners := by
  -- by whether the step is about this client
  have hSet : ∀ {t : Threads ι S} {j : ι} {c : Callers},
      ((t.callers j).posted <+: c.posted ∧ (t.callers j).owners <+: c.owners) →
      (t.callers i).posted <+: ((t.set j c).callers i).posted ∧
        (t.callers i).owners <+: ((t.set j c).callers i).owners := by
    intro t j c hc
    by_cases hj : i = j
    · subst hj
      simpa [Threads.set] using hc
    · simp [Threads.set, Function.update_of_ne hj]
  cases a with
  | callAsync j spec =>
    cases hStep
    exact hSet ⟨List.prefix_append .., List.prefix_rfl⟩
  | doPendingFunctors j =>
    simp only [step] at hStep
    split_ifs at hStep
    cases hStep
    exact hSet ⟨List.prefix_rfl, List.prefix_rfl⟩
  | functor j a =>
    simp only [step] at hStep
    split at hStep
    · cases hStep
    · split_ifs at hStep
      obtain ⟨host, -, rfl⟩ := Option.map_eq_some_iff.mp hStep
      by_cases hj : i = j
      · subst hj
        simp [Threads.set, Callers.record]
      · simp [Threads.set, Function.update_of_ne hj, Threads.advance, Callers.record]
  | loop a =>
    obtain ⟨host, -, rfl⟩ := Option.map_eq_some_iff.mp hStep
    exact ⟨List.prefix_rfl, List.prefix_append ..⟩
  | get j t =>
    obtain ⟨response, -, rfl⟩ := Option.map_eq_some_iff.mp hStep
    exact hSet ⟨List.prefix_rfl, List.prefix_rfl⟩

theorem grows (hReach : Reaches (step H) s s') (i : ι) :
    (s.callers i).posted <+: (s'.callers i).posted ∧
      (s.callers i).owners <+: (s'.callers i).owners := by
  refine hReach.invariant (P := fun t => (s.callers i).posted <+: (t.callers i).posted ∧
    (s.callers i).owners <+: (t.callers i).owners) ⟨List.prefix_rfl, List.prefix_rfl⟩ ?_
  intro t t' a hStep h
  obtain ⟨hPosted, hOwners⟩ := grows_step hStep i
  exact ⟨h.1.trans hPosted, h.2.trans hOwners⟩

end Threads

/-! ## The order of calls -/

/-- A call that was posted later than all of these was not yet made. -/
theorem Kept.not_made {calls : List CallSpec} {completed : List (Nat × Response)} {c c' : Callers}
    (h : Kept calls completed c) (hOwners : c.owners <+: c'.owners) {k u : Nat}
    (hOwner : c'.ownerOf k = some u) (hLater : c.posted.length ≤ u) : calls.length ≤ k := by
  by_contra hNot
  have hk : k < c.owners.length := by
    rw [h.length]
    omega
  have hSame : c.owners[k]? = some (some u) := by
    obtain ⟨more, hMore⟩ := hOwners
    have hLast := Kept.ownerOf_eq_some.mp hOwner
    rwa [← hMore, List.getElem?_append_left hk] at hLast
  obtain ⟨spec, hPosted, -⟩ := h.own hSame
  have hLt := (List.getElem?_eq_some_iff.mp hPosted).1
  omega

/-- An answer that a thread has got, and that is not the client's own, is the result of its call,
executed in some world. -/
theorem returned_executed {server : RpcServer σ} {world : σ}
    (hReader : server.frameReader = FrameReader.default) (hLimit : server.maxInputBufferSize = 0)
    {s : Threads ι (Wired ι σ)}
    (hReach : Reaches (Threads.step (Wired.host server))
      { host := Wired.start server.serializerId world } s) (hBounded : Bounded server s.host.above)
    {i : ι} {e : Nat × Response} (he : e ∈ (s.callers i).returned)
    (hStatus : e.2.status ∉ clientStatuses) :
    ∃ spec w, (s.callers i).posted[e.1]? = some spec ∧
      e.2.outcome = (server.execute spec.request w).1 := by
  have hKept := Threads.allKept_of_reaches (Threads.allKept_start fun _ => rfl) hReach
  obtain ⟨log, -, hLog, -⟩ := wired_logs hReader hLimit (Threads.reaches_host hReach) .refl hBounded
  obtain ⟨k, hOwner, hMem⟩ := (hKept i).returned e he
  obtain ⟨spec, hPosted, hCall⟩ := (hKept i).own hOwner
  obtain hClient | ⟨entry, hEntry, hLink, hk, hOutcome⟩ := hLog.answered i _ hMem
  · exact absurd hClient hStatus
  · -- the entry is of the call, and the call is the one that was posted
    obtain ⟨spec', hMade, hRequest⟩ := hLog.called entry hEntry
    rw [hLink, hk] at hMade
    obtain rfl := Option.some.inj (hMade.symm.trans hCall)
    obtain ⟨w, hw⟩ := hLog.executed hEntry
    exact ⟨spec', w, hPosted, by rw [← hOutcome, hw, hRequest]⟩

/-- **Blocking calls are linearizable.** In every state `s'` that threads, loops, connections and
the server can reach from `s`, there is an order of calls that explains what the server did and what
the threads got. A call that a thread had got the answer to in `s` is in it, with its request and
its result, before every call that was posted after that; and the calls of one client are in it in
the order in which they were posted. -/
theorem blocking_calls_linearizable (server : RpcServer σ) (world : σ)
    (hReader : server.frameReader = FrameReader.default) (hLimit : server.maxInputBufferSize = 0)
    (s s' : Threads ι (Wired ι σ))
    (hReach : Reaches (Threads.step (Wired.host server))
      { host := Wired.start server.serializerId world } s)
    (hLater : Reaches (Threads.step (Wired.host server)) s s') (hBounded : Bounded server s'.host.above) :
    ∃ log : List (Entry ι), Linearization server world s'.host.above log ∧
      (∀ i, ∀ e ∈ (s.callers i).returned, e.2.status ∉ clientStatuses →
        ∃ (p : Nat) (entry : Entry ι) (spec : CallSpec),
          log[p]? = some entry ∧ entry.link = i ∧ (s'.callers i).ownerOf entry.call = some e.1 ∧
          (s.callers i).posted[e.1]? = some spec ∧ entry.request = spec.request ∧
          entry.response.outcome = e.2.outcome ∧
          ∀ (q u : Nat) (later : Entry ι), log[q]? = some later →
            (s'.callers later.link).ownerOf later.call = some u →
            (s.callers later.link).posted.length ≤ u → p < q) ∧
      ∀ i, ((onLink i log).filterMap fun e => (s'.callers i).ownerOf e.call).Pairwise (· < ·) := by
  have hKept := Threads.allKept_of_reaches (Threads.allKept_start fun _ => rfl) hReach
  have hKept' := Threads.allKept_of_reaches hKept hLater
  obtain ⟨log, more, hLog, hMore⟩ := wired_logs hReader hLimit
    (Threads.reaches_host hReach) (Threads.reaches_host hLater) hBounded
  refine ⟨log ++ more, hMore, fun i e he hStatus => ?_, fun i => ?_⟩
  · obtain ⟨k, hOwner, hMem⟩ := (hKept i).returned e he
    obtain ⟨spec, hPosted, hCall⟩ := (hKept i).own hOwner
    obtain ⟨p, entry, hp, hLink, hEntry, hOutcome, hBefore⟩ := hLog.precedes more hMem hStatus
    have hGrown := Threads.grows hLater
    have hNow : (s'.callers i).owners[k]? = some (some e.1) := getElem?_mono (hGrown i).2 hOwner
    refine ⟨p, entry, spec, hp, hLink, ?_, hPosted, ?_, hOutcome, fun q u later hq hu hNew => ?_⟩
    · rw [hEntry]
      exact Kept.ownerOf_eq_some.mpr hNow
    · -- the request is that of the call, and the call is the one that was posted
      obtain ⟨spec', hMade, hRequest⟩ := hMore.called entry (List.mem_of_getElem? hp)
      obtain ⟨spec'', hPosted', hCall'⟩ := (hKept' i).own hNow
      rw [hLink, hEntry] at hMade
      obtain rfl := Option.some.inj (hMade.symm.trans hCall')
      obtain rfl := Option.some.inj ((getElem?_mono (hGrown i).1 hPosted).symm.trans hPosted')
      exact hRequest.symm
    · exact hBefore q later hq ((hKept later.link).not_made (hGrown later.link).2 hu hNew)
  · rw [List.pairwise_filterMap]
    refine (List.pairwise_map.mp (hMore.inOrder i)).imp ?_
    intro e e' hLt t ht t' ht'
    exact (hKept' i).owners_lt hLt (Kept.ownerOf_eq_some.mp ht) (Kept.ownerOf_eq_some.mp ht')

/-- A thread calls, and gets the answer. -/
def oneThread (spec : CallSpec) : List (Threads.Action Unit (Wired.Action Unit)) :=
  [[.callAsync () spec],
    ([atClient [.connectEstablished, .ret], atServer [.connectEstablished, .ret]].flatten).map .loop,
    [.doPendingFunctors (), .functor () (.rpc () (.call spec) (.accepted 50))],
    ([atServer (upToRead (.data 50)), [.pass () (.accepted 50), .pass () (.accepted 0)],
      atServer afterRead, atClient (upToRead (.data 50)),
      [.rpc () (.resume 0) (.accepted 0), .rpc () .ret (.accepted 0),
        .rpc () (.resume 0) (.accepted 0)],
      atClient afterRead].flatten).map .loop,
    [.get () 0]].flatten

theorem blocking_calls_linearizable_oneThread :
    ∃ (s : Threads Unit (Wired Unit Nat)) (log : List (Entry Unit)) (p : Nat) (entry : Entry Unit),
      Linearization counterServer 5 s.host.above log ∧ log[p]? = some entry ∧
      entry.request = counterCall.request ∧ entry.response.outcome = (.kOk, [5]) := by
  have hRun : (runAll (Threads.step (Wired.host counterServer))
      { host := Wired.start kSerializerRaw 5 } (oneThread counterCall)).map (fun s =>
        (decide ((s.host.wires ()).rpc.calls = [counterCall]),
          decide ((s.callers ()).posted = [counterCall]),
          (s.callers ()).returned.map fun e => (e.1, decide (e.2.outcome = (.kOk, [5]))))) =
      some (true, true, [(0, true)]) := by
    decide +kernel
  obtain ⟨s, hs, hFields⟩ := Option.map_eq_some_iff.mp hRun
  simp only [Prod.mk.injEq, decide_eq_true_eq] at hFields
  obtain ⟨hCalls, hPosted, hReturned⟩ := hFields
  obtain ⟨log, hLog, hAnswered, -⟩ := blocking_calls_linearizable counterServer 5 rfl rfl
    s s (reaches_of_runAll hs) .refl (bounded_oneCall hCalls)
  obtain ⟨⟨t, response⟩, he, hEq⟩ := List.mem_map.mp (hReturned ▸ List.mem_singleton_self _)
  obtain ⟨rfl, hIs⟩ := Prod.mk.inj hEq
  have hOutcome : response.outcome = (.kOk, [5]) := of_decide_eq_true hIs
  have hStatus : response.status = .kOk := congrArg Prod.fst hOutcome
  obtain ⟨p, entry, spec, hp, -, -, hSpec, hRequest, hResult, -⟩ := hAnswered () _ he
    (by rw [hStatus]; decide)
  obtain rfl : counterCall = spec := by simpa [hPosted] using hSpec
  exact ⟨s, log, p, entry, hLog, hp, hRequest, hResult.trans hOutcome⟩

end ReactorNet.Rpc
