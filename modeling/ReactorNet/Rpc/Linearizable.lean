import ReactorNet.Rpc.Linked

/-!
# ReactorNet — calls of many clients are linearizable

What a server with many clients is for is said by `RpcServer.executeAll`: one call after the
other, each in the world that the last one left. The system does this although callbacks
interleave, chunks are cut anywhere, and connections are lost: there is one log of calls such
that the server has executed exactly these, in this order; every answer that a client got is the
answer of the sequential run at the place of its call; a client's calls stand in the order in
which it made them, each at most once; and the log of an earlier state is the front part of the
log of a later one, so a call that was answered stands before every call that was made after
that.

Main results:

* `Logged.step` — every step extends the log, by the call that it executes, if it does.
* `linearizable` — the log explains what everyone has seen.
* `no_call_lost` — when a connection is up and both streams are drained, every call has completed.
-/

namespace ReactorNet.Rpc

open Lib

universe u

variable {σ : Type u}

/-! ## The sequential server -/

namespace RpcServer

/-- One call after the other: the results, and the world after them. -/
def executeAll (server : RpcServer σ) (world : σ) :
    List Request → List (StatusCode × Bytes) × σ
  | [] => ([], world)
  | request :: requests =>
    let r := server.execute request world
    let rs := server.executeAll r.2 requests
    (r.1 :: rs.1, rs.2)

theorem executeAll_concat (server : RpcServer σ) (world : σ) (requests : List Request)
    (request : Request) :
    server.executeAll world (requests ++ [request]) =
      let r := server.execute request (server.executeAll world requests).2
      ((server.executeAll world requests).1 ++ [r.1], r.2) := by
  induction requests generalizing world with
  | nil => rfl
  | cons first requests ih => simp only [List.cons_append, executeAll, ih]

/-- Each request is executed in some world. -/
theorem executeAll_results (server : RpcServer σ) (world : σ) (requests : List Request) :
    List.Forall₂ (fun request result => ∃ w, result = (server.execute request w).1) requests
      (server.executeAll world requests).1 := by
  induction requests generalizing world with
  | nil => exact .nil
  | cons first requests ih => exact .cons ⟨world, rfl⟩ (ih _)

end RpcServer

/-! ## The invariant of the system -/

/-- A call that the server has executed: whose it was, and what came of it. -/
structure Entry (ι : Type) where
  link : ι
  call : Nat
  request : Request
  response : Response

section System

variable {ι : Type} [DecidableEq ι] {server : RpcServer σ} {world : σ}

/-- The calls of one client. -/
def onLink (i : ι) (log : List (Entry ι)) : List (Entry ι) := log.filter fun e => e.link = i

/-- The log accounts for everything the server did. -/
structure Logged (server : RpcServer σ) (world : σ) (s : Cluster ι σ) (log : List (Entry ι)) :
    Prop where
  link : ∀ i, ∃ issued fs read,
    Linked server (s.links i) issued fs ((onLink i log).map (·.response)) read ∧
      (onLink i log).map (·.call) <+: issued.map Prod.fst
  called : ∀ e ∈ log, ∃ spec, (s.links e.link).client.calls[e.call]? = some spec ∧
    spec.request = e.request
  sequential : server.executeAll world (log.map (·.request)) =
    (log.map (·.response.outcome), s.world)
  dispatched : s.history = log.map fun e => (e.link, e.request)

theorem logged_start : Logged server world (Cluster.start server.serializerId world)
    ([] : List (Entry ι)) where
  link := fun _ => ⟨[], [], 0, Linked.new server, List.nil_prefix⟩
  called := fun _ he => absurd he List.not_mem_nil
  sequential := rfl
  dispatched := rfl

/-- The calls of a client: requests and answers fit a frame, and the ids do not run out. -/
structure Fits (server : RpcServer σ) (c : Client) : Prop where
  requests : RequestsFit c
  answers : AnswersFit server c
  ids : c.calls.length < 2 ^ 32

/-- The calls of all clients fit. -/
def Bounded (server : RpcServer σ) (s : Cluster ι σ) : Prop :=
  ∀ i, Fits server (s.links i).client

/-- What is within the bounds now was within them before. -/
theorem Bounded.of_step {s s' : Cluster ι σ} {a : Cluster.Action ι} (h : Bounded server s')
    (hStep : s.step server a = some s') : Bounded server s := by
  intro i
  have hCalls := Cluster.calls_grow hStep i
  exact ⟨fun spec hSpec => (h i).requests spec (hCalls.subset hSpec),
    fun spec hSpec => (h i).answers spec (hCalls.subset hSpec),
    Nat.lt_of_le_of_lt hCalls.length_le (h i).ids⟩

namespace Logged

variable {s s' : Cluster ι σ} {log : List (Entry ι)}

/-- A step that concerns one link, and no handler. -/
theorem set (h : Logged server world s log) {i : ι} {l : Link} {issued : Issued} {fs : List Frame}
    {read : Nat}
    (hLinked : Linked server l issued fs ((onLink i log).map (·.response)) read)
    (hCalls : (onLink i log).map (·.call) <+: issued.map Prod.fst)
    (hMade : (s.links i).client.calls <+: l.client.calls) :
    Logged server world (s.set i l) log where
  link := by
    intro j
    by_cases hj : j = i
    · subst hj
      rw [Cluster.set_links_self]
      exact ⟨issued, fs, read, hLinked, hCalls⟩
    · rw [Cluster.set_links_of_ne s hj]
      exact h.link j
  called := by
    intro e he
    obtain ⟨spec, hSpec, hRequest⟩ := h.called e he
    by_cases hj : e.link = i
    · refine ⟨spec, ?_, hRequest⟩
      rw [hj] at hSpec ⊢
      rw [Cluster.set_links_self]
      exact getElem?_mono hMade hSpec
    · rw [Cluster.set_links_of_ne s hj]
      exact ⟨spec, hSpec, hRequest⟩
  sequential := h.sequential
  dispatched := h.dispatched

/-- A pass that has answered a call of a client. -/
theorem commit (h : Logged server world s log) {i : ι} {issued : Issued} {fs : List Frame}
    {read call : Nat} {body : Bytes} {spec : CallSpec} {conn : Conn σ} {ran : List Event}
    {message : Bytes} (hCalls : (onLink i log).map (·.call) <+: issued.map Prod.fst)
    (hIssued : issued[(onLink i log).length]? = some (call, body))
    (hSpec : (s.links i).client.calls[call]? = some spec)
    (hWorld : conn.world = (server.execute spec.request s.world).2)
    (hTrace : conn.trace = .dispatch spec.request :: (ran ++ [.send message]))
    (hRan : ∀ request, .dispatch request ∉ ran)
    (hLinked : Linked server ((s.links i).commit conn true) issued fs
      ((onLink i log).map (·.response) ++ [responseTo server spec.request s.world]) read) :
    Logged server world (s.commit i conn true)
      (log ++ [⟨i, call, spec.request, responseTo server spec.request s.world⟩]) where
  link := by
    intro j
    rw [onLink, List.filter_append]
    by_cases hj : j = i
    · subst hj
      rw [Cluster.commit_links_self, List.filter_cons_of_pos (by simp), List.filter_nil,
        List.map_append, List.map_append]
      refine ⟨issued, fs, read, hLinked, ?_⟩
      -- the call is the next of the ledger
      unfold onLink at hCalls hIssued
      obtain ⟨hLt, hGet⟩ := List.getElem?_eq_some_iff.mp hIssued
      have hNext := List.concat_get_prefix hCalls (by simpa using hLt)
      simpa [hGet] using hNext
    · rw [Cluster.commit_links_of_ne s hj, List.filter_cons_of_neg (by simpa using Ne.symm hj),
        List.filter_nil, List.append_nil]
      exact h.link j
  called := by
    intro e he
    have hClient : ((s.commit i conn true).links e.link).client = (s.links e.link).client := by
      by_cases hj : e.link = i
      · rw [hj, Cluster.commit_links_self]
        rfl
      · rw [Cluster.commit_links_of_ne s hj]
    rw [hClient]
    rcases List.mem_append.mp he with he | he
    · exact h.called e he
    · rw [List.mem_singleton.mp he]
      exact ⟨spec, hSpec, rfl⟩
  sequential := by
    rw [List.map_append, List.map_singleton, RpcServer.executeAll_concat, h.sequential,
      List.map_append, List.map_singleton]
    exact Prod.ext rfl hWorld.symm
  dispatched := by
    rw [s.history_commit i true hTrace hRan, h.dispatched, List.map_append, List.map_singleton]

/-- **Every step extends the log**, by the call that it executes, if it does. -/
theorem step (h : Logged server world s log)
    (hReader : server.frameReader = FrameReader.default) (hLimit : server.maxInputBufferSize = 0)
    {a : Cluster.Action ι} (hStep : s.step server a = some s') (hBounded : Bounded server s') :
    ∃ more, Logged server world s' (log ++ more) := by
  have hMade := Cluster.calls_grow hStep
  have hStep' := hStep
  -- all steps but one execute nothing
  have hSame : Logged server world s' log → ∃ more, Logged server world s' (log ++ more) :=
    fun hLogged => ⟨[], by rwa [List.append_nil]⟩
  cases a with
  | connect i =>
    obtain ⟨issued, fs, read, hLinked, hCalls⟩ := h.link i
    simp only [Cluster.step] at hStep
    split_ifs at hStep with hFresh
    obtain ⟨c, hc, rfl⟩ := Option.map_eq_some_iff.mp hStep
    have hFresh : (s.links i).everConnected = false := by simpa using hFresh
    -- nothing was served on the link before
    obtain ⟨rfl, -⟩ := hLinked.fresh hFresh
    have hNil : onLink i log = [] := List.map_eq_nil_iff.mp (List.prefix_nil.mp hCalls)
    have hLinked' := hLinked.connect hFresh hc
    exact hSame (h.set (by rw [hNil]; exact hLinked') (by rw [hNil]; exact List.nil_prefix)
      (by simpa using hMade i))
  | client i a =>
    obtain ⟨issued, fs, read, hLinked, hCalls⟩ := h.link i
    simp only [Cluster.step] at hStep
    split_ifs at hStep with hLocal
    obtain ⟨c, hc, rfl⟩ := Option.map_eq_some_iff.mp hStep
    obtain ⟨more, new, read', hLinked'⟩ := hLinked.client_local hc hLocal
      (by simpa using (hBounded i).ids)
    refine hSame (h.set hLinked' ?_ (by simpa using hMade i))
    rw [List.map_append]
    exact hCalls.trans (List.prefix_append ..)
  | toServer i n =>
    obtain ⟨issued, fs, read, hLinked, hCalls⟩ := h.link i
    simp only [Cluster.step] at hStep
    split_ifs at hStep with hGuard
    cases hStep
    exact hSame (h.set (hLinked.arrive (hLinked.settled.resolve_right hGuard.2) n) hCalls
      List.prefix_rfl)
  | pass i =>
    obtain ⟨issued, fs, read, hLinked, hCalls⟩ := h.link i
    simp only [Cluster.step] at hStep
    split_ifs at hStep with hServing
    obtain ⟨hFit, hAnswers, -⟩ := hBounded.of_step hStep' i
    cases hCut : FrameReader.default.cutter.cut (s.links i).input.contents with
    | broken =>
      exact absurd hCut
        (hLinked.inbound.not_broken (hLinked.reads hFit) (FrameReader.cut_nil _))
    | more =>
      obtain ⟨hPass, hLinked'⟩ := hLinked.pass_idle hReader hLimit s.world hCut
      rw [Cluster.conn, hPass] at hStep
      cases hStep
      refine hSame ?_
      rw [s.commit_eq_set i false rfl rfl]
      exact h.set hLinked' hCalls List.prefix_rfl
    | frame f n =>
      obtain ⟨call, body, spec, conn', hIssued, hSpec, hPass, hWorld, ⟨ran, message, hTrace, hRan⟩,
        hLinked'⟩ := hLinked.pass_frame hReader hAnswers hFit hServing s.world hCut
      rw [Cluster.conn, hPass] at hStep
      cases hStep
      rw [List.length_map] at hIssued
      exact ⟨_, h.commit hCalls hIssued hSpec hWorld hTrace hRan hLinked'⟩
  | toClient i n =>
    obtain ⟨issued, fs, read, hLinked, hCalls⟩ := h.link i
    obtain ⟨c, hc, rfl⟩ := Option.map_eq_some_iff.mp hStep
    obtain ⟨more, new, hLinked'⟩ := hLinked.deliver hc (by simpa using (hBounded i).ids)
    refine hSame (h.set hLinked' ?_ (by simpa using hMade i))
    rw [List.map_append]
    exact hCalls.trans (List.prefix_append ..)
  | serverDown i =>
    obtain ⟨issued, fs, read, hLinked, hCalls⟩ := h.link i
    simp only [Cluster.step] at hStep
    split_ifs at hStep with hServing
    cases hStep
    exact hSame (h.set (hLinked.serverDown (by simpa using hServing)) hCalls List.prefix_rfl)

end Logged

variable {s : Cluster ι σ} {log : List (Entry ι)}

/-- **The log of a state is the front part of the log of every later state.** -/
theorem Logged.of_reaches {s' : Cluster ι σ} (h : Logged server world s log)
    (hReader : server.frameReader = FrameReader.default) (hLimit : server.maxInputBufferSize = 0)
    (hReach : Reaches (Cluster.step server) s s') (hBounded : Bounded server s') :
    ∃ more, Logged server world s' (log ++ more) := by
  refine hReach.invariant (P := fun t => Bounded server t →
    ∃ more, Logged server world t (log ++ more)) ?_ ?_ hBounded
  · intro _
    exact ⟨[], by rwa [List.append_nil]⟩
  · intro t t' a hStep ih hBounded
    obtain ⟨more, hMore⟩ := ih (hBounded.of_step hStep)
    obtain ⟨more', hMore'⟩ := hMore.step hReader hLimit hStep hBounded
    exact ⟨more ++ more', by rwa [← List.append_assoc]⟩

/-! ## Linearizability -/

/-- An order of calls that explains what everyone has seen. -/
structure Linearization (server : RpcServer σ) (world : σ) (s : Cluster ι σ)
    (log : List (Entry ι)) : Prop where
  /-- One after the other, the calls have these results and lead to this world. -/
  sequential : server.executeAll world (log.map (·.request)) =
    (log.map (·.response.outcome), s.world)
  /-- These are the requests that the registry has dispatched. -/
  dispatched : s.history = log.map fun e => (e.link, e.request)
  /-- They are requests of calls that were made. -/
  called : ∀ e ∈ log, ∃ spec, (s.links e.link).client.calls[e.call]? = some spec ∧
    spec.request = e.request
  /-- A client's calls are executed in the order in which it made them, each once at most. -/
  inOrder : ∀ i, ((onLink i log).map (·.call)).Pairwise (· < ·)
  /-- A call that completed with a status of the server has the result of its execution. -/
  answered : ∀ i, ∀ e ∈ (s.links i).client.completed, e.2.status ∈ clientStatuses ∨
    ∃ entry ∈ log, entry.link = i ∧ entry.call = e.1 ∧ entry.response.outcome = e.2.outcome
  /-- A call that was refused for its request is not executed. -/
  refused : ∀ i, ∀ e ∈ (s.links i).client.completed, e.2.status = .kBadRequest →
    ∀ entry ∈ log, entry.link = i → entry.call ≠ e.1

theorem Linearization.executed (h : Linearization server world s log) {e : Entry ι} (he : e ∈ log) :
    ∃ w, e.response.outcome = (server.execute e.request w).1 := by
  have hResults := server.executeAll_results world (log.map (·.request))
  rw [h.sequential, List.forall₂_map_left_iff, List.forall₂_map_right_iff,
    List.forall₂_same] at hResults
  exact hResults e he

theorem mem_onLink {i : ι} {e : Entry ι} : e ∈ onLink i log ↔ e ∈ log ∧ e.link = i := by
  simp [onLink]

theorem Logged.linearization (h : Logged server world s log) :
    Linearization server world s log where
  sequential := h.sequential
  dispatched := h.dispatched
  called := h.called
  inOrder := by
    intro i
    obtain ⟨issued, fs, read, hLinked, hCalls⟩ := h.link i
    exact hLinked.sender.ascending.sublist hCalls.sublist
  answered := by
    intro i e he
    obtain ⟨issued, fs, read, hLinked, hCalls⟩ := h.link i
    refine (hLinked.completed e he).imp id ?_
    rintro ⟨k, body, r, hk, hr, hOutcome⟩
    -- the k-th entry of the client's is the k-th of its ledger
    rw [List.getElem?_map] at hr
    obtain ⟨entry, hEntry, rfl⟩ := Option.map_eq_some_iff.mp hr
    obtain ⟨hMem, hLink⟩ := mem_onLink.mp (List.mem_of_getElem? hEntry)
    refine ⟨entry, hMem, hLink, ?_, hOutcome⟩
    have hCall : ((onLink i log).map (·.call))[k]? = some entry.call := by
      rw [List.getElem?_map, hEntry]
      rfl
    have hOwner := getElem?_mono hCalls hCall
    rw [List.getElem?_map, hk] at hOwner
    exact (Option.some.inj hOwner).symm
  refused := by
    intro i e he hBad entry hEntry hLink hCall
    obtain ⟨issued, fs, read, hLinked, hCalls⟩ := h.link i
    refine (hLinked.refusals e he).2 hBad (hCalls.subset ?_)
    rw [← hCall]
    exact List.mem_map_of_mem (mem_onLink.mpr ⟨hEntry, hLink⟩)

/-- A call that the server has answered stands before every call that is made later. -/
theorem Linearization.precedes (h : Linearization server world s log) (more : List (Entry ι))
    {i : ι} {e : Nat × Response} (he : e ∈ (s.links i).client.completed)
    (hStatus : e.2.status ∉ clientStatuses) :
    ∃ (p : Nat) (entry : Entry ι),
      (log ++ more)[p]? = some entry ∧ entry.link = i ∧ entry.call = e.1 ∧
      entry.response.outcome = e.2.outcome ∧
      ∀ (q : Nat) (later : Entry ι), (log ++ more)[q]? = some later →
        (s.links later.link).client.calls.length ≤ later.call → p < q := by
  obtain ⟨entry, hEntry, hLink, hCall, hOutcome⟩ := (h.answered i e he).resolve_left hStatus
  obtain ⟨p, hp⟩ := List.mem_iff_getElem?.mp hEntry
  refine ⟨p, entry, getElem?_mono (List.prefix_append ..) hp, hLink, hCall, hOutcome,
    fun q later hq hNew => ?_⟩
  have hLt := (List.getElem?_eq_some_iff.mp hp).1
  by_contra hNot
  -- a call in the log of `s` had been made
  rw [List.getElem?_append_left (by omega)] at hq
  obtain ⟨spec, hSpec, -⟩ := h.called later (List.mem_of_getElem? hq)
  have hMade := (List.getElem?_eq_some_iff.mp hSpec).1
  omega

/-- What is within the bounds in the end was so all along. -/
theorem Bounded.of_reaches {s' : Cluster ι σ} (h : Bounded server s')
    (hReach : Reaches (Cluster.step server) s s') : Bounded server s := by
  refine hReach.invariant (P := fun t => Bounded server t → Bounded server s) id ?_ h
  exact fun t t' a hStep ih h => ih (h.of_step hStep)

/-- **Calls are linearizable.** A server with default limits and handlers that share a world, any
number of clients, message callbacks that interleave, streams that are cut anywhere, deadlines,
lost connections: in every state `s` that can be reached, and every state `s'` that can be reached
from it, there is an order of calls that explains what the server did and what the clients saw,
and the order of `s` is the front part of that of `s'`. So a call that had been answered by the
server stands before every call that was made afterwards, of whatever client. -/
theorem linearizable (server : RpcServer σ) (world : σ)
    (hReader : server.frameReader = FrameReader.default) (hLimit : server.maxInputBufferSize = 0)
    (s s' : Cluster ι σ)
    (hReach : Reaches (Cluster.step server) (Cluster.start server.serializerId world) s)
    (hLater : Reaches (Cluster.step server) s s') (hBounded : Bounded server s') :
    ∃ (log more : List (Entry ι)), Linearization server world s log ∧
      Linearization server world s' (log ++ more) ∧
      ∀ i, ∀ e ∈ (s.links i).client.completed, e.2.status ∉ clientStatuses →
        ∃ (p : Nat) (entry : Entry ι),
          (log ++ more)[p]? = some entry ∧ entry.link = i ∧ entry.call = e.1 ∧
          entry.response.outcome = e.2.outcome ∧
          ∀ (q : Nat) (later : Entry ι), (log ++ more)[q]? = some later →
            (s.links later.link).client.calls.length ≤ later.call → p < q := by
  obtain ⟨log, hLog⟩ := logged_start.of_reaches hReader hLimit hReach
    (hBounded.of_reaches hLater)
  rw [List.nil_append] at hLog
  obtain ⟨more, hMore⟩ := hLog.of_reaches hReader hLimit hLater hBounded
  have hOrder := hLog.linearization
  exact ⟨log, more, hOrder, hMore.linearization, fun i e he hStatus => hOrder.precedes more he hStatus⟩

end System

/-- A method `a.b` that counts its calls, and returns the count. -/
def counterServer : RpcServer Nat where
  registry :=
    { methods := [([0x61, 0x2E, 0x62], fun _ count => (.ok [UInt8.ofNat count], count + 1))]
      services := [[0x61]]
      frozen := true }

def counterCall : CallSpec := ⟨⟨[0x61], [0x62], []⟩, 0⟩

/-- Two clients call at the same time. The request that arrives last is served first, and answered. -/
def twoClients : List (Cluster.Action Bool) :=
  [.connect true, .connect false, .client true (.call counterCall),
    .client false (.call counterCall), .toServer true 50, .toServer false 9, .pass false,
    .toServer false 50, .pass false, .pass true, .pass true, .pass false, .toClient false 50,
    .client false (.resume 0), .client false .ret, .client false (.resume 0)]

/-- The other client reads its answer and calls once more. -/
def afterwards : List (Cluster.Action Bool) :=
  [.toClient true 50, .client true (.resume 0), .client true .ret, .client true (.resume 0),
    .client true (.call counterCall), .toServer true 50, .pass true, .pass true]

theorem resultsFit_counter : ResultsFit counterServer.registry := by
  intro key fn payload world output hFind hRun
  by_cases hKey : key = [0x61, 0x2E, 0x62]
  · subst hKey
    cases hFind
    cases hRun
    exact (by decide : 1 ≤ kMaxSessionBody)
  · have hNone : counterServer.registry.find key = none := by
      simp [ServiceRegistry.find, counterServer, List.lookup_cons, beq_eq_false_iff_ne.mpr hKey]
    rw [hNone] at hFind
    cases hFind

/-- Clients that make only this call are within the bounds. -/
theorem bounded_counter {s : Cluster Bool Nat}
    (h : ∀ i, ∃ n < 10, (s.links i).client.calls = List.replicate n counterCall) :
    Bounded counterServer s := by
  intro i
  obtain ⟨n, hn, hCalls⟩ := h i
  refine ⟨fun spec hSpec body hBody => ?_,
    fun spec _ world => length_execute_le resultsFit_counter spec.request world, ?_⟩
  · rw [hCalls] at hSpec
    rw [RawCodec.length_of_encodeRequest hBody, List.eq_of_mem_replicate hSpec]
    decide
  · rw [hCalls, List.length_replicate]
    omega

theorem linearizable_counter :
    ∃ s s', runAll (Cluster.step counterServer) (Cluster.start kSerializerRaw 5) twoClients = some s ∧
      runAll (Cluster.step counterServer) s afterwards = some s' ∧
      ∃ log more, Linearization counterServer 5 s log ∧
        Linearization counterServer 5 s' (log ++ more) := by
  have hRun : ((runAll (Cluster.step counterServer) (Cluster.start kSerializerRaw 5) twoClients).bind
      fun s => runAll (Cluster.step counterServer) s afterwards).map (fun s =>
        ((s.links false).client.calls, (s.links true).client.calls)) =
      some (List.replicate 1 counterCall, List.replicate 2 counterCall) := by
    decide +kernel
  obtain ⟨s', hs', hCalls⟩ := Option.map_eq_some_iff.mp hRun
  obtain ⟨s, hs, hs'⟩ := Option.bind_eq_some_iff.mp hs'
  obtain ⟨hFalse, hTrue⟩ := Prod.mk.inj hCalls
  have hBounded : Bounded counterServer s' := by
    refine bounded_counter fun i => ?_
    cases i with
    | false => exact ⟨1, by decide, hFalse⟩
    | true => exact ⟨2, by decide, hTrue⟩
  obtain ⟨log, more, hLog, hMore, -⟩ := linearizable counterServer 5 rfl rfl s s'
    (reaches_of_runAll hs) (reaches_of_runAll hs') hBounded
  exact ⟨s, s', hs, hs', log, more, hLog, hMore⟩

/-! ## Nothing is lost -/

section Drained

variable {ι : Type} [DecidableEq ι] {server : RpcServer σ} {world : σ}


/-- Both ends are up and between two turns, and everything that was sent has arrived. -/
structure Link.Drained (l : Link) : Prop where
  client : l.client.transport.state = .kConnected
  idle : l.client.control = .idle
  server : l.transport.state = .kConnected
  waiting : l.serving = false
  toServer : l.toServer = l.client.transport.sent.flatten.length
  toClient : l.toClient = l.transport.sent.flatten.length

instance (l : Link) : Decidable l.Drained :=
  decidable_of_iff (l.client.transport.state = .kConnected ∧ l.client.control = .idle ∧
      l.transport.state = .kConnected ∧ l.serving = false ∧
      l.toServer = l.client.transport.sent.flatten.length ∧
      l.toClient = l.transport.sent.flatten.length)
    ⟨fun ⟨h₁, h₂, h₃, h₄, h₅, h₆⟩ => ⟨h₁, h₂, h₃, h₄, h₅, h₆⟩,
      fun h => ⟨h.client, h.idle, h.server, h.waiting, h.toServer, h.toClient⟩⟩

/-- A drained link has answered every request, and read every answer. -/
theorem Linked.drained {l : Link} {issued : Issued} {fs : List Frame} {served : List Response}
    {read : Nat} (h : Linked server l issued fs served read) (hFit : RequestsFit l.client)
    (hDrained : l.Drained) : served.length = issued.length ∧ read = issued.length := by
  have hServed := h.inbound.drained (h.reads hFit) (h.waiting hDrained.waiting hDrained.server)
    hDrained.toServer
  rw [h.sender.whole hDrained.client, length_requestFrames] at hServed
  have hMore := h.receiver.awaiting hDrained.client (.inl hDrained.idle)
  rw [h.reader] at hMore
  have hRead := h.outbound.drained (reads_replyFrames h.readable) hMore hDrained.toClient
  rw [replyFrames, List.length_mapIdx, hServed] at hRead
  exact ⟨hServed, hRead⟩

/-- On a drained link, every call has completed, and all that were sent were executed. -/
theorem Logged.drained {s : Cluster ι σ} {log : List (Entry ι)} (h : Logged server world s log)
    (hBounded : Bounded server s) {i : ι} (hDrained : (s.links i).Drained) :
    (s.links i).client.pendings = [] ∧
      (∀ call < (s.links i).client.calls.length,
        (s.links i).client.completedCalls.count call = 1) ∧
      ∀ e ∈ (s.links i).client.completed, e.2.status ≠ .kConnectionClosed →
        e.2.status ≠ .kBadRequest → ((onLink i log).map (·.call)).count e.1 = 1 := by
  obtain ⟨issued, fs, read, hLinked, hCalls⟩ := h.link i
  obtain ⟨hServed, hRead⟩ := hLinked.drained (hBounded i).requests hDrained
  -- the log has every call of the ledger
  have hAll : (onLink i log).map (·.call) = issued.map Prod.fst := by
    refine hCalls.eq_of_length ?_
    rw [List.length_map, List.length_map, ← hServed, List.length_map]
  have hPendings : (s.links i).client.pendings = [] := by
    refine List.eq_nil_iff_forall_not_mem.mpr fun e he => ?_
    obtain ⟨k, hk, hLt, -⟩ := hLinked.outstanding e he
    omega
  refine ⟨hPendings, fun call hCall => ?_, fun e he hClosed hBad => ?_⟩
  · have hCount := hLinked.accounted call
    simpa [Client.pendingCalls, Client.callsIn, hPendings, Client.heldCalls, hDrained.idle,
      hCall] using hCount
  · refine List.count_eq_one_of_mem ((h.linearization.inOrder i).imp Nat.ne_of_lt) ?_
    rw [hAll]
    rcases hLinked.completed e he with hOwn | ⟨k, body, r, hk, -, -⟩
    · refine (hLinked.timedOut e he ?_).1
      simpa [clientStatuses, hClosed, hBad] using hOwn
    · exact List.mem_map_of_mem (List.mem_of_getElem? hk)

/-- **No call is lost.** When a connection is up and its streams are drained, no call of its client
is pending, every call has completed exactly once, and every one that the client did not refuse or
give up with the connection was executed exactly once: also those that timed out. -/
theorem no_call_lost (server : RpcServer σ) (world : σ)
    (hReader : server.frameReader = FrameReader.default) (hLimit : server.maxInputBufferSize = 0)
    (s : Cluster ι σ)
    (hReach : Reaches (Cluster.step server) (Cluster.start server.serializerId world) s)
    (hBounded : Bounded server s) (i : ι) (hDrained : (s.links i).Drained) :
    ∃ log, Linearization server world s log ∧ (s.links i).client.pendings = [] ∧
      (∀ call < (s.links i).client.calls.length,
        (s.links i).client.completedCalls.count call = 1) ∧
      ∀ e ∈ (s.links i).client.completed, e.2.status ≠ .kConnectionClosed →
        e.2.status ≠ .kBadRequest → ((onLink i log).map (·.call)).count e.1 = 1 := by
  obtain ⟨log, hLog⟩ := logged_start.of_reaches hReader hLimit hReach hBounded
  rw [List.nil_append] at hLog
  exact ⟨log, hLog.linearization, hLog.drained hBounded hDrained⟩

end Drained

/-- The client that was answered first has nothing left to wait for. -/
theorem no_call_lost_counter :
    ∃ s, runAll (Cluster.step counterServer) (Cluster.start kSerializerRaw 5) twoClients = some s ∧
      (s.links false).client.pendings = [] ∧ (s.links false).client.completedCalls.count 0 = 1 := by
  have hRun : (runAll (Cluster.step counterServer) (Cluster.start kSerializerRaw 5) twoClients).map
      (fun s => ((s.links false).client.calls, (s.links true).client.calls,
        decide (s.links false).Drained)) =
      some (List.replicate 1 counterCall, List.replicate 1 counterCall, true) := by
    decide +kernel
  obtain ⟨s, hs, hFields⟩ := Option.map_eq_some_iff.mp hRun
  simp only [Prod.mk.injEq, decide_eq_true_eq] at hFields
  obtain ⟨hFalse, hTrue, hDrained⟩ := hFields
  have hBounded : Bounded counterServer s := by
    refine bounded_counter fun i => ⟨1, by decide, ?_⟩
    cases i with
    | false => exact hFalse
    | true => exact hTrue
  obtain ⟨log, -, hPendings, hCompleted, -⟩ := no_call_lost counterServer 5 rfl rfl
    s (reaches_of_runAll hs) hBounded false hDrained
  exact ⟨s, hs, hPendings, hCompleted 0 (by rw [hFalse]; decide)⟩

end ReactorNet.Rpc
