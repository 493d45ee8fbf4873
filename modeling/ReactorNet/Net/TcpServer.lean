import ReactorNet.Lib.StdString
import ReactorNet.Lib.System

/-!
# ReactorNet — the server's table of connections

`TcpServer` of `src/TcpServer.cpp`, with its map from names to connections. The name of a
connection is made of the server's name, the peer's address and `nextConnId_`, which is
counted up only where a connection is given to one of the sub-loops. A server without
sub-loops therefore names a connection by its peer alone.

Connections are numbered in the order in which they were accepted. A connection may call its
close callback a second time, if a `forceClose` on another thread overtakes the first close
(`Net.ForceClose`). The removal then goes by the name alone, which may be that of another
connection by now: `Regular` leaves such a close out, next to a peer that comes twice.

Main result: `connection_table_exact`.
-/

namespace ReactorNet

open Lib

/-! ## Names -/

/-- An IPv4 address, in the order of its dotted notation, and a port. -/
structure InetAddress where
  a : UInt8
  b : UInt8
  c : UInt8
  d : UInt8
  port : UInt16
  deriving DecidableEq, Repr

/-- `"%s:%u"` of the dotted address and the port. -/
def InetAddress.toIpPort (x : InetAddress) : Bytes :=
  snprintf 128 (decimal x.a.toNat ++ 0x2E :: (decimal x.b.toNat ++ 0x2E ::
    (decimal x.c.toNat ++ 0x2E :: (decimal x.d.toNat ++ 0x3A :: decimal x.port.toNat))))

/-- The server's name and `"-%s#%d"` of the peer and the counter. -/
def connName (name : Bytes) (peer : InetAddress) (id : Nat) : Bytes :=
  name ++ snprintf 64 (0x2D :: (peer.toIpPort ++ 0x23 :: decimal id))

namespace InetAddress

theorem length_decimal_octet (x : UInt8) : (decimal x.toNat).length ≤ 3 :=
  length_decimal_le (by decide) (by have := x.toNat_lt; omega)

theorem length_decimal_port (x : UInt16) : (decimal x.toNat).length ≤ 5 :=
  length_decimal_le (by decide) (by have := x.toNat_lt; omega)

/-- The numbers of an address in decimal, all of them together. -/
theorem length_decimals_le (x : InetAddress) :
    (decimal x.a.toNat).length + (decimal x.b.toNat).length + (decimal x.c.toNat).length +
      (decimal x.d.toNat).length + (decimal x.port.toNat).length ≤ 17 := by
  have ha := length_decimal_octet x.a
  have hb := length_decimal_octet x.b
  have hc := length_decimal_octet x.c
  have hd := length_decimal_octet x.d
  have hp := length_decimal_port x.port
  omega

theorem toIpPort_eq (x : InetAddress) :
    x.toIpPort = decimal x.a.toNat ++ 0x2E :: (decimal x.b.toNat ++ 0x2E ::
      (decimal x.c.toNat ++ 0x2E :: (decimal x.d.toNat ++ 0x3A :: decimal x.port.toNat))) := by
  have hDecimals := x.length_decimals_le
  have hNot : ∀ n, 0 ∉ decimal n := fun n => notMem_decimal rfl
  exact snprintf_of_lt (by simp [hNot]) (by simp only [List.length_append, List.length_cons]; omega)

theorem length_toIpPort (x : InetAddress) : x.toIpPort.length ≤ 21 := by
  have hDecimals := x.length_decimals_le
  rw [toIpPort_eq]
  simp only [List.length_append, List.length_cons]
  omega

theorem hash_notMem_toIpPort (x : InetAddress) : 0x23 ∉ x.toIpPort := by
  have hNot : ∀ n, 0x23 ∉ decimal n := fun n => notMem_decimal rfl
  rw [toIpPort_eq]
  simp [hNot]

theorem zero_notMem_toIpPort (x : InetAddress) : 0 ∉ x.toIpPort := by
  have hNot : ∀ n, 0 ∉ decimal n := fun n => notMem_decimal rfl
  rw [toIpPort_eq]
  simp [hNot]

theorem toIpPort_injective : Function.Injective toIpPort := by
  intro x y h
  have hDot : ∀ n, 0x2E ∉ decimal n := fun n => notMem_decimal rfl
  have hColon : ∀ n, 0x3A ∉ decimal n := fun n => notMem_decimal rfl
  have hOctet : ∀ {p q : UInt8}, decimal p.toNat = decimal q.toNat → p = q := fun h =>
    UInt8.toNat_inj.mp (decimal_injective h)
  rw [toIpPort_eq, toIpPort_eq] at h
  -- the fields are read off one after the other
  obtain ⟨ha, h⟩ := append_cons_inj_left (hDot _) (hDot _) h
  obtain ⟨hb, h⟩ := append_cons_inj_left (hDot _) (hDot _) h
  obtain ⟨hc, h⟩ := append_cons_inj_left (hDot _) (hDot _) h
  obtain ⟨hd, h⟩ := append_cons_inj_left (hColon _) (hColon _) h
  have hPort : x.port = y.port := UInt16.toNat_inj.mp (decimal_injective h)
  cases x
  cases y
  simp only [mk.injEq]
  exact ⟨hOctet ha, hOctet hb, hOctet hc, hOctet hd, hPort⟩

end InetAddress

/-- **The name determines the peer and the counter.** -/
theorem connName_inj {name : Bytes} {p q : InetAddress} {i j : Nat} (hi : i < 2 ^ 31)
    (hj : j < 2 ^ 31) (h : connName name p i = connName name q j) : p = q ∧ i = j := by
  have hShort : ∀ (p : InetAddress) {i : Nat}, i < 2 ^ 31 →
      snprintf 64 (0x2D :: (p.toIpPort ++ 0x23 :: decimal i)) =
        0x2D :: (p.toIpPort ++ 0x23 :: decimal i) := by
    intro p i hi
    have hp := p.length_toIpPort
    have hd : (decimal i).length ≤ 10 := length_decimal_le (by decide) (by omega)
    have hNot : 0 ∉ decimal i := notMem_decimal rfl
    exact snprintf_of_lt (by simp [hNot, p.zero_notMem_toIpPort])
      (by simp only [List.length_append, List.length_cons]; omega)
  rw [connName, connName, hShort p hi, hShort q hj] at h
  obtain ⟨-, hText⟩ := List.cons.inj (List.append_cancel_left h)
  obtain ⟨hPeer, hId⟩ := append_cons_inj_left p.hash_notMem_toIpPort q.hash_notMem_toIpPort hText
  exact ⟨InetAddress.toIpPort_injective hPeer, decimal_injective hId⟩

/-! ## The map -/

namespace ConnectionMap

/-- `connections_[key] = conn`: an entry that is there is overwritten. -/
def assign (m : List (Bytes × Nat)) (key : Bytes) (conn : Nat) : List (Bytes × Nat) :=
  if m.any fun e => e.1 = key then m.map fun e => if e.1 = key then (key, conn) else e
  else m ++ [(key, conn)]

def erase (m : List (Bytes × Nat)) (key : Bytes) : List (Bytes × Nat) :=
  m.filter fun e => e.1 ≠ key

end ConnectionMap

/-! ## The server -/

structure ServerConnection where
  name : Bytes
  peer : InetAddress
  /-- The sub-loop it runs on; `none` is the base loop. -/
  ioLoop : Option Nat
  deriving DecidableEq, Repr

structure TcpServer where
  name : Bytes
  /-- `subLoops_.size()`. -/
  subLoops : Nat
  nextConnId : Nat := 1
  connections : List (Bytes × Nat) := []
  /-- All connections that were accepted. -/
  accepted : List ServerConnection := []
  /-- Those whose close callback was called. -/
  closed : List Nat := []
  /-- Calls of `removeConnectionInLoop` in the queue of the base loop. -/
  functors : List Nat := []
  /-- Those for which `removeConnectionInLoop` ran. -/
  removed : List Nat := []

namespace TcpServer

def newConnection (s : TcpServer) (peer : InetAddress) : TcpServer :=
  -- only the choice of a sub-loop counts up
  let (ioLoop, nextConnId) :=
    if s.subLoops = 0 then (none, s.nextConnId)
    else (some (s.nextConnId % s.subLoops), s.nextConnId + 1)
  let name := connName s.name peer nextConnId
  { s with
    nextConnId := nextConnId
    connections := ConnectionMap.assign s.connections name s.accepted.length
    accepted := s.accepted ++ [⟨name, peer, ioLoop⟩] }

def removeConnectionInLoop (s : TcpServer) (k : Nat) : TcpServer :=
  match s.accepted[k]? with
  | none => s
  | some conn =>
    { s with
      connections := ConnectionMap.erase s.connections conn.name
      removed := k :: s.removed }

/-- The close callback: `runInLoop` is a call on the base loop, and queues elsewhere. -/
def removeConnection (s : TcpServer) (k : Nat) : TcpServer :=
  let s := { s with closed := k :: s.closed }
  -- the callback is called on the connection's own loop
  match (s.accepted[k]?).bind ServerConnection.ioLoop with
  | none => s.removeConnectionInLoop k
  | some _ => { s with functors := s.functors ++ [k] }

inductive Action where
  | accept (peer : InetAddress)
  /-- A connection calls its close callback. -/
  | close (k : Nat)
  /-- The base loop runs the next functor. -/
  | run
  deriving DecidableEq

def step (s : TcpServer) : Action → Option TcpServer
  | .accept peer =>
    -- an overflow of the `int` is not defined
    if s.subLoops = 0 ∨ s.nextConnId + 1 < 2 ^ 31 then some (s.newConnection peer) else none
  | .close k => if k < s.accepted.length then some (s.removeConnection k) else none
  | .run =>
    match s.functors with
    | [] => none
    | k :: rest => some ({ s with functors := rest }.removeConnectionInLoop k)

/-- Accepted and not yet removed. -/
def Live (s : TcpServer) (k : Nat) : Prop := k < s.accepted.length ∧ k ∉ s.removed

instance (s : TcpServer) (k : Nat) : Decidable (s.Live k) := inferInstanceAs (Decidable (_ ∧ _))

/-- The peers of the connections in the table. -/
def peers (s : TcpServer) : List InetAddress :=
  s.connections.filterMap fun e => (s.accepted[e.2]?).map ServerConnection.peer

/-- A server without sub-loops accepts no connection from a peer that it has one of in its
table, and no connection calls its close callback a second time. -/
def Regular (s : TcpServer) : Action → Prop
  | .accept peer => s.subLoops = 0 → peer ∉ s.peers
  | .close k => k ∉ s.closed
  | .run => True

instance (s : TcpServer) : ∀ a, Decidable (s.Regular a)
  | .accept _ => inferInstanceAs (Decidable (_ → _))
  | .close _ => inferInstanceAs (Decidable (¬ _))
  | .run => .isTrue trivial

/-- The counter that goes into the name of the next connection. -/
def nextId (s : TcpServer) : Nat := if s.subLoops = 0 then s.nextConnId else s.nextConnId + 1

theorem newConnection_eq (s : TcpServer) (peer : InetAddress) :
    ∃ ioLoop, s.newConnection peer =
      { s with
        nextConnId := s.nextId
        connections := ConnectionMap.assign s.connections (connName s.name peer s.nextId)
          s.accepted.length
        accepted := s.accepted ++ [⟨connName s.name peer s.nextId, peer, ioLoop⟩] } ∧
      (ioLoop = none ↔ s.subLoops = 0) := by
  unfold newConnection nextId
  split_ifs with hBase
  · exact ⟨none, rfl, by simp [hBase]⟩
  · exact ⟨some (s.nextConnId % s.subLoops), rfl, by simp [hBase]⟩

/-! ## The table of a run -/

/-- The table and the histories fit together. -/
structure Exact (s : TcpServer) : Prop where
  counter : s.nextConnId < 2 ^ 31
  /-- Every name was made with a counter that has not been passed since. -/
  named : ∀ conn ∈ s.accepted, ∃ id ≤ s.nextConnId,
    conn.name = connName s.name conn.peer id ∧ (s.subLoops = 0 → id = s.nextConnId)
  entries : ∀ key k, (key, k) ∈ s.connections ↔
    (∃ conn, s.accepted[k]? = some conn ∧ conn.name = key) ∧ k ∉ s.removed
  keys : (s.connections.map Prod.fst).Nodup
  closedOf : ∀ k ∈ s.closed, k < s.accepted.length
  removedOf : ∀ k ∈ s.removed, k ∈ s.closed
  queued : ∀ k ∈ s.functors, k ∈ s.closed ∧ k ∉ s.removed
  once : s.functors.Nodup

variable {s s' : TcpServer}

variable {k : Nat} {conn : ServerConnection} {peer : InetAddress}

theorem Exact.entry (h : Exact s) (hLive : s.Live k) :
    ∃ conn, s.accepted[k]? = some conn ∧ (conn.name, k) ∈ s.connections := by
  have hLt : k < s.accepted.length := hLive.1
  have hGet : s.accepted[k]? = some s.accepted[k] := List.getElem?_eq_getElem hLt
  exact ⟨_, hGet, (h.entries _ k).mpr ⟨⟨_, hGet, rfl⟩, hLive.2⟩⟩

theorem Exact.live (h : Exact s) {key : Bytes} (hMem : (key, k) ∈ s.connections) : s.Live k := by
  obtain ⟨⟨conn, hGet, -⟩, hRemoved⟩ := (h.entries key k).mp hMem
  exact ⟨(List.getElem?_eq_some_iff.mp hGet).1, hRemoved⟩

/-- The entry of a connection is the only one with its name. -/
theorem Exact.key_eq_iff (h : Exact s) (hGet : s.accepted[k]? = some conn)
    (hRemoved : k ∉ s.removed) {e : Bytes × Nat} (he : e ∈ s.connections) :
    e.1 = conn.name ↔ e.2 = k := by
  have hOwn : (conn.name, k) ∈ s.connections := (h.entries _ k).mpr ⟨⟨conn, hGet, rfl⟩, hRemoved⟩
  constructor
  · intro hKey
    have hSame : e = (conn.name, k) := List.inj_on_of_nodup_map h.keys he hOwn hKey
    rw [hSame]
  · intro hConn
    obtain ⟨⟨conn', hGet', hName⟩, -⟩ := (h.entries e.1 e.2).mp he
    rw [hConn, hGet] at hGet'
    rw [← hName, Option.some.inj hGet']

/-- **Exactly one entry for each live connection.** -/
theorem Exact.count (h : Exact s) (k : Nat) :
    (s.connections.map Prod.snd).count k = if s.Live k then 1 else 0 := by
  have hNodup : (s.connections.map Prod.snd).Nodup := by
    refine List.Nodup.map_on (fun e he e' he' hConn => ?_) (List.Nodup.of_map _ h.keys)
    obtain ⟨⟨conn, hGet, hName⟩, hRemoved⟩ := (h.entries e.1 e.2).mp he
    have hKey : e'.1 = conn.name := (h.key_eq_iff hGet hRemoved he').mpr hConn.symm
    exact Prod.ext (hName.symm.trans hKey.symm) hConn
  split_ifs with hLive
  · obtain ⟨conn, -, hMem⟩ := h.entry hLive
    exact List.count_eq_one_of_mem hNodup (List.mem_map.mpr ⟨_, hMem, rfl⟩)
  · refine List.count_eq_zero_of_not_mem fun hMem => hLive ?_
    obtain ⟨e, he, rfl⟩ := List.mem_map.mp hMem
    exact h.live (show (e.1, e.2) ∈ s.connections from he)

/-- The name of the next connection is not in the table. -/
theorem Exact.fresh_name (h : Exact s) (hPeer : s.Regular (.accept peer))
    (hId : s.nextId < 2 ^ 31) : connName s.name peer s.nextId ∉ s.connections.map Prod.fst := by
  intro hMem
  obtain ⟨e, he, hKey⟩ := List.mem_map.mp hMem
  obtain ⟨⟨conn, hGet, hName⟩, -⟩ := (h.entries e.1 e.2).mp he
  obtain ⟨id, hLe, hMade, hBase⟩ := h.named conn (List.mem_of_getElem? hGet)
  have hSame : connName s.name conn.peer id = connName s.name peer s.nextId := by
    rw [← hMade, hName, hKey]
  obtain ⟨hConn, hNext⟩ := connName_inj (Nat.lt_of_le_of_lt hLe h.counter) hId hSame
  by_cases hSub : s.subLoops = 0
  · -- the peer has a connection in the table
    refine hPeer hSub (List.mem_filterMap.mpr ⟨e, he, ?_⟩)
    rw [hGet, Option.map_some, hConn]
  · -- the counter is above those of all names
    rw [nextId, if_neg hSub] at hNext
    omega

theorem ConnectionMap.assign_fresh {m : List (Bytes × Nat)} {key : Bytes}
    (h : key ∉ m.map Prod.fst) (conn : Nat) :
    ConnectionMap.assign m key conn = m ++ [(key, conn)] := by
  refine if_neg fun hFound => h ?_
  obtain ⟨e, he, hKey⟩ := List.any_eq_true.mp hFound
  exact List.mem_map.mpr ⟨e, he, of_decide_eq_true hKey⟩

theorem nextConnId_le_nextId (s : TcpServer) : s.nextConnId ≤ s.nextId := by
  unfold nextId
  split_ifs <;> omega

/-- The connection with a given number, after one more was accepted. -/
theorem getElem?_concat_eq_some {l : List ServerConnection} {c : ServerConnection} :
    (l ++ [c])[k]? = some conn ↔ l[k]? = some conn ∨ k = l.length ∧ conn = c := by
  rw [List.getElem?_append]
  split_ifs with hLt
  · exact ⟨.inl, fun h => h.resolve_right fun h => by omega⟩
  · have hNone : l[k]? = none := List.getElem?_eq_none (by omega)
    rw [hNone, List.getElem?_singleton]
    split_ifs with hLast
    · simp only [Option.some.injEq, false_or]
      exact ⟨fun h => ⟨by omega, h.symm⟩, fun h => h.2.symm⟩
    · simp only [false_or, false_iff, not_and]
      intro h
      omega

/-- A new connection adds its entry and changes no other. -/
theorem Exact.newConnection (h : Exact s) (hPeer : s.Regular (.accept peer))
    (hId : s.nextId < 2 ^ 31) : Exact (s.newConnection peer) := by
  obtain ⟨ioLoop, hNew, -⟩ := s.newConnection_eq peer
  have hFresh := h.fresh_name hPeer hId
  have hLast : s.accepted.length ∉ s.removed := fun hMem =>
    Nat.lt_irrefl _ (h.closedOf _ (h.removedOf _ hMem))
  rw [hNew, ConnectionMap.assign_fresh hFresh]
  refine
    { counter := hId
      named := fun conn hConn => ?_
      entries := fun key k => ?_
      keys := ?_
      closedOf := fun k hk => ?_
      removedOf := h.removedOf
      queued := h.queued
      once := h.once }
  · -- the counter does not go back
    rcases List.mem_append.mp hConn with hOld | hLast
    · obtain ⟨id, hLe, hMade, hBase⟩ := h.named conn hOld
      refine ⟨id, hLe.trans s.nextConnId_le_nextId, hMade, fun hSub => ?_⟩
      rw [hBase hSub]
      exact (if_pos hSub).symm
    · rw [List.mem_singleton.mp hLast]
      exact ⟨s.nextId, le_rfl, rfl, fun _ => rfl⟩
  · simp only [List.mem_append, List.mem_singleton, Prod.mk.injEq, getElem?_concat_eq_some]
    rw [h.entries]
    constructor
    · rintro (⟨⟨conn, hGet, hName⟩, hRemoved⟩ | ⟨rfl, rfl⟩)
      · exact ⟨⟨conn, .inl hGet, hName⟩, hRemoved⟩
      · exact ⟨⟨_, .inr ⟨rfl, rfl⟩, rfl⟩, hLast⟩
    · rintro ⟨⟨conn, hGet | ⟨rfl, rfl⟩, hName⟩, hRemoved⟩
      · exact .inl ⟨⟨conn, hGet, hName⟩, hRemoved⟩
      · exact .inr ⟨hName.symm, rfl⟩
  · -- the new name is not among the keys
    show ((s.connections ++ [_]).map Prod.fst).Nodup
    rw [List.map_append, List.map_singleton, List.nodup_append]
    refine ⟨h.keys, List.nodup_singleton _, fun key hKey key' hKey' hSame => hFresh ?_⟩
    rw [hSame, List.mem_singleton.mp hKey'] at hKey
    exact hKey
  · show k < (s.accepted ++ [_]).length
    rw [List.length_append]
    exact Nat.lt_of_lt_of_le (h.closedOf k hk) (Nat.le_add_right ..)

/-- **A removal takes out the connection's own entry and no other.** -/
theorem Exact.removeConnectionInLoop_eq (h : Exact s) (hLive : s.Live k) :
    s.removeConnectionInLoop k =
      { s with
        connections := s.connections.filter fun e => e.2 ≠ k
        removed := k :: s.removed } := by
  obtain ⟨conn, hGet, -⟩ := h.entry hLive
  have hFilter : ConnectionMap.erase s.connections conn.name =
      s.connections.filter fun e => e.2 ≠ k := by
    refine List.filter_congr fun e he => ?_
    rw [decide_eq_decide, ne_eq, ne_eq, h.key_eq_iff hGet hLive.2 he]
  simp only [removeConnectionInLoop, hGet, hFilter]

theorem Exact.removeConnectionInLoop (h : Exact s) (hLive : s.Live k) (hClosed : k ∈ s.closed)
    (hDone : k ∉ s.functors) : Exact (s.removeConnectionInLoop k) := by
  rw [h.removeConnectionInLoop_eq hLive]
  refine
    { counter := h.counter
      named := h.named
      entries := fun key j => ?_
      keys := h.keys.sublist (List.filter_sublist.map _)
      closedOf := h.closedOf
      removedOf := fun j hj => ?_
      queued := fun j hj => ⟨(h.queued j hj).1, fun hMem => ?_⟩
      once := h.once }
  · simp only [List.mem_filter, h.entries, decide_eq_true_eq, List.mem_cons, not_or]
    tauto
  · rcases List.mem_cons.mp hj with rfl | hj
    · exact hClosed
    · exact h.removedOf j hj
  · rcases List.mem_cons.mp hMem with rfl | hMem
    · exact hDone hj
    · exact (h.queued j hj).2 hMem

theorem Exact.accepts (h : Exact s) (hStep : s.step (.accept peer) = some s') :
    s' = s.newConnection peer ∧ s.nextId < 2 ^ 31 := by
  simp only [step] at hStep
  split_ifs at hStep with hRoom
  refine ⟨(Option.some.inj hStep).symm, ?_⟩
  unfold nextId
  split_ifs with hSub
  · exact h.counter
  · exact hRoom.resolve_left hSub

/-- **The step lemma.** An accepted connection has a name of its own, and a removal finds it. -/
theorem exact_step {a : Action} (hStep : s.step a = some s') (ha : s.Regular a)
    (h : Exact s) : Exact s' := by
  cases a with
  | accept peer =>
    obtain ⟨rfl, hId⟩ := h.accepts hStep
    exact h.newConnection ha hId
  | close k =>
    simp only [step] at hStep
    split_ifs at hStep with hLt
    obtain rfl := Option.some.inj hStep
    -- a regular close is the first one of this connection
    have hOpen : k ∉ s.closed := ha
    have hRemoved : k ∉ s.removed := fun hMem => hOpen (h.removedOf k hMem)
    have hClosed : Exact { s with closed := k :: s.closed } :=
      { h with
        closedOf := fun j hj => (List.mem_cons.mp hj).elim (fun hj => hj ▸ hLt) (h.closedOf j)
        removedOf := fun j hj => List.mem_cons_of_mem _ (h.removedOf j hj)
        queued := fun j hj => ⟨List.mem_cons_of_mem _ (h.queued j hj).1, (h.queued j hj).2⟩ }
    have hNotQueued : k ∉ s.functors := fun hMem => hOpen (h.queued k hMem).1
    simp only [removeConnection]
    -- on the base loop the removal is done at once, elsewhere it is queued
    split
    · exact hClosed.removeConnectionInLoop ⟨hLt, hRemoved⟩ (List.mem_cons_self ..) hNotQueued
    · refine { hClosed with queued := fun j hj => ?_, once := ?_ }
      · rcases List.mem_append.mp hj with hj | hj
        · exact hClosed.queued j hj
        · rw [List.mem_singleton.mp hj]
          exact ⟨List.mem_cons_self .., hRemoved⟩
      · exact List.nodup_append.mpr ⟨h.once, List.nodup_singleton _, fun j hj i hi hSame =>
          hNotQueued (by rw [List.mem_singleton.mp hi] at hSame; exact hSame ▸ hj)⟩
  | run =>
    simp only [step] at hStep
    split at hStep
    · cases hStep
    · rename_i k rest hFunctors
      obtain rfl := Option.some.inj hStep
      have hOnce := h.once
      rw [hFunctors, List.nodup_cons] at hOnce
      have hQueued : ∀ j ∈ k :: rest, j ∈ s.closed ∧ j ∉ s.removed := fun j hj =>
        h.queued j (hFunctors ▸ hj)
      have hPopped : Exact { s with functors := rest } :=
        { h with
          queued := fun j hj => hQueued j (List.mem_cons_of_mem _ hj)
          once := hOnce.2 }
      obtain ⟨hClosed, hRemoved⟩ := hQueued k (List.mem_cons_self ..)
      exact hPopped.removeConnectionInLoop ⟨h.closedOf k hClosed, hRemoved⟩ hClosed hOnce.1

theorem exact_of_reachesBy {name : Bytes} {subLoops : Nat}
    (h : ReachesBy step Regular { name := name, subLoops := subLoops } s) : Exact s :=
  h.invariant (P := Exact)
    { counter := by show 1 < 2 ^ 31; decide
      named := by simp
      entries := by simp
      keys := List.nodup_nil
      closedOf := by simp
      removedOf := by simp
      queued := by simp
      once := List.nodup_nil } fun _ _ _ => exact_step

/-! ## A peer twice -/

/-- Without sub-loops the second connection of a peer takes the entry of the first. -/
theorem Exact.overwritten (h : Exact s) (hPeer : ¬ s.Regular (.accept peer)) :
    ∃ k, (s.newConnection peer).Live k ∧
      ((s.newConnection peer).connections.map Prod.snd).count k = 0 := by
  simp only [Regular, not_forall, not_not] at hPeer
  obtain ⟨hSub, hMem⟩ := hPeer
  obtain ⟨e, he, hConn⟩ := List.mem_filterMap.mp hMem
  obtain ⟨⟨conn, hGet, hName⟩, hRemoved⟩ := (h.entries e.1 e.2).mp he
  have hSame : conn.peer = peer := by simpa [hGet] using hConn
  obtain ⟨id, -, hMade, hBase⟩ := h.named conn (List.mem_of_getElem? hGet)
  have hLt : e.2 < s.accepted.length := (List.getElem?_eq_some_iff.mp hGet).1
  obtain ⟨ioLoop, hNew, -⟩ := s.newConnection_eq peer
  have hKey : connName s.name peer s.nextId = conn.name := by
    rw [hMade, hBase hSub, hSame, nextId, if_pos hSub]
  have hFound : s.connections.any (fun e' => e'.1 = connName s.name peer s.nextId) = true :=
    List.any_eq_true.mpr ⟨e, he, decide_eq_true (by rw [hKey, hName])⟩
  refine ⟨e.2, ?_, ?_⟩
  · rw [hNew]
    refine ⟨?_, hRemoved⟩
    show e.2 < (s.accepted ++ [_]).length
    rw [List.length_append]
    exact Nat.lt_of_lt_of_le hLt (Nat.le_add_right ..)
  · rw [hNew]
    refine List.count_eq_zero_of_not_mem fun hMem => ?_
    have hAssign : ConnectionMap.assign s.connections (connName s.name peer s.nextId)
        s.accepted.length = s.connections.map fun e' =>
          if e'.1 = connName s.name peer s.nextId then
            (connName s.name peer s.nextId, s.accepted.length)
          else e' := if_pos hFound
    simp only [hAssign, List.map_map, List.mem_map, Function.comp_apply] at hMem
    obtain ⟨e', he', hValue⟩ := hMem
    split_ifs at hValue with hOwn
    · -- the overwritten entry has the new number
      simp only at hValue
      omega
    · -- every other entry is one of another connection
      exact hOwn (hKey ▸ (h.key_eq_iff hGet hRemoved he').mpr hValue)

/-- A removal goes by the name. If the connection was removed before, it takes out the entry of
the connection that has its name now. -/
theorem Exact.removed_again (h : Exact s) {j : Nat} (hj : s.Live j) {conn' : ServerConnection}
    (hGet : s.accepted[k]? = some conn) (hGet' : s.accepted[j]? = some conn')
    (hName : conn.name = conn'.name) :
    ((s.removeConnectionInLoop k).connections.map Prod.snd).count j = 0 := by
  refine List.count_eq_zero_of_not_mem fun hMem => ?_
  simp only [TcpServer.removeConnectionInLoop, hGet] at hMem
  obtain ⟨e, he, rfl⟩ := List.mem_map.mp hMem
  obtain ⟨hEntry, hKey⟩ := List.mem_filter.mp he
  exact of_decide_eq_true hKey (hName ▸ (h.key_eq_iff hGet' hj.2 hEntry).mpr rfl)

/-- **The table of connections is exact.** In every run of a server with any number of
sub-loops, in which a server without them accepts no connection from a peer that it has one
of in its table and no connection is closed twice: the table has exactly one entry for each
connection that was accepted and not yet removed, a new connection only adds an entry, and a
removal, which is always one of such a connection, takes out its own entry and no other.

Both conditions are needed. If a server without sub-loops does accept a connection from such a
peer, the older connection has no entry any more. If a connection that was removed is closed
again, its removal finds no entry of its own, and one that has its name loses its entry. -/
theorem connection_table_exact (name : Bytes) (subLoops : Nat) (s : TcpServer)
    (h : ReachesBy step Regular { name := name, subLoops := subLoops } s) :
    (∀ k, (s.connections.map Prod.snd).count k = if s.Live k then 1 else 0) ∧
    (∀ peer s', s.step (.accept peer) = some s' → s.Regular (.accept peer) →
      ∃ key, s'.connections = s.connections ++ [(key, s.accepted.length)]) ∧
    (∀ k ∈ s.functors, s.Live k) ∧
    (∀ k, k < s.accepted.length → k ∉ s.closed → s.Live k) ∧
    (∀ k, s.Live k → (∃ key, (key, k) ∈ s.connections) ∧
      (s.removeConnectionInLoop k).connections = s.connections.filter fun e => e.2 ≠ k) ∧
    (∀ peer s', s.step (.accept peer) = some s' → ¬ s.Regular (.accept peer) →
      ∃ k, s'.Live k ∧ (s'.connections.map Prod.snd).count k = 0) ∧
    (∀ k j conn conn', k ∈ s.removed → s.Live j → s.accepted[k]? = some conn →
      s.accepted[j]? = some conn' → conn.name = conn'.name →
      (∀ key, (key, k) ∉ s.connections) ∧
      ((s.removeConnectionInLoop k).connections.map Prod.snd).count j = 0) := by
  have hExact := exact_of_reachesBy h
  refine ⟨hExact.count, fun peer s' hStep hPeer => ?_, fun k hk => ?_, fun k hk hOpen => ?_,
    fun k hLive => ?_, fun peer s' hStep hPeer => ?_, fun k j conn conn' hk hj hGet hGet' hName =>
      ⟨fun key hMem => (hExact.live hMem).2 hk, hExact.removed_again hj hGet hGet' hName⟩⟩
  · obtain ⟨rfl, hId⟩ := hExact.accepts hStep
    obtain ⟨ioLoop, hNew, -⟩ := s.newConnection_eq peer
    rw [hNew]
    exact ⟨_, ConnectionMap.assign_fresh (hExact.fresh_name hPeer hId) _⟩
  · obtain ⟨hClosed, hRemoved⟩ := hExact.queued k hk
    exact ⟨hExact.closedOf k hClosed, hRemoved⟩
  · exact ⟨hk, fun hMem => hOpen (hExact.removedOf k hMem)⟩
  · obtain ⟨conn, -, hMem⟩ := hExact.entry hLive
    exact ⟨⟨_, hMem⟩, by rw [hExact.removeConnectionInLoop_eq hLive]⟩
  · obtain ⟨rfl, -⟩ := hExact.accepts hStep
    exact hExact.overwritten hPeer

/-- A peer on the loopback interface. -/
def loopbackPeer : InetAddress := ⟨127, 0, 0, 1, 5000⟩

/-- A server with two sub-loops accepts twice from one peer, and the first connection is
closed and removed. -/
theorem connection_table_exact_two_loops :
    ∃ s, runAllBy step Regular { name := [0x53], subLoops := 2 }
        [.accept loopbackPeer, .accept loopbackPeer, .close 0, .run] = some s ∧
      s.removed = [0] ∧ (s.connections.map Prod.snd).count 1 = 1 := by
  obtain ⟨s, hRun, hAccepted, hRemoved⟩ : ∃ s,
      runAllBy step Regular { name := [0x53], subLoops := 2 }
        [.accept loopbackPeer, .accept loopbackPeer, .close 0, .run] = some s ∧
      s.accepted.length = 2 ∧ s.removed = [0] := ⟨_, rfl, rfl, rfl⟩
  have hLive : s.Live 1 := ⟨by rw [hAccepted]; decide, by rw [hRemoved]; decide⟩
  obtain ⟨hCount, -⟩ := connection_table_exact [0x53] 2 s (reachesBy_of_runAllBy hRun)
  exact ⟨s, hRun, hRemoved, (hCount 1).trans (if_pos hLive)⟩

/-- A server without sub-loops accepts twice from one peer. Both connections are live, and
the first has lost its entry to the second; the close of the first takes that out. And if the
first is closed and removed before the second comes, a second close of the first takes out the
entry of the second. -/
theorem entry_overwritten :
    (runAll step { name := [0x53], subLoops := 0 }
      [.accept loopbackPeer, .accept loopbackPeer]).map
        (fun s => (s.connections.map Prod.snd, s.removed)) = some ([1], []) ∧
    (runAll step { name := [0x53], subLoops := 0 }
      [.accept loopbackPeer, .accept loopbackPeer, .close 0]).map
        (fun s => (s.connections.map Prod.snd, s.removed)) = some ([], [0]) ∧
    (runAll step { name := [0x53], subLoops := 0 }
      [.accept loopbackPeer, .close 0, .accept loopbackPeer, .close 0]).map
        (fun s => (s.connections.map Prod.snd, s.removed)) = some ([], [0, 0]) := by
  refine ⟨rfl, rfl, rfl⟩

end TcpServer

end ReactorNet
