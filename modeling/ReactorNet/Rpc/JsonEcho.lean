import ReactorNet.Rpc.CallersLinearizable
import ReactorNet.Rpc.Serializer

/-!
# ReactorNet — the JSON echo service

The example server `rpc_echo_server`, as a service over the whole of the library: a value is
encoded, called with, executed and answered, and decoded by the thread that called. The server does
not send the bytes back that it got. It parses them and writes the value again, so what is kept is
the meaning of a payload and not its text.

Main result: `json_echo`.
-/

namespace ReactorNet.Rpc

open Lib Json

variable (lib : DoubleChars)

/-! ## The server -/

/-- `R"({"error":"malformed json"})"` -/
def malformedJson : Bytes := ascii "\x7b\"error\":\"malformed json\"\x7d"

/-- `R"({"error":"unencodable value"})"` -/
def unencodableValue : Bytes := ascii "\x7b\"error\":\"unencodable value\"\x7d"

/-- What the handler returns for a payload. -/
def echoResult (payload : Bytes) : Bytes :=
  match parse lib kDefaultMaxDepth payload with
  | none => malformedJson
  | some request =>
    match write lib kDefaultMaxDepth request with
    | none => unencodableValue
    | some encoded => encoded

/-- The server after `start()`, which freezes the registry. -/
def jsonEcho : RpcServer Unit where
  registry := (ServiceRegistry.registerMethod {} (ascii "Echo") (ascii "Echo")
    (some fun payload world => (.ok (echoResult lib payload), world))).2.freeze
  serializerId := kSerializerJson

/-- The request of `Echo.Echo`. -/
def echoCall (payload : Bytes) : Request := ⟨ascii "Echo", ascii "Echo", payload⟩

/-- What a payload is answered with: its own value, or an error object if it has none. -/
def echoed (payload : Bytes) : JsonValue lib.Double :=
  (parse lib kDefaultMaxDepth payload).getD
    (.object [(ascii "error", .string (ascii "malformed json"))])

variable {lib}

theorem execute_echoCall (payload : Bytes) (world : Unit) :
    (jsonEcho lib).execute (echoCall payload) world = ((.kOk, echoResult lib payload), world) := rfl

theorem write_malformed (lib : DoubleChars) :
    write lib kDefaultMaxDepth (.object [(ascii "error", .string (ascii "malformed json"))]) =
      some malformedJson := rfl

variable {value : JsonValue lib.Double} {payload : Bytes}

/-- The text of a value that is written is echoed as it is. -/
theorem echoResult_of_write (h : write lib kDefaultMaxDepth value = some payload) :
    echoResult lib payload = payload := by
  simp only [echoResult, parse_write h, h]

/-- Every result is JSON. The handler never finds a value that it cannot write: it has parsed it,
with the same limit. -/
theorem parse_echoResult (payload : Bytes) :
    parse lib kDefaultMaxDepth (echoResult lib payload) = some (echoed lib payload) := by
  unfold echoResult echoed
  cases hParse : parse lib kDefaultMaxDepth payload with
  | none => exact parse_write (write_malformed lib)
  | some value =>
    obtain ⟨encoded, hWrite⟩ := write_isSome_of_parse hParse
    simpa only [hWrite, Option.getD_some] using parse_write hWrite

theorem decode_echoResult (h : (jsonSerializer lib kDefaultMaxDepth).encode value = some payload) :
    (jsonSerializer lib kDefaultMaxDepth).decode (echoResult lib payload) = some value := by
  rw [echoResult_of_write (JsonSerializer.encode_spec h).1]
  exact (jsonSerializer lib kDefaultMaxDepth).decode_encode h

/-! ## The service -/

/-- **The echo service keeps the meaning of payloads.** Whatever threads, loops, connections and the
server do: a thread that has called the service gets a status of its client, or the answer `kOk`
with a payload that is JSON and has the value of the payload it sent (the error object, if that was
no JSON); and if the payload was encoded from a value, the answer is decoded to that value. -/
theorem json_echo (lib : DoubleChars) {ι : Type} [DecidableEq ι] (s : Threads ι (Wired ι Unit))
    (hReach : Reaches (Threads.step (Wired.host (jsonEcho lib)))
      { host := Wired.start kSerializerJson () } s)
    (hBounded : Bounded (jsonEcho lib) s.host.above) (i : ι) (e : Nat × Response)
    (he : e ∈ (s.callers i).returned) (spec : CallSpec)
    (hSpec : (s.callers i).posted[e.1]? = some spec) (payload : Bytes)
    (hRequest : spec.request = echoCall payload) :
    e.2.status ∈ clientStatuses ∨
      e.2.status = .kOk ∧ parse lib kDefaultMaxDepth e.2.payload = some (echoed lib payload) ∧
      ∀ value, (jsonSerializer lib kDefaultMaxDepth).encode value = some payload →
        (jsonSerializer lib kDefaultMaxDepth).decode e.2.payload = some value := by
  by_cases hClient : e.2.status ∈ clientStatuses
  · exact .inl hClient
  · obtain ⟨spec', w, hPosted, hOutcome⟩ := returned_executed rfl rfl hReach hBounded he hClient
    obtain rfl := Option.some.inj (hSpec.symm.trans hPosted)
    rw [hRequest, execute_echoCall] at hOutcome
    obtain ⟨hStatus, hPayload⟩ := Prod.mk.inj hOutcome
    exact .inr ⟨hStatus, hPayload ▸ parse_echoResult payload,
      fun value hEncode => hPayload ▸ decode_echoResult hEncode⟩

/-- A call whose payload was written, and leaves room for the names and the header. -/
theorem bounded_echoCall {s : Wired Unit Unit}
    (hEncode : (jsonSerializer lib kDefaultMaxDepth).encode value = some payload)
    (hLen : payload.length + 12 ≤ kMaxSessionBody)
    (hCalls : (s.wires ()).rpc.calls = [⟨echoCall payload, 0⟩]) :
    Bounded (jsonEcho lib) s.above := by
  intro i
  have hOne : (s.above.links i).client.calls = [⟨echoCall payload, 0⟩] := hCalls
  refine ⟨fun spec hSpec body hBody => ?_, fun spec hSpec world => ?_, by simp [hOne]⟩
  · rw [hOne, List.mem_singleton] at hSpec
    have hName : (ascii "Echo").length = 4 := rfl
    rw [RawCodec.length_of_encodeRequest hBody, hSpec]
    simp only [echoCall, hName]
    omega
  · rw [hOne, List.mem_singleton] at hSpec
    rw [hSpec, execute_echoCall, echoResult_of_write (JsonSerializer.encode_spec hEncode).1]
    exact Nat.le_of_add_right_le hLen

/-- A call with `[7]`. -/
def sevenCall : CallSpec := ⟨echoCall [0x5B, 0x37, 0x5D], 0⟩

theorem json_echo_seven :
    ∃ (s : Threads Unit (Wired Unit Unit)) (e : Nat × Response), e ∈ (s.callers ()).returned ∧
      e.2.status = .kOk ∧ (jsonSerializer Writer.wholeNumbers kDefaultMaxDepth).decode e.2.payload =
        some (.array [.integer 7]) := by
  have hEncode : (jsonSerializer Writer.wholeNumbers kDefaultMaxDepth).encode
      (.array [.integer 7]) = some [0x5B, 0x37, 0x5D] := by rfl
  have hRun : (runAll (Threads.step (Wired.host (jsonEcho Writer.wholeNumbers)))
      { host := Wired.start kSerializerJson () } (oneThread sevenCall)).map (fun s =>
        (decide ((s.host.wires ()).rpc.calls = [sevenCall]),
          decide ((s.callers ()).posted = [sevenCall]),
          (s.callers ()).returned.map fun e => (e.1, e.2.status))) =
      some (true, true, [(0, .kOk)]) := by
    decide +kernel
  obtain ⟨s, hs, hFields⟩ := Option.map_eq_some_iff.mp hRun
  simp only [Prod.mk.injEq, decide_eq_true_eq] at hFields
  obtain ⟨hCalls, hPosted, hReturned⟩ := hFields
  obtain ⟨⟨t, response⟩, he, hEq⟩ := List.mem_map.mp (hReturned ▸ List.mem_singleton_self _)
  obtain ⟨rfl, hStatus⟩ := Prod.mk.inj hEq
  obtain hClient | ⟨hOk, -, hDecode⟩ := json_echo Writer.wholeNumbers s (reaches_of_runAll hs)
    (bounded_echoCall hEncode (by decide) hCalls) () (0, response) he sevenCall
    (by simp [hPosted]) _ rfl
  · rw [show response.status = .kOk from hStatus] at hClient
    exact absurd hClient (by decide)
  · exact ⟨s, _, he, hOk, hDecode _ hEncode⟩

end ReactorNet.Rpc
