import ReactorNet.Rpc.Codec

/-!
# ReactorNet — the service registry

`ServiceRegistry` of `rpc/src/service_registry.cpp`: a map from joined
`Service.Method` names to handlers, and the set of service names seen. Handlers
are user code. They may keep state, so a handler here also takes and returns the
state `σ` of the world it runs in; and they may throw.
-/

namespace ReactorNet.Rpc

universe u

/-- What a handler may throw: a `std::exception`, or anything else. -/
inductive Thrown where
  | exception
  | other
  deriving DecidableEq, Repr

/-- `std::function<std::string(std::string_view)>` with its side effects. -/
abbrev ErasedMethod (σ : Type u) := Bytes → σ → Except Thrown Bytes × σ

structure ServiceRegistry (σ : Type u) where
  /-- The `unordered_map` of handlers; a key occurs at most once. -/
  methods : List (Bytes × ErasedMethod σ) := []
  services : List Bytes := []
  frozen : Bool := false

/-- Whether a service is known is decided in one way, for the registry and for the answers. -/
instance (service : Bytes) (services : List Bytes) : Decidable (service ∈ services) :=
  List.instDecidableMemOfLawfulBEq service services

/-- What `dispatch` leaves behind: its return value or the exception it lets
through, the response it was given to fill, the world, and the key of the
handler it ran, if it ran one. -/
structure Dispatched (σ : Type u) where
  outcome : Except Thrown Bool
  response : Response
  world : σ
  handler : Option Bytes

namespace ServiceRegistry

variable {σ : Type u}

/-- `service + '.' + method`. -/
def makeKey (service method : Bytes) : Bytes := service ++ [0x2E] ++ method

def find (registry : ServiceRegistry σ) (key : Bytes) : Option (ErasedMethod σ) :=
  registry.methods.lookup key

/-- `registerMethod`; `fn = none` is an empty `std::function`. -/
def registerMethod (registry : ServiceRegistry σ) (service method : Bytes)
    (fn : Option (ErasedMethod σ)) : Bool × ServiceRegistry σ :=
  match fn with
  | none => (false, registry)
  | some fn =>
    -- after `freeze()` nothing is registered any more
    if registry.frozen || service.isEmpty || method.isEmpty then (false, registry)
    else if (registry.find (makeKey service method)).isSome then (false, registry)
    else
      (true,
        { registry with
          methods := registry.methods ++ [(makeKey service method, fn)]
          services := if service ∈ registry.services then registry.services
            else registry.services ++ [service] })

def freeze (registry : ServiceRegistry σ) : ServiceRegistry σ :=
  { registry with frozen := true }

def dispatch (registry : ServiceRegistry σ) (req : Request) (resp : Response) (world : σ) :
    Dispatched σ :=
  let key := makeKey req.service req.method
  match registry.find key with
  | none =>
    -- a service is known if some method of it is registered
    { outcome := .ok false
      response :=
        { resp with
          status := if req.service ∈ registry.services then .kUnknownMethod
            else .kUnknownService
          payload := [] }
      world := world
      handler := none }
  | some fn =>
    -- the status is set before the handler runs, the payload only if it returns
    match fn req.payload world with
    | (.ok payload, world') =>
      ⟨.ok true, { resp with status := .kOk, payload := payload }, world', some key⟩
    | (.error thrown, world') =>
      ⟨.error thrown, { resp with status := .kOk }, world', some key⟩

end ServiceRegistry

end ReactorNet.Rpc
