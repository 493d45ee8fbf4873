import ReactorNet.Lib.Bytes
import ReactorNet.Rpc.Registry

/-!
# ReactorNet — routing over a history of registrations

A registry has two containers: the handlers under their joined names, and the names of the
services. Both stand for one thing, the list of the calls of `registerMethod` that returned
true, oldest first: `registrations`. `Records` relates them, and `Records.apply` is the step.

The joined name does not say where the service name ends. `find?_spelling_eq_pair` is the
condition under which that does no harm: no dot in the service names that are involved.

Main result: `routing_faithful`.
-/

namespace ReactorNet.Rpc

open Lib

universe u

/-- A call that may change a registry. -/
inductive RegistryCall (σ : Type u) where
  | registerMethod (service method : Bytes) (fn : Option (ErasedMethod σ))
  | freeze

/-- A call of `registerMethod` that returned true. -/
structure Registration (σ : Type u) where
  service : Bytes
  method : Bytes
  fn : ErasedMethod σ

namespace ServiceRegistry

variable {σ : Type u} {registry : ServiceRegistry σ} {service method : Bytes}
  {fn : Option (ErasedMethod σ)}

/-! ## Histories -/

def apply (registry : ServiceRegistry σ) : RegistryCall σ → ServiceRegistry σ
  | .registerMethod service method fn => (registry.registerMethod service method fn).2
  | .freeze => registry.freeze

/-- What a call registers. -/
def registered (registry : ServiceRegistry σ) : RegistryCall σ → List (Registration σ)
  | .registerMethod service method (some fn) =>
    if (registry.registerMethod service method (some fn)).1 then [⟨service, method, fn⟩] else []
  | _ => []

/-- The registry after a history of calls. -/
def run (calls : List (RegistryCall σ)) : ServiceRegistry σ := calls.foldl apply {}

/-- The successful registrations of calls that are made on this registry. -/
def registrationsFrom (registry : ServiceRegistry σ) :
    List (RegistryCall σ) → List (Registration σ)
  | [] => []
  | call :: calls => registry.registered call ++ (registry.apply call).registrationsFrom calls

/-- The successful registrations of a history, oldest first. -/
def registrations (calls : List (RegistryCall σ)) : List (Registration σ) :=
  registrationsFrom {} calls

/-! ## One call -/

theorem registerMethod_iff :
    (registry.registerMethod service method fn).1 = true ↔
      registry.frozen = false ∧ service ≠ [] ∧ method ≠ [] ∧ fn ≠ none ∧
        registry.find (makeKey service method) = none := by
  cases fn with
  | none => simp [registerMethod]
  | some fn =>
    simp only [registerMethod]
    split
    · rename_i hRefused
      simp only [Bool.or_eq_true, List.isEmpty_iff] at hRefused
      refine iff_of_false Bool.false_ne_true ?_
      rintro ⟨hFrozen, hService, hMethod, -⟩
      rcases hRefused with (h | h) | h
      · simp [hFrozen] at h
      · exact hService h
      · exact hMethod h
    · rename_i hRefused
      -- what is left to refuse is a spelling that is taken
      cases hFind : registry.find (makeKey service method) with
      | some other => simp
      | none => simpa [and_assoc] using hRefused

/-- **A failed call changes nothing.** -/
theorem registerMethod_failed (h : (registry.registerMethod service method fn).1 = false) :
    (registry.registerMethod service method fn).2 = registry := by
  cases fn with
  | none => rfl
  | some fn =>
    simp only [registerMethod] at h ⊢
    split_ifs at h ⊢ <;> rfl

theorem registerMethod_ok {f : ErasedMethod σ}
    (h : (registry.registerMethod service method (some f)).1 = true) :
    (registry.registerMethod service method (some f)).2 =
      { registry with
        methods := registry.methods ++ [(makeKey service method, f)]
        services := if service ∈ registry.services then registry.services
          else registry.services ++ [service] } := by
  obtain ⟨hFrozen, hService, hMethod, -, hNew⟩ := registerMethod_iff.mp h
  have hGuard : (registry.frozen || service.isEmpty || method.isEmpty) = false := by
    simp [hFrozen, hService, hMethod]
  simp [registerMethod, hGuard, hNew]

theorem frozen_registerMethod :
    (registry.registerMethod service method fn).2.frozen = registry.frozen := by
  cases hOk : (registry.registerMethod service method fn).1 with
  | false => rw [registerMethod_failed hOk]
  | true =>
    cases fn with
    | none => rfl
    | some f => rw [registerMethod_ok hOk]

theorem apply_of_frozen (h : registry.frozen = true) (call : RegistryCall σ) :
    registry.apply call = registry := by
  cases call with
  | registerMethod service method fn =>
    refine registerMethod_failed (Bool.eq_false_iff.mpr fun hOk => ?_)
    have hFrozen := (registerMethod_iff.mp hOk).1
    simp [h] at hFrozen
  | freeze =>
    cases registry
    simp_all [apply, freeze]

/-! ## What the containers stand for -/

/-- The two containers of a registry, and the registrations they were made from. -/
structure Records (registry : ServiceRegistry σ) (regs : List (Registration σ)) : Prop where
  methods : registry.methods = regs.map fun r => (makeKey r.service r.method, r.fn)
  services : ∀ service, service ∈ registry.services ↔ ∃ r ∈ regs, r.service = service

theorem records_new : Records ({} : ServiceRegistry σ) [] where
  methods := rfl
  services service := by simp

variable {regs : List (Registration σ)}

/-- The handler of a joined name is that of the first registration with this spelling. -/
theorem Records.find (h : Records registry regs) (key : Bytes) :
    registry.find key =
      (regs.find? fun r => makeKey r.service r.method = key).map Registration.fn := by
  have hLookup : ∀ regs : List (Registration σ),
      (regs.map fun r => (makeKey r.service r.method, r.fn)).lookup key =
        (regs.find? fun r => makeKey r.service r.method = key).map Registration.fn := by
    intro regs
    induction regs with
    | nil => rfl
    | cons r regs ih =>
      rw [List.map_cons, List.lookup_cons, List.find?_cons, ih]
      by_cases hKey : makeKey r.service r.method = key
      · simp [hKey]
      · simp [hKey, beq_false_of_ne (Ne.symm hKey)]
  rw [ServiceRegistry.find, h.methods, hLookup]

/-- **The step**: a call adds what it registers. -/
theorem Records.apply (h : Records registry regs) (call : RegistryCall σ) :
    Records (registry.apply call) (regs ++ registry.registered call) := by
  cases call with
  | freeze =>
    have hNone : regs ++ registry.registered .freeze = regs := List.append_nil regs
    rw [hNone]
    exact ⟨h.methods, h.services⟩
  | registerMethod service method fn =>
    cases fn with
    | none =>
      have hNone : regs ++ registry.registered (.registerMethod service method none) = regs :=
        List.append_nil regs
      rw [hNone]
      exact h
    | some f =>
      simp only [ServiceRegistry.apply, registered]
      cases hOk : (registry.registerMethod service method (some f)).1 with
      | false =>
        rw [registerMethod_failed hOk]
        simpa using h
      | true =>
        rw [registerMethod_ok hOk, if_pos rfl]
        refine ⟨by simp [h.methods], fun service' => ?_⟩
        have hOld := h.services service'
        -- the name is in the set already, or it is put there
        have hNew : service' ∈ (if service ∈ registry.services then registry.services
            else registry.services ++ [service]) ↔
              service' ∈ registry.services ∨ service' = service := by
          split_ifs with hKnown
          · exact ⟨.inl, fun h => h.elim id fun hEq => hEq ▸ hKnown⟩
          · simp
        rw [hNew, hOld]
        constructor
        · rintro (⟨r, hr, rfl⟩ | rfl)
          · exact ⟨r, by simp [hr], rfl⟩
          · exact ⟨⟨service', method, f⟩, by simp, rfl⟩
        · rintro ⟨r, hr, rfl⟩
          rcases List.mem_append.mp hr with hr | hr
          · exact .inl ⟨r, hr, rfl⟩
          · exact .inr (by rw [List.mem_singleton.mp hr])

/-- **A history** is recorded in the containers. -/
theorem records_run (calls : List (RegistryCall σ)) : Records (run calls) (registrations calls) := by
  have hFrom : ∀ (calls : List (RegistryCall σ)) (registry : ServiceRegistry σ)
      (regs : List (Registration σ)), Records registry regs →
        Records (calls.foldl ServiceRegistry.apply registry)
          (regs ++ registry.registrationsFrom calls) := by
    intro calls
    induction calls with
    | nil =>
      intro registry regs h
      simpa [registrationsFrom] using h
    | cons call calls ih =>
      intro registry regs h
      rw [List.foldl_cons, registrationsFrom, ← List.append_assoc]
      exact ih _ _ (h.apply call)
  exact hFrom calls {} [] records_new

/-! ## Freezing -/

theorem run_append (calls later : List (RegistryCall σ)) :
    run (calls ++ later) = later.foldl apply (run calls) := List.foldl_append

theorem frozen_run (calls : List (RegistryCall σ)) :
    (run calls).frozen = true ↔ RegistryCall.freeze ∈ calls := by
  induction calls using List.reverseRecOn with
  | nil => simp [run]
  | append_singleton calls call ih =>
    rw [run_append, List.foldl_cons, List.foldl_nil, List.mem_append, ← ih]
    cases call with
    | registerMethod service method fn =>
      simp only [apply, frozen_registerMethod]
      simp
    | freeze => simp [apply, freeze]

theorem foldl_of_frozen (h : registry.frozen = true) (later : List (RegistryCall σ)) :
    later.foldl apply registry = registry := by
  induction later with
  | nil => rfl
  | cons call later ih => rw [List.foldl_cons, apply_of_frozen h, ih]

/-! ## Routing -/

/-- Without dots in the service names a joined name has one reading. -/
theorem makeKey_inj {service' method' : Bytes} (h : 0x2E ∉ service) (h' : 0x2E ∉ service')
    (hKey : makeKey service method = makeKey service' method') :
    service = service' ∧ method = method' := by
  simp only [makeKey, List.append_assoc, List.singleton_append] at hKey
  exact append_cons_inj_left h h' hKey

/-- Then the first registration of a spelling is the first one of the pair. -/
theorem find?_spelling_eq_pair (h : 0x2E ∉ service) (hRegs : ∀ r ∈ regs, 0x2E ∉ r.service) :
    (regs.find? fun r => makeKey r.service r.method = makeKey service method) =
      regs.find? fun r => r.service = service ∧ r.method = method := by
  refine List.find?_congr fun r hr => ?_
  rw [decide_eq_decide]
  constructor
  · intro hKey
    exact makeKey_inj (hRegs r hr) h hKey
  · rintro ⟨rfl, rfl⟩
    rfl

section

variable {f : ErasedMethod σ} {req : Request} {resp : Response} {world world' : σ}

theorem dispatch_of_find (h : registry.find (makeKey req.service req.method) = some f)
    {payload : Bytes} (hRun : f req.payload world = (.ok payload, world')) :
    registry.dispatch req resp world =
      ⟨.ok true, { resp with status := .kOk, payload := payload }, world',
        some (makeKey req.service req.method)⟩ := by
  simp only [dispatch, h, hRun]

theorem dispatch_of_throw (h : registry.find (makeKey req.service req.method) = some f)
    {thrown : Thrown} (hRun : f req.payload world = (.error thrown, world')) :
    registry.dispatch req resp world =
      ⟨.error thrown, { resp with status := .kOk }, world',
        some (makeKey req.service req.method)⟩ := by
  simp only [dispatch, h, hRun]

theorem dispatch_of_miss (h : registry.find (makeKey req.service req.method) = none) :
    registry.dispatch req resp world =
      ⟨.ok false,
        { resp with
          status := if req.service ∈ registry.services then .kUnknownMethod else .kUnknownService
          payload := [] }, world, none⟩ := by
  simp only [dispatch, h]

end

/-- **The registry routes faithfully.** After any history of calls:

* a request runs the handler of the first successful registration with its spelling
  `service.method`, with `kOk` and the output of the handler (an exception of the handler is
  let through), and no other handler;
* if there is no dot in the service names that are involved, that is the registration of the
  same service and method;
* on a miss no handler runs, the payload is empty, and the status says whether some successful
  registration used the service name;
* a call of `registerMethod` succeeds if and only if `freeze` was not called, the names and the
  handler are not empty and the spelling is new, and a failed call changes nothing;
* after `freeze` no later call changes any result. -/
theorem routing_faithful (calls : List (RegistryCall σ)) (req : Request) (resp : Response)
    (world : σ) :
    (∀ r, ((registrations calls).find? fun r =>
          makeKey r.service r.method = makeKey req.service req.method) = some r →
      (∀ payload world', r.fn req.payload world = (.ok payload, world') →
        (run calls).dispatch req resp world =
          ⟨.ok true, { resp with status := .kOk, payload := payload }, world',
            some (makeKey req.service req.method)⟩) ∧
      ∀ thrown world', r.fn req.payload world = (.error thrown, world') →
        (run calls).dispatch req resp world =
          ⟨.error thrown, { resp with status := .kOk }, world',
            some (makeKey req.service req.method)⟩) ∧
    (0x2E ∉ req.service → (∀ r ∈ registrations calls, 0x2E ∉ r.service) →
      ((registrations calls).find? fun r =>
          makeKey r.service r.method = makeKey req.service req.method) =
        (registrations calls).find? fun r => r.service = req.service ∧ r.method = req.method) ∧
    (((registrations calls).find? fun r =>
          makeKey r.service r.method = makeKey req.service req.method) = none →
      ∃ status, (run calls).dispatch req resp world =
          ⟨.ok false, { resp with status := status, payload := [] }, world, none⟩ ∧
        ((∃ r ∈ registrations calls, r.service = req.service) → status = .kUnknownMethod) ∧
        ((∀ r ∈ registrations calls, r.service ≠ req.service) → status = .kUnknownService)) ∧
    (∀ service method fn,
      (((run calls).registerMethod service method fn).1 = true ↔
        RegistryCall.freeze ∉ calls ∧ service ≠ [] ∧ method ≠ [] ∧ fn ≠ none ∧
          ∀ r ∈ registrations calls, makeKey r.service r.method ≠ makeKey service method) ∧
      (((run calls).registerMethod service method fn).1 = false →
        ((run calls).registerMethod service method fn).2 = run calls)) ∧
    (RegistryCall.freeze ∈ calls → ∀ later,
      (run (calls ++ later)).dispatch req resp world = (run calls).dispatch req resp world) := by
  have hRecords := records_run calls
  have hFind := hRecords.find (makeKey req.service req.method)
  refine ⟨fun r hr => ?_, fun hDot hDots => find?_spelling_eq_pair hDot hDots, fun hMiss => ?_,
    fun service method fn => ⟨?_, registerMethod_failed⟩, fun hFreeze later => ?_⟩
  · rw [hr] at hFind
    exact ⟨fun _ _ hRun => dispatch_of_find hFind hRun, fun _ _ hRun => dispatch_of_throw hFind hRun⟩
  · rw [hMiss] at hFind
    refine ⟨_, dispatch_of_miss hFind, fun hSome => if_pos ((hRecords.services _).mpr hSome),
      fun hNone => if_neg fun hKnown => ?_⟩
    obtain ⟨r, hr, hService⟩ := (hRecords.services _).mp hKnown
    exact hNone r hr hService
  · have hFrozen : (run calls).frozen = false ↔ RegistryCall.freeze ∉ calls := by
      rw [← frozen_run, Bool.not_eq_true]
    have hNew : (run calls).find (makeKey service method) = none ↔
        ∀ r ∈ registrations calls, makeKey r.service r.method ≠ makeKey service method := by
      rw [hRecords.find, Option.map_eq_none_iff, List.find?_eq_none]
      simp
    rw [registerMethod_iff, hFrozen, hNew]
  · rw [run_append, foldl_of_frozen ((frozen_run calls).mpr hFreeze)]

end ServiceRegistry

end ReactorNet.Rpc
