import AtlasMcp.DispatchRuns

/-!
# Nothing runs or returns past a closed gate

Every start of a tool and every value returned in a run belongs to a dispatch that
arrived earlier in the run, and whose gates all let it through in the state it found
(`gated_runs`).  A dispatch that is not authorised changes nothing at all.

The work is a frame argument: an event adds to the dispatches on record only the one
that arrives with it.
-/

namespace Server

open PyJson PyText Errors Tools Auth Governance RateLimit Reliability Cache FallibleState
open GuardedRuns

variable {F : Type}

namespace System

/-- Every dispatch on record. -/
def flights (t : System F) : List (Flight F) :=
  t.inFlight.map Prod.fst ++ (t.started ++
    (t.executions.map Prod.fst ++ t.returned.map Prod.fst))

/-- A flight is one of the system if it is under way, has started, has been
executed, or has returned. -/
theorem mem_flights {t : System F} {f : Flight F} :
    f ∈ t.flights ↔ (∃ phase, (f, phase) ∈ t.inFlight) ∨ f ∈ t.started ∨
      (∃ r, (f, r) ∈ t.executions) ∨ ∃ v, (f, v) ∈ t.returned := by
  simp [flights]

/-- A dispatch that goes on or ends adds at most itself. -/
theorem flights_advance {t : System F} {f g : Flight F}
    {next : Progress F × ServerState F} (h : g ∈ (t.advance f next).flights) :
    g ∈ t.flights ∨ g = f := by
  rw [mem_flights] at h ⊢
  rcases next with ⟨phase | (exc | v), server⟩
  · cases phase <;> simp only [advance, List.mem_append, List.mem_singleton] at h <;> grind
  · exact Or.inl h
  · simp only [advance, List.mem_append, List.mem_singleton] at h
    grind

/-- Taking a dispatch out of the waiting ones adds nothing. -/
theorem flights_without {t : System F} {i : ℕ} {g : Flight F}
    (h : g ∈ (t.without i).flights) : g ∈ t.flights := by
  rw [mem_flights] at h ⊢
  rcases h with ⟨phase, h⟩ | h
  · exact Or.inl ⟨phase, List.mem_of_mem_eraseIdx h⟩
  · exact Or.inr h

/-- A dispatch that waits is on record. -/
theorem flights_of_waiting {t : System F} {i : ℕ} {f : Flight F} {phase : Phase F}
    (hi : t.inFlight[i]? = some (f, phase)) : f ∈ t.flights := by
  have hmem : (f, phase) ∈ t.inFlight := List.mem_of_getElem? hi
  exact mem_flights.mpr (Or.inl ⟨phase, hmem⟩)

/-- A dispatch that waits and goes on adds nothing. -/
theorem flights_resumed {t : System F} {i : ℕ} {f g : Flight F} {phase : Phase F}
    {next : Progress F × ServerState F} (hi : t.inFlight[i]? = some (f, phase))
    (h : g ∈ ((t.without i).advance f next).flights) : g ∈ t.flights := by
  rcases flights_advance h with hold | rfl
  · exact flights_without hold
  · exact flights_of_waiting hi

variable [PyFloat F] [UnicodeDb]

omit [PyFloat F] [UnicodeDb] in
/-- An execution is of the dispatch whose tool ended. -/
theorem flights_toolEnded {srv : AtlasServer F} {t : System F} {f g : Flight F}
    {a : Attempt} {outcome : Except (Exc F) (ToolResult F)} {now : ℚ}
    (h : g ∈ (t.toolEnded srv f a outcome now).flights) : g ∈ t.flights ∨ g = f := by
  rcases flights_advance h with h | h
  · rw [mem_flights] at h ⊢
    cases outcome with
    | ok r =>
        simp only [List.mem_append, List.mem_singleton, Prod.mk.injEq] at h
        grind
    | error exc => exact Or.inl h
  · exact Or.inr h

/-- **Frame.**  After an event a dispatch is on record only if it was before,
or if it arrived with the event and its gates let it through. -/
theorem flights_step {srv : AtlasServer F} {t u : System F} {e : Event F} {f : Flight F}
    (h : t.Step srv e u) (hf : f ∈ u.flights) :
    f ∈ t.flights ∨ ∃ ctx env clock tool args s, e = .dispatch ctx env clock ∧
      f = flightOf srv ctx env clock t.server tool args ∧
      (gates srv ctx env clock).run t.server = (.ok (tool, args), s) := by
  cases e with
  | dispatch ctx env clock =>
      obtain rfl : t.arrive srv ctx env clock = u := Option.some.inj h
      unfold arrive at hf
      split at hf
      next => exact Or.inl hf
      next tool args s hgates =>
          rcases flights_advance hf with hold | rfl
          · exact Or.inl hold
          · exact Or.inr ⟨ctx, env, clock, tool, args, s, rfl, rfl, hgates⟩
  | ran i outcome now =>
      obtain ⟨g, a, hi, rfl⟩ := step_ran h
      rcases flights_toolEnded hf with hold | rfl
      · exact Or.inl (flights_without hold)
      · exact Or.inl (flights_of_waiting hi)
  | woke i now =>
      obtain ⟨g, phase, next, hi, -, rfl⟩ := step_woke h
      exact Or.inl (flights_resumed hi hf)
  | interrupt i timedOut now =>
      obtain ⟨g, phase, next, hi, -, rfl⟩ := step_interrupt h
      exact Or.inl (flights_resumed hi hf)
  | invalidateKey key =>
      obtain rfl := Option.some.inj h
      exact Or.inl hf
  | invalidateTool tenant tool =>
      obtain rfl := Option.some.inj h
      exact Or.inl hf
  | invalidateTenant tenant =>
      obtain rfl := Option.some.inj h
      exact Or.inl hf
  | judge approvalId verdict approver now =>
      obtain rfl := Option.some.inj h
      exact Or.inl hf

/-- The dispatch arrived in the course of the events, and all its gates let it
through in the state it found. -/
def Arrived (srv : AtlasServer F) (start : System F) (events : List (Event F))
    (f : Flight F) : Prop :=
  ∃ before after u, events = before ++ .dispatch f.context f.envelope f.clock :: after ∧
    Run (Step srv) start before u ∧ f.arrival = u.server ∧
    Admitted srv u.server f.context f.envelope f.clock f.tool f.args

/-- Every dispatch on record has arrived. -/
theorem arrived_of_run {srv : AtlasServer F} {start t : System F} {events : List (Event F)}
    (hstart : start.flights = []) (hrun : Run (Step srv) start events t) :
    ∀ f ∈ t.flights, Arrived srv start events f := by
  induction hrun with
  | nil => simp [hstart]
  | @snoc ls e u t hbefore hlast ih =>
      intro f hf
      rcases flights_step hlast hf with
        hold | ⟨ctx, env, clock, tool, args, s, rfl, rfl, hgates⟩
      · obtain ⟨before, after, v, rfl, hv, harrival, hadmitted⟩ := ih f hold
        exact ⟨before, after ++ [e], v, by simp, hv, harrival, hadmitted⟩
      · exact ⟨ls, [], u, rfl, hbefore, rfl, admitted_of_gates hgates⟩

/-- **Gated runs.**  From every state of a server, whatever starts a tool or
returns a value in a run is a dispatch that arrived and was admitted; and a
dispatch that is not authorised raises and leaves everything as it was. -/
theorem gated_runs (srv : AtlasServer F) (s : ServerState F) :
    (∀ events t, Run (Step srv) { server := s } events t →
      ∀ f, (f ∈ t.started ∨ ∃ v, (f, v) ∈ t.returned) →
        Arrived srv { server := s } events f) ∧
    ∀ (t : System F) (ctx : RequestContext) (env : ToolCallEnvelope F) (clock : Clock),
      (¬ ∃ tool args, Authorised srv ctx env tool args) →
        (∃ exc, (gates srv ctx env clock).run t.server = (.error exc, t.server)) ∧
        t.Step srv (.dispatch ctx env clock) t := by
  constructor
  · intro events t hrun f hf
    have hrecord : f ∈ t.flights := mem_flights.mpr (Or.inr (hf.imp_right Or.inr))
    exact arrived_of_run rfl hrun f hrecord
  · intro t ctx env clock h
    obtain ⟨exc, hexc⟩ := gates_of_not_authorised clock t.server h
    have hstep : t.Step srv (.dispatch ctx env clock) t := by
      simp [Step, step, arrive, hexc]
    exact ⟨⟨exc, hexc⟩, hstep⟩

end System

/-- A health check. -/
def pingTool : Tool WholeFloat where
  metadata := { name := "server.ping", cacheable := false }
  inputSchema _ := .ok .empty

/-- A server that lets everybody ping it. -/
def pingServer : AtlasServer WholeFloat where
  settings := {}
  registry := match ToolRegistry.empty.register pingTool with
    | .ok registry => registry
    | .error _ => .empty
  policy := { rules := [⟨"ping", ["*"], ["server.ping"], ["*"], .allow, none⟩] }
  httpAllowlist := ⟨[]⟩

/-- Someone of the tenant, without scopes. -/
def pingContext : RequestContext := { subject := "agent", tenant := "acme" }

/-- A ping that is answered. -/
def pinged : List (Event WholeFloat) :=
  [.dispatch pingContext (pingContext.buildEnvelope "server.ping" []) ⟨0, 0, ""⟩,
    .woke 0 0, .ran 0 (.ok ⟨[("ok", .bool true)], by simp [Value.Wf, Value.WfMembers]⟩) 1,
    .woke 0 1]

/-- A run in which a ping comes through the gates, and is seen to have done
so. -/
theorem ping_is_gated :
    (∃ t, Run (System.Step pingServer) { server := pingServer.initial } pinged t ∧
      t.started.length = 1 ∧ t.returned.length = 1 ∧
      ∀ f, (f ∈ t.started ∨ ∃ v, (f, v) ∈ t.returned) →
        System.Arrived pingServer { server := pingServer.initial } pinged f) ∧
    (System.start pingServer).Step pingServer
      (.dispatch pingContext (pingContext.buildEnvelope "server.pong" []) ⟨0, 0, ""⟩)
      (System.start pingServer) := by
  have hsome : (exec (System.step pingServer) { server := pingServer.initial }
      pinged).isSome := by decide +kernel
  have hlengths : ((exec (System.step pingServer) { server := pingServer.initial }
      pinged).map fun t => (t.started.length, t.returned.length)) = some (1, 1) := by
    decide +kernel
  obtain ⟨t, ht⟩ := Option.isSome_iff_exists.mp hsome
  obtain ⟨hstarted, hreturned⟩ : t.started.length = 1 ∧ t.returned.length = 1 := by
    simpa [ht] using hlengths
  have hrun := Run.of_exec ht
  refine ⟨⟨t, hrun, hstarted, hreturned,
    (System.gated_runs pingServer pingServer.initial).1 _ t hrun⟩, ?_⟩
  refine ((System.gated_runs pingServer pingServer.initial).2 _ _ _ _ ?_).2
  intro hauthorised
  obtain ⟨tool, args, h⟩ := hauthorised
  have hunknown : (pingServer.registry.get "server.pong").toOption.isNone := by
    decide +kernel
  have hregistered := h.registered
  simp only [RequestContext.buildEnvelope] at hregistered
  rw [hregistered] at hunknown
  cases hunknown

end Server
