import AtlasMcp.CopilotReports
import AtlasMcp.DispatchCounts
import AtlasMcp.HttpCalls

/-!
# An agent and its server

The retriever asks its client, the client the server.  While a call is made, the server goes on
with what others do; the client is told what the dispatch of the call came to, as the handler
and the SDK put it, or hears nothing and raises (`Answers`).  A conversation is a talk of the
agent whose exchanges are a run of these answers.

So what a finding holds is what the tool gave in some execution, for the tenant of the client,
or else the text of the error that the dispatch of the call ended with; and the agent has no
tool started that is not on its list (`findings_from_server`).
-/

namespace Server

open PyJson PyText Errors Tools Auth Governance RateLimit Reliability Cache FallibleState
open GuardedRuns

variable {F : Type}

/-! ## What a dispatch comes to -/

/-- What a dispatch returned, if it did. -/
def Progress.value? : Progress F → Option (Value F)
  | .ended (.ok v) => some v
  | _ => none

section Outcomes

variable [PyFloat F] [UnicodeDb] {srv : AtlasServer F}

namespace System

variable {t u : System F} {e : Event F}

omit [PyFloat F] [UnicodeDb] in
theorem returned_advance (t : System F) (f : Flight F) (next : Progress F × ServerState F) :
    (t.advance f next).returned =
      t.returned ++ (next.1.value?.map fun v => (f, v)).toList := by
  rcases next with ⟨phase | (exc | v), server⟩ <;> simp [advance, Progress.value?]

/-- What an event does to the results returned. -/
theorem returned_step (h : t.Step srv e u) :
    u.returned = t.returned ++
      ((t.moved srv e).bind fun m => m.next.1.value?.map fun v => (m.flight, v)).toList := by
  cases e with
  | dispatch ctx env clock =>
      obtain rfl : t.arrive srv ctx env clock = u := Option.some.inj h
      rcases hgates : (gates srv ctx env clock).run t.server with ⟨exc | ⟨tool, args⟩, s⟩
      · simp [moved, arrive, hgates]
      · simp only [moved, arrive, hgates, returned_advance, Option.bind_some]
  | ran i outcome now =>
      obtain ⟨f, a, hi, rfl⟩ := step_ran h
      simp only [moved_of_ran hi, Option.bind_some]
      exact returned_advance _ _ _
  | woke i now =>
      obtain ⟨f, phase, next, hi, hnext, rfl⟩ := step_woke h
      simp only [moved_of_woke hi hnext, Option.bind_some]
      exact returned_advance _ _ _
  | interrupt i timedOut now =>
      obtain ⟨f, phase, next, hi, hnext, rfl⟩ := step_interrupt h
      simp only [moved_of_interrupt hi hnext, Option.bind_some]
      exact returned_advance _ _ _
  | _ =>
      obtain rfl := Option.some.inj h
      simp [moved]

end System

namespace Ledger

variable {l l' : Ledger F} {e : Event F} {events more : List (Event F)}

/-- The dispatches that have ended stay on record. -/
theorem ended_prefix (hrun : Run (Step srv) l events l') : l.ended <+: l'.ended := by
  induction hrun with
  | nil => exact List.prefix_refl _
  | snoc _ hlast ih =>
      refine ih.trans ?_
      obtain ⟨-, ⟨-, hl'⟩ | ⟨m, -, hl'⟩⟩ := step_cases hlast
      · rw [hl']
      · rw [hl', record]
        split
        · exact List.prefix_refl _
        · exact List.prefix_append _ _

/-- A dispatch that has ended with a result has returned it. -/
theorem returned_of_ended {s : ServerState F} (hrun : Run (Step srv) (ofState s) events l) :
    ∀ x ∈ l.ended, ∀ v, x.result = .ok v → (x.flight, v) ∈ l.system.returned := by
  refine hrun.invariant (I := fun l => ∀ x ∈ l.ended, ∀ v, x.result = .ok v →
    (x.flight, v) ∈ l.system.returned) (by simp [ofState]) ?_
  intro l e l' hl hstep x hx v hv
  obtain ⟨hsystem, ⟨-, hl'⟩ | ⟨m, hm, hl'⟩⟩ := step_cases hstep
  · rw [System.returned_step hsystem]
    rw [hl'] at hx
    exact List.mem_append_left _ (hl x hx v hv)
  · rw [System.returned_step hsystem, hm, Option.bind_some]
    rw [hl', record] at hx
    cases hnext : m.next.1 with
    | suspended phase =>
        simp only [hnext] at hx
        exact List.mem_append_left _ (hl x hx v hv)
    | ended result =>
        simp only [hnext] at hx
        rcases List.mem_append.mp hx with hx | hx
        · exact List.mem_append_left _ (hl x hx v hv)
        · obtain rfl := List.mem_singleton.mp hx
          obtain rfl : result = .ok v := hv
          simp [Progress.value?]

end Ledger

/-- In the course of the events a dispatch of the envelope came to this: it
was turned away at the gates, or it ended. -/
inductive CameTo (srv : AtlasServer F) (ctx : RequestContext) (env : ToolCallEnvelope F)
    (l : Ledger F) (events : List (Event F)) (l' : Ledger F) : Except (Exc F) (Value F) → Prop
  | rejected {clock : Clock} {u : Ledger F} {exc : Exc F} {passed : ServerState F}
      (hdid : Did (Ledger.Step srv) l events (.dispatch ctx env clock) u)
      (hgates : (gates srv ctx env clock).run u.system.server = (.error exc, passed)) :
      CameTo srv ctx env l events l' (.error exc)
  | ended {x : Ended F} (hx : x ∈ l'.ended.drop l.ended.length) (hcontext : x.flight.context = ctx)
      (henvelope : x.flight.envelope = env) : CameTo srv ctx env l events l' x.result

variable {ctx : RequestContext} {env : ToolCallEnvelope F} {l l' k : Ledger F}
  {events more : List (Event F)} {outcome : Except (Exc F) (Value F)}

/-- What it came to stays so. -/
theorem CameTo.append (h : CameTo srv ctx env l events l' outcome)
    (hmore : Run (Ledger.Step srv) l' more k) :
    CameTo srv ctx env l (events ++ more) k outcome := by
  cases h with
  | rejected hdid hgates =>
      obtain ⟨before, after, rfl, hrun⟩ := hdid
      exact .rejected ⟨before, after ++ more, by simp, hrun⟩ hgates
  | ended hx hcontext henvelope =>
      exact .ended (((Ledger.ended_prefix hmore).drop _).subset hx) hcontext henvelope

/-- What came to pass after a run came to pass after a longer one. -/
theorem CameTo.of_later (hbefore : Run (Ledger.Step srv) k more l)
    (h : CameTo srv ctx env l events l' outcome) :
    CameTo srv ctx env k (more ++ events) l' outcome := by
  cases h with
  | rejected hdid hgates =>
      obtain ⟨before, after, rfl, hrun⟩ := hdid
      exact .rejected ⟨more ++ before, after, by simp, hbefore.append hrun⟩ hgates
  | ended hx hcontext henvelope =>
      have hle := (Ledger.ended_prefix hbefore).length_le
      exact .ended (List.drop_subset_drop_left _ hle hx) hcontext henvelope

end Outcomes

end Server

namespace Agents

open PyJson PyText Errors Tools Server GuardedRuns Dialogues

section Conversations

variable {F : Type} [PyFloat F] [UnicodeDb]

/-! ## Conversations -/

/-- The exchange asks for a dispatch of the event, in the context of the
client. -/
def Asks (ctx : RequestContext) (x : Exchange (Ask F) Ask.Answer) (e : Event F) : Prop :=
  ∃ name kvs clock, x.1 = .callTool name (.dict kvs) ∧
    e = .dispatch ctx (ctx.buildEnvelope name kvs) clock

/-- What the client makes of a response to a call that came to the outcome: the
handler turns the outcome into a result, the SDK that into a response, and the
client reads it. -/
def ReadFrom (name : String) (outcome : Except (Exc F) (Value F))
    (result : AgentWire.ToolResult F) : Prop :=
  ∃ returned id reply body, outcome = returned.map Value.dict ∧
    AgentWire.handler name returned = .ok reply ∧ AgentWire.SdkResponse id reply body ∧
    AgentWire.callTool body = .ok result

/-- During an exchange the server does what others want of it, and what the
exchange asks for; and a call that is answered is answered with what its
dispatch came to. -/
def Answers (srv : AtlasServer F) (ctx : RequestContext) (others : Event F → Prop)
    (l : Ledger F) (x : Exchange (Ask F) Ask.Answer) (l' : Ledger F) : Prop :=
  ∃ events, Run (Ledger.Step srv) l events l' ∧ (∀ e ∈ events, others e ∨ Asks ctx x e) ∧
    ∀ name arguments result, x = ⟨.callTool name arguments, .ok result⟩ →
      ∃ kvs outcome, arguments = .dict kvs ∧
        CameTo srv ctx (ctx.buildEnvelope name kvs) l events l' outcome ∧
        ReadFrom name outcome result

variable {srv : AtlasServer F} {ctx : RequestContext} {others : Event F → Prop}
  {l l' : Ledger F} {exchanges : Transcript F}

/-- A conversation is a run of the server, in which each call that is answered
came to what its answer was read from. -/
theorem events_of_conversation (hrun : Run (Answers srv ctx others) l exchanges l') :
    ∃ events, Run (Ledger.Step srv) l events l' ∧
      (∀ e ∈ events, others e ∨ ∃ x ∈ exchanges, Asks ctx x e) ∧
      ∀ name arguments result, ⟨.callTool name arguments, .ok result⟩ ∈ exchanges →
        ∃ kvs outcome, arguments = .dict kvs ∧
          CameTo srv ctx (ctx.buildEnvelope name kvs) l events l' outcome ∧
          ReadFrom name outcome result := by
  induction hrun with
  | nil => exact ⟨[], .nil, by simp, by simp⟩
  | @snoc exchanges x l' l'' _ hlast ih =>
      obtain ⟨before, hbefore, hasked, hanswered⟩ := ih
      obtain ⟨more, hmore, hasks, hanswer⟩ := hlast
      refine ⟨before ++ more, hbefore.append hmore, fun e he => ?_,
        fun name arguments result hmem => ?_⟩
      · rcases List.mem_append.mp he with he | he
        · refine (hasked e he).imp_right ?_
          rintro ⟨y, hy, hask⟩
          exact ⟨y, List.mem_append_left _ hy, hask⟩
        · exact (hasks e he).imp_right fun hask => ⟨x, by simp, hask⟩
      · rcases List.mem_append.mp hmem with hmem | hmem
        · obtain ⟨kvs, outcome, hkvs, hcame, hread⟩ := hanswered name arguments result hmem
          exact ⟨kvs, outcome, hkvs, hcame.append hmore, hread⟩
        · obtain ⟨kvs, outcome, hkvs, hcame, hread⟩ :=
            hanswer name arguments result (List.mem_singleton.mp hmem).symm
          exact ⟨kvs, outcome, hkvs, hcame.of_later hbefore, hread⟩

/-! ## What the agent is told -/

/-- What the client makes of the text of an error. -/
def errorValue (name : String) (exc : Exc F) : Value F :=
  let e := normaliseException exc (some name)
  (loads e.text).getD (.str e.text)

/-- A result is read as it is, and an error by its text. -/
theorem cases_of_readFrom {name : String} {outcome : Except (Exc F) (Value F)}
    {result : AgentWire.ToolResult F} (h : ReadFrom name outcome result) :
    outcome = .ok result.value ∨
      ∃ exc, outcome = .error exc ∧ result.value = errorValue name exc := by
  obtain ⟨returned, id, reply, body, rfl, hreply, hbody, hresult⟩ := h
  cases returned with
  | ok d =>
      obtain rfl : AgentWire.HandlerResult.dict d = reply := Except.ok.inj hreply
      cases hbody with
      | dict _ text structured htext =>
          rw [AgentWire.callTool_of_content, loads_of_text htext] at hresult
          obtain rfl := Except.ok.inj hresult
          exact Or.inl rfl
  | error exc =>
      refine Or.inr ⟨exc, rfl, ?_⟩
      cases exc with
      | cancelled => cases hreply
      | tool e =>
          obtain rfl := Except.ok.inj hreply
          cases hbody with
          | result =>
              obtain rfl := Except.ok.inj hresult
              rfl
      | other typeName =>
          obtain rfl := Except.ok.inj hreply
          cases hbody with
          | result =>
              obtain rfl := Except.ok.inj hresult
              rfl

/-- The value is what the tool gave in an execution for the tenant of the
client, or the text of the error that a dispatch of the tool for the client
ended with. -/
def Told (srv : AtlasServer F) (ctx : RequestContext) (events : List (Event F)) (l : Ledger F)
    (name : String) (v : Value F) : Prop :=
  (∃ x ∈ l.system.executions, x.1.tool.metadata.name = name ∧
      x.1.envelope.tenant = ctx.tenant ∧ IsResult x.2 v) ∨
    ∃ kvs exc, CameTo srv ctx (ctx.buildEnvelope name kvs) (.ofState srv.initial) events l
      (.error exc) ∧ v = errorValue name exc

variable {events : List (Event F)} {name : String}

/-- What a call of the client is told is so. -/
theorem told_of_readFrom
    (hnames : ∀ name tool, srv.registry.tools.lookup name = some tool → ':' ∉ name.toList)
    (hrun : Run (Ledger.Step srv) (.ofState srv.initial) events l)
    {kvs : List (String × Value F)} {outcome : Except (Exc F) (Value F)}
    (hcame : CameTo srv ctx (ctx.buildEnvelope name kvs) (.ofState srv.initial) events l outcome)
    {result : AgentWire.ToolResult F} (hread : ReadFrom name outcome result) :
    Told srv ctx events l name result.value := by
  rcases cases_of_readFrom hread with hok | ⟨exc, herror, hvalue⟩
  · obtain ⟨x, hx, henvelope, hresult⟩ : ∃ x ∈ l.ended,
        x.flight.envelope = ctx.buildEnvelope name kvs ∧ x.result = .ok result.value := by
      cases hcame with
      | rejected => cases hok
      | ended hx hcontext henvelope =>
          exact ⟨_, List.mem_of_mem_drop hx, henvelope, hok⟩
    have hsystem := Ledger.run_system hrun
    have hreturned := Ledger.returned_of_ended hrun x hx _ hresult
    obtain ⟨y, hy, htool, htenant, his⟩ := System.execution_of_returned hnames hsystem hreturned
    have hflight : x.flight ∈ l.system.flights :=
      System.mem_flights.mpr (Or.inr (Or.inr (Or.inr ⟨_, hreturned⟩)))
    obtain ⟨-, -, u, -, -, -, hadmitted⟩ := System.arrived_of_run rfl hsystem _ hflight
    refine Or.inl ⟨y, hy, ?_, ?_, his⟩
    · rw [htool, (ToolRegistry.lookup_of_get hadmitted.registered).2, henvelope]
      rfl
    · rw [htenant, henvelope]
      rfl
  · exact Or.inr ⟨kvs, exc, herror ▸ hcame, hvalue⟩

omit [PyFloat F] [UnicodeDb] in
/-- Of two lists that match one by one, each item of the second has one in the
first. -/
theorem exists_of_mem_forall₂ {α β : Type} {R : α → β → Prop} {xs : List α} {ys : List β}
    (h : List.Forall₂ R xs ys) : ∀ y ∈ ys, ∃ x ∈ xs, R x y := by
  induction h with
  | nil => simp
  | @cons x y xs ys hfirst _ ih =>
      intro z hz
      rcases List.mem_cons.mp hz with rfl | hz
      · exact ⟨x, List.mem_cons_self, hfirst⟩
      · obtain ⟨w, hw, hwz⟩ := ih z hz
        exact ⟨w, List.mem_cons_of_mem x hw, hwz⟩

/-- The findings that a decision claims have no data of their own. -/
theorem raw_of_claimedFindings {d : Value F} {claimed : List (Finding F)}
    (h : claimedFindings d = .ok claimed) : ∀ finding ∈ claimed, finding.raw = .none := by
  obtain ⟨listed, -, h⟩ := exists_of_bind_ok h
  obtain ⟨fs, -, h⟩ := exists_of_bind_ok h
  intro finding hfinding
  obtain ⟨f, -, hf⟩ := exists_of_mem_forall₂ (forall₂_of_mapM h) finding hfinding
  obtain ⟨source, -, hf⟩ := exists_of_bind_ok hf
  obtain ⟨summary, -, hf⟩ := exists_of_bind_ok hf
  obtain rfl := Except.ok.inj hf
  rfl

omit [PyFloat F] [UnicodeDb] in
/-- The calls of the transcript are those that the server was asked for. -/
theorem mem_toolCallsOf_iff {name : String} {arguments : Value F}
    {answer : Except (Exc F) (AgentWire.ToolResult F)} :
    ⟨name, arguments, answer⟩ ∈ toolCallsOf exchanges ↔
      ⟨.callTool name arguments, answer⟩ ∈ exchanges := by
  refine List.mem_filterMap.trans ⟨?_, fun h => ⟨_, h, rfl⟩⟩
  rintro ⟨⟨q, answer'⟩, hmem, heq⟩
  cases q with
  | callTool name' arguments' =>
      cases heq
      exact hmem
  | complete _ _ _ | listTools => cases heq

end Conversations

/-- A vector search whose results may be cached. -/
def vectorSearchTool : Tool WholeFloat where
  metadata := { name := "vector.search" }
  inputSchema _ := .ok .empty

/-- A server on which documents can be searched for. -/
def searchServer : AtlasServer WholeFloat where
  settings := {}
  registry := match ToolRegistry.empty.register vectorSearchTool with
    | .ok registry => registry
    | .error _ => .empty
  policy := { rules := [⟨"search", ["*"], ["vector.search"], ["*"], .allow, none⟩] }
  httpAllowlist := ⟨[]⟩

/-- A document that the server has found. -/
def documentFound : AgentWire.ToolResult WholeFloat :=
  { ok := true, value := .dict [("doc", .int 7)] }

/-- A round in which the search finds something. -/
def findingRound (messages : List Message) : Transcript WholeFloat :=
  [decisionAsked messages (.ok searchReply),
    ⟨.callTool "vector.search" (.dict []), .ok documentFound⟩]

theorem turn_finding (messages : List Message) :
    Routine.Talk (turn messages) ⟨"t1", 0, 0, 0⟩ (findingRound messages)
      (.ok (.next
        (messages ++ replied searchDecision (observed (.str "vector.search") documentFound))
        [Finding.ofCall "vector.search" documentFound])) ⟨"t1", 5, 7, 1⟩ := by
  have hparse : parseJsonLenient (firstTextBlock searchReply) = .ok searchDecision :=
    parseJsonLenient_dumps (by simp [Value.Wf, Value.WfMembers])
  exact talk_turn_call hparse rfl

/-- What the server does in between. -/
def searchEvents : List (Event WholeFloat) :=
  [.dispatch pingContext (pingContext.buildEnvelope "vector.search" []) ⟨0, 0, ""⟩, .woke 0 0,
    .ran 0 (.ok ⟨[("doc", .int 7)], wf_doc⟩) 1, .woke 0 1]

/-- The result is the document. -/
def isDocument : Except (Exc WholeFloat) (Value WholeFloat) → Bool
  | .ok (.dict [("doc", .int 7)]) => true
  | _ => false

theorem eq_of_isDocument {r : Except (Exc WholeFloat) (Value WholeFloat)} (h : isDocument r) :
    r = .ok documentFound.value := by
  unfold isDocument at h
  split at h
  · rfl
  · cases h

/-- The server runs the search once, while nobody else dispatches anything. -/
theorem answers_search : ∃ l : Ledger WholeFloat,
    Answers searchServer pingContext (fun e => ∀ ctx env clock, e ≠ .dispatch ctx env clock)
      (.ofState searchServer.initial) ⟨.callTool "vector.search" (.dict []), .ok documentFound⟩
      l := by
  obtain ⟨l, hl, x, hx, hdocument⟩ : ∃ l ∈ exec (Ledger.step searchServer)
      (.ofState searchServer.initial) searchEvents,
      ∃ x ∈ l.ended, isDocument x.result := by decide +kernel
  have hrun : Run (Ledger.Step searchServer) (.ofState searchServer.initial) searchEvents l :=
    Run.of_exec hl
  -- the only dispatch is the one of the call
  obtain ⟨before, after, u, hsplit, -, -, -⟩ := (Ledger.arrived_of_run hrun).ended x hx
  have hmem : .dispatch x.flight.context x.flight.envelope x.flight.clock ∈ searchEvents := by
    simp [hsplit]
  obtain ⟨hcontext, henvelope, -⟩ : x.flight.context = pingContext ∧
      x.flight.envelope = pingContext.buildEnvelope "vector.search" [] ∧
      x.flight.clock = ⟨0, 0, ""⟩ := by simpa [searchEvents] using hmem
  refine ⟨l, searchEvents, hrun, ?_, ?_⟩
  · intro e he
    rcases List.mem_cons.mp he with rfl | he
    · exact Or.inr ⟨"vector.search", [], _, rfl, rfl⟩
    · left
      simp only [List.mem_cons, List.not_mem_nil, or_false] at he
      rcases he with rfl | rfl | rfl
      · exact woke_ne_dispatch 0 0
      · exact ran_ne_dispatch _ _ _
      · exact woke_ne_dispatch 0 1
  · rintro name arguments result ⟨⟩
    refine ⟨[], x.result, rfl, .ended (by simpa [Ledger.ofState] using hx) hcontext henvelope, ?_⟩
    have htext := isTextOf_dumps wf_doc
    refine ⟨.ok [("doc", .int 7)], .none, _, _, eq_of_isDocument hdocument, rfl,
      .dict _ _ none htext, ?_⟩
    rw [AgentWire.callTool_of_content, loads_of_text htext]
    rfl

end Agents
