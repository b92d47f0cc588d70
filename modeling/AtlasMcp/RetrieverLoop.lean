import AtlasMcp.AgentBase

/-!
# The retriever

The retriever asks the model for decisions, at most `maxIterations` of them: to call a tool,
or that it is done, with findings of its own.  `turn` is one round of that loop.
`turn_cases` says what a round can do, and by induction over the rounds
`RetrieverAgent.act_bounded` what a run can do, whatever the model answers.
-/

namespace Agents

open PyJson PyText Errors Dialogues
open AgentWire (ToolResult)

/-! ## The plan -/

/-- Something that the plan wants to be found out. -/
structure PlanStep where
  id : String
  description : String
  priority : ℤ

/-- What the planner returns: what is to be found out, and the id of the
customer, which code has found in the question. -/
structure Plan where
  needs : List PlanStep
  customerIdRequired : Bool
  notes : String
  customerId : Option String := none

/-! ## The loop -/

/-- What was found: where it comes from, in short, and the answer itself. -/
structure Finding (F : Type) where
  source : String
  summary : String
  raw : Value F := .none

/-- What the retriever returns. -/
structure RetrievalResult (F : Type) where
  findings : List (Finding F) := []
  iterationsUsed : ℕ := 0
  exceededBudget : Bool := false

/-- `_ALLOWED_TOOLS`. -/
def allowedTools : List String :=
  ["customer.build_context", "semantic_search", "hybrid_search", "postgres.query",
    "elasticsearch.search", "vector.search"]

/-- `RETRIEVER_SYSTEM`. -/
def retrieverSystem : String :=
  "You are the Retriever agent. You have access to MCP tools that read data.
Given a plan of information needs and a customer id, you decide which tools
to call and with what arguments. You CAN call multiple tools. You MUST NOT
call destructive tools (anything with \"write\", \"delete\", \"send\", or \"put\"
in the name).

Preferred tool order:
1. customer.build_context — a single fan-out workflow. Prefer this over
   calling individual atomic tools.
2. hybrid_search or semantic_search — for open-ended documentation lookups.
3. Atomic tools (postgres.query, elasticsearch.search, vector.search) only
   when the composed tools do not fit.

Never construct SQL that contains INSERT, UPDATE, DELETE, DROP, or TRUNCATE.
Never set a top_k above 20.

After each tool result, decide if you have enough to answer. When you are
done, emit exactly one JSON object:
\x7b \"done\": true, \"findings\": [ \x7b\"source\": \"<tool>\", \"summary\": \"<1-3 lines>\"\x7d ] \x7d
"

/-- The retriever, with the number of decisions that it grants the model. -/
structure RetrieverAgent where
  maxIterations : ℤ := 6

section Retriever

variable {F : Type} [PyFloat F] [UnicodeDb]

/-- The allowed tool that a value names, if any; a value without a hash cannot
be looked up in a set. -/
def allowedTool? : Value F → Except (Exc F) (Option String)
  | .str name => .ok (if name ∈ allowedTools then some name else none)
  | .list _ | .dict _ => .error (.other "TypeError")
  | _ => .ok none

/-- `_summarise_result`. -/
def summariseResult (result : ToolResult F) (maxChars : ℕ) : String :=
  let text := asAgentObservation result
  if text.toList.length ≤ maxChars then text
  else String.ofList (text.toList.take maxChars) ++ "… (truncated)"

/-- The finding that the loop makes of a tool's result. -/
def Finding.ofCall (name : String) (result : ToolResult F) : Finding F where
  source := name
  summary := summariseResult result 500
  raw := result.value

/-- The findings a decision brings along. -/
def claimedFindings (decision : Value F) : Except (Exc F) (List (Finding F)) := do
  (← iterate (← get decision "findings" (.list []))).mapM fun f => do
    return { source := pyStrValue (← get f "source" (.str ""))
             summary := pyStrValue (← get f "summary" (.str "")) }

/-- How the loop takes a decision. -/
inductive Decision (F : Type)
  | done (claimed : List (Finding F))
  | silent
  | forbidden (tool : Value F)
  | call (name : String) (arguments : Value F)

/-- What a decision of the model comes to, once its JSON was read: to end,
with the findings that it claims; to call a tool, or one that is not allowed;
or nothing of these. -/
def readDecision (decision : Value F) : Except (Exc F) (Decision F) := do
  if (← get decision "done" .none).truthy then
    return .done (← claimedFindings decision)
  else
    let tool ← get decision "tool" .none
    let arguments ← get decision "arguments" .none
    if tool.truthy then
      match ← allowedTool? tool with
      | some name => return .call name (if arguments.truthy then arguments else .dict [])
      | none => return .forbidden tool
    else return .silent

/-- What a round comes to: the loop is left, or goes on with more messages and
findings. -/
inductive Turn (F : Type)
  | finished (claimed : List (Finding F))
  | next (messages : List Message) (found : List (Finding F))

/-- The two messages that end a round. -/
def replied (decision : Value F) (content : String) : List Message :=
  [⟨"assistant", dumps decision⟩, ⟨"user", content⟩]

/-- What the model is told when its decision was neither. -/
def reminder : String :=
  "Your last response had no `tool` and no `done`. " ++
    "Emit \x7b\"done\": true, \"findings\": [...]\x7d if you have enough, " ++
    "otherwise \x7b\"tool\": \"<name>\", \"arguments\": \x7b...\x7d\x7d."

/-- What the model is told about the result of its call. -/
def observed (tool : Value F) (observation : ToolResult F) : String :=
  "Tool `" ++ pyStrValue tool ++ "` result:\n" ++ asAgentObservation observation ++
    "\n\nDecide next step."

/-- What the model is told when the tool is none of the four; the call is not
sent. -/
def toolNotAllowed (tool : Value F) : ToolResult F where
  ok := false
  errorCode := .str "tool_not_allowed"
  hint := .str (pyReprValue tool ++ " is not in the retriever's allow-list")

/-- One round of the loop. -/
def turn (messages : List Message) : Task F (Turn F) := do
  let decision ← completeJson retrieverSystem messages 800
  match ← Routine.ofExcept (readDecision decision) with
  | .done claimed => return .finished claimed
  | .silent => return .next (messages ++ replied decision reminder) []
  | .forbidden tool =>
      return .next (messages ++ replied decision (observed tool (toolNotAllowed tool))) []
  | .call name arguments => do
      Routine.update fun run => { run with toolCalls := run.toolCalls + 1 }
      let result ← Routine.asking (.callTool name arguments) id
      return .next (messages ++ replied decision (observed (.str name) result))
        [Finding.ofCall name result]

/-- The loop after `used` rounds. -/
def loop (used : ℕ) : ℕ → List Message → List (Finding F) → Task F (RetrievalResult F)
  | 0, _, findings =>
      return { findings := findings, iterationsUsed := used, exceededBudget := true }
  | remaining + 1, messages, findings => do
      match ← turn messages with
      | .finished claimed =>
          return { findings := findings ++ claimed, iterationsUsed := used + 1 }
      | .next messages found => loop (used + 1) remaining messages (findings ++ found)

/-- `_fetch_tool_specs`. -/
def fetchToolSpecs : Task F (List (Value F)) := do
  let tools ← Routine.asking .listTools id
  Routine.ofExcept do
    (← iterate tools).filterM fun t => do
      return (← allowedTool? (← get t "name" .none)).isSome

/-- `_build_initial_prompt`; the specs have a `name`. -/
def buildInitialPrompt (question : String) (plan : Plan) (toolSpecs : List (Value F)) :
    Except (Exc F) String := do
  let customer := plan.customerId.getD ""
  let specs ← toolSpecs.mapM fun t => do
    return "- " ++ pyStrValue (← get t "name" .none) ++ ": " ++
      pyStrValue (← get t "description" (.str ""))
  return "\n".intercalate
    (["Customer question: " ++ question, "",
        "Customer id (if extracted): " ++ if customer = "" then "<unknown>" else customer, "",
        "Retrieval plan:"] ++
      plan.needs.map (fun step => "- [" ++ step.id ++ "] (p" ++
        String.ofList (intText step.priority) ++ ") " ++ step.description) ++
      ["", "Available tools:"] ++ specs ++
      ["", "Respond with EITHER " ++
        "\x7b\"tool\": \"<name>\", \"arguments\": \x7b...\x7d\x7d " ++
        "to call a tool, OR " ++
        "\x7b\"done\": true, \"findings\": [\x7b\"source\": \"<tool>\", " ++
        "\"summary\": \"...\"\x7d]\x7d when you have enough information."])

/-- `RetrieverAgent.act`: the tools are listed once, and the rest is the
loop. -/
def RetrieverAgent.act (agent : RetrieverAgent) (plan : Plan) (question : String) :
    Task F (RetrievalResult F) := do
  let toolSpecs ← fetchToolSpecs
  let prompt ← Routine.ofExcept (buildInitialPrompt question plan toolSpecs)
  loop 0 agent.maxIterations.toNat [⟨"user", prompt⟩] []

/-! ## What a round can do -/

/-- The decision says that the loop is done. -/
def IsDone : Value F → Prop
  | .dict kvs => ((dictGet kvs "done").getD .none).truthy
  | _ => False

/-- What a decision is taken for. -/
def TakenAs (d : Value F) : Decision F → Prop
  | .done claimed => IsDone d ∧ claimedFindings d = .ok claimed
  | .call name _ => ¬ IsDone d ∧ name ∈ allowedTools
  | _ => ¬ IsDone d

omit [PyFloat F] [UnicodeDb] in
/-- A name that the set lookup finds is a name of the set. -/
theorem mem_of_allowedTool? {tool : Value F} {name : String}
    (h : allowedTool? tool = .ok (some name)) : name ∈ allowedTools := by
  unfold allowedTool? at h
  split at h
  · split at h
    next hmem =>
      cases h
      exact hmem
    · cases h
  all_goals cases h

/-- `done` is looked at first. -/
theorem takenAs_of_readDecision {d : Value F} {x : Decision F} (h : readDecision d = .ok x) :
    TakenAs d x := by
  obtain ⟨kvs, rfl⟩ : ∃ kvs, d = .dict kvs := by
    cases d with
    | dict kvs => exact ⟨kvs, rfl⟩
    | _ => cases h
  have hget (key : String) :
      get (.dict kvs : Value F) key .none = .ok ((dictGet kvs key).getD .none) := rfl
  rw [readDecision, hget, hget, hget] at h
  simp only [bind, Except.bind, pure, Except.pure] at h
  split at h
  next hdone =>
    cases hclaimed : claimedFindings (.dict kvs : Value F) with
    | error e =>
        rw [hclaimed] at h
        cases h
    | ok claimed =>
        rw [hclaimed] at h
        cases h
        exact ⟨hdone, hclaimed⟩
  next hdone =>
    split at h
    · cases hallowed : allowedTool? ((dictGet kvs "tool").getD .none) with
      | error e =>
          rw [hallowed] at h
          cases h
      | ok found =>
          rw [hallowed] at h
          cases found with
          | none =>
              cases h
              exact hdone
          | some name =>
              cases h
              exact ⟨hdone, mem_of_allowedTool? hallowed⟩
    · cases h
      exact hdone

variable {messages : List Message} {run run' : AgentRun} {l : Transcript F}

/-- The exchange in which the model is asked for a decision. -/
def decisionAsked (messages : List Message) (answer : Except (Exc F) Completion) :
    Exchange (Ask F) Ask.Answer :=
  ⟨.complete retrieverSystem messages 800, answer⟩

/-- What a round can do: it fails for want of a decision that it can read, or
takes one. -/
theorem turn_cases {r : Except (Exc F) (Turn F)} (h : Routine.Talk (turn messages) run l r run') :
    (∃ answer e, l = [decisionAsked messages answer] ∧ r = .error e ∧
      run'.toolCalls = run.toolCalls ∧ ∀ resp d, answer = .ok resp →
        parseJsonLenient (firstTextBlock resp) = .ok d → readDecision d = .error e) ∨
    ∃ resp d, parseJsonLenient (firstTextBlock resp) = .ok d ∧
      ((∃ claimed, readDecision d = .ok (.done claimed) ∧
          l = [decisionAsked messages (.ok resp)] ∧ r = .ok (.finished claimed) ∧
          run' = run.charged resp) ∨
        (∃ messages' x, readDecision d = .ok x ∧ (x = .silent ∨ ∃ tool, x = .forbidden tool) ∧
          l = [decisionAsked messages (.ok resp)] ∧ r = .ok (.next messages' []) ∧
          run' = run.charged resp) ∨
        ∃ name arguments answer, readDecision d = .ok (.call name arguments) ∧
          l = [decisionAsked messages (.ok resp), ⟨.callTool name arguments, answer⟩] ∧
          run' = { run.charged resp with toolCalls := run.toolCalls + 1 } ∧
          ((∃ e, answer = .error e ∧ r = .error e) ∨ ∃ result messages', answer = .ok result ∧
            r = .ok (.next messages' [Finding.ofCall name result]))) := by
  rw [turn, Routine.talk_bind_iff] at h
  rcases h with ⟨e, hjson, rfl⟩ | ⟨d, first, rest, u, rfl, hjson, h⟩
  · refine Or.inl ?_
    rcases talk_completeJson_iff.mp hjson with ⟨e', rfl, -, rfl⟩ | ⟨resp, rfl, hparse, rfl⟩
    · exact ⟨_, e, rfl, rfl, rfl, fun _ _ habsurd => nomatch habsurd⟩
    · refine ⟨_, e, rfl, rfl, rfl, ?_⟩
      rintro _ d ⟨⟩ hd
      cases hparse.trans hd
  · rcases talk_completeJson_iff.mp hjson with ⟨e', -, habsurd, -⟩ | ⟨resp, rfl, hparse, rfl⟩
    · cases habsurd
    rw [Routine.talk_bind_iff] at h
    rcases h with ⟨e, hread, rfl⟩ | ⟨x, first, rest, u, rfl, hread, h⟩
    · obtain ⟨rfl, hd, rfl⟩ := Routine.talk_ofExcept_iff.mp hread
      refine Or.inl ⟨_, e, rfl, rfl, rfl, ?_⟩
      rintro _ d' ⟨⟩ hd'
      rw [← Except.ok.inj (hparse.trans hd'), hd]
    obtain ⟨rfl, hx, rfl⟩ := Routine.talk_ofExcept_iff.mp hread
    refine Or.inr ⟨resp, d, hparse.symm, ?_⟩
    cases x with
    | done claimed =>
        obtain ⟨rfl, rfl, rfl⟩ := Routine.talk_pure_iff.mp h
        exact Or.inl ⟨claimed, hx.symm, rfl, rfl, rfl⟩
    | silent =>
        obtain ⟨rfl, rfl, rfl⟩ := Routine.talk_pure_iff.mp h
        exact Or.inr (Or.inl ⟨_, _, hx.symm, Or.inl rfl, rfl, rfl, rfl⟩)
    | forbidden tool =>
        obtain ⟨rfl, rfl, rfl⟩ := Routine.talk_pure_iff.mp h
        exact Or.inr (Or.inl ⟨_, _, hx.symm, Or.inr ⟨tool, rfl⟩, rfl, rfl, rfl⟩)
    | call name arguments =>
        refine Or.inr (Or.inr ?_)
        rw [Routine.talk_bind_iff] at h
        rcases h with ⟨e, hupdate, -⟩ | ⟨_, first, rest, u, rfl, hupdate, h⟩
        · obtain ⟨-, habsurd, -⟩ := Routine.talk_update_iff.mp hupdate
          cases habsurd
        obtain ⟨rfl, -, rfl⟩ := Routine.talk_update_iff.mp hupdate
        rw [Routine.talk_bind_iff] at h
        rcases h with ⟨e, hcall, rfl⟩ | ⟨result, first, rest, u, rfl, hcall, h⟩
        · obtain ⟨answer, rfl, hanswer, rfl⟩ := Routine.talk_asking_iff.mp hcall
          exact ⟨name, arguments, answer, hx.symm, rfl, rfl, Or.inl ⟨e, hanswer.symm, rfl⟩⟩
        · obtain ⟨answer, rfl, hanswer, rfl⟩ := Routine.talk_asking_iff.mp hcall
          obtain ⟨rfl, rfl, rfl⟩ := Routine.talk_pure_iff.mp h
          exact ⟨name, arguments, answer, hx.symm, rfl, rfl,
            Or.inr ⟨result, _, hanswer.symm, rfl⟩⟩

/-! ## Runs -/

/-- The decisions of a transcript that could be parsed, in order. -/
def decisionsOf (l : Transcript F) : List (Value F) :=
  (completionsOf l).filterMap fun answer => match answer with
    | .ok resp => (parseJsonLenient (firstTextBlock resp)).toOption
    | .error _ => none

omit [UnicodeDb] in
/-- The decisions are those of the one part of a transcript and then those of
the other. -/
@[simp]
theorem decisionsOf_append (l l' : Transcript F) :
    decisionsOf (l ++ l') = decisionsOf l ++ decisionsOf l' := by
  rw [decisionsOf, completionsOf_append, List.filterMap_append]
  rfl

omit [UnicodeDb] in
/-- The decision asked for, when no other one follows. -/
theorem decisionsOf_asked {resp : Completion} {d : Value F}
    (hparse : parseJsonLenient (firstTextBlock resp) = .ok d) {rest : Transcript F}
    (hrest : decisionsOf rest = []) :
    decisionsOf (decisionAsked messages (.ok resp) :: rest) = [d] := by
  rw [← List.singleton_append, decisionsOf_append, hrest, List.append_nil]
  simp [decisionsOf, completionsOf, completion?, decisionAsked, hparse, Except.toOption]

/-- Only allowed tools are called, and the account counts their calls. -/
structure Accounted (run : AgentRun) (l : Transcript F) (run' : AgentRun) : Prop where
  allowed : ∀ call ∈ toolCallsOf l, call.name ∈ allowedTools
  counted : run'.toolCalls = run.toolCalls + (toolCallsOf l).length

omit [PyFloat F] [UnicodeDb] in
theorem Accounted.append {run'' : AgentRun} {l' : Transcript F} (h : Accounted run l run')
    (h' : Accounted run' l' run'') : Accounted run (l ++ l') run'' where
  allowed := by
    rw [toolCallsOf_append]
    exact List.forall_mem_append.mpr ⟨h.allowed, h'.allowed⟩
  counted := by
    rw [h'.counted, h.counted, toolCallsOf_append, List.length_append, Nat.add_assoc]

/-- The finding is the one that the loop makes of the call: the name of the
tool, and what was answered. -/
def IsFindingOf (call : ToolCall F) (finding : Finding F) : Prop :=
  ∃ result, call.answer = .ok result ∧ finding = Finding.ofCall call.name result

/-- The findings of the `done` decision, which is the last one; none without
such a decision. -/
def FinalClaims (decisions : List (Value F)) (claimed : List (Finding F)) : Prop :=
  ((∀ d ∈ decisions, ¬ IsDone d) ∧ claimed = []) ∨
    ∃ earlier d, decisions = earlier ++ [d] ∧ (∀ d' ∈ earlier, ¬ IsDone d') ∧ IsDone d ∧
      claimedFindings d = .ok claimed

/-- A decision that does not end the loop claims nothing. -/
theorem FinalClaims.cons {d : Value F} {decisions : List (Value F)} {claimed : List (Finding F)}
    (hd : ¬ IsDone d) (h : FinalClaims decisions claimed) :
    FinalClaims (d :: decisions) claimed := by
  rcases h with ⟨hnone, rfl⟩ | ⟨earlier, last, rfl, hearlier, hlast⟩
  · exact Or.inl ⟨List.forall_mem_cons.mpr ⟨hd, hnone⟩, rfl⟩
  · exact Or.inr ⟨d :: earlier, last, rfl, List.forall_mem_cons.mpr ⟨hd, hearlier⟩, hlast⟩

/-- What a round leaves in the transcript. -/
def TurnReported (l : Transcript F) : Turn F → Prop
  | .finished claimed => toolCallsOf l = [] ∧
      ∃ d, decisionsOf l = [d] ∧ IsDone d ∧ claimedFindings d = .ok claimed
  | .next _ found => List.Forall₂ IsFindingOf (toolCallsOf l) found ∧
      ∃ d, decisionsOf l = [d] ∧ ¬ IsDone d

/-- A round asks for one completion. -/
theorem turn_spec {r : Except (Exc F) (Turn F)} (h : Routine.Talk (turn messages) run l r run') :
    (completionsOf l).length = 1 ∧ Accounted run l run' ∧
      ∀ result, r = .ok result → TurnReported l result := by
  rcases turn_cases h with ⟨answer, e, rfl, rfl, hcalls, -⟩ | ⟨resp, d, hparse, hcase⟩
  · exact ⟨rfl, ⟨List.forall_mem_nil _, hcalls⟩, fun _ habsurd => nomatch habsurd⟩
  have hdecisions (rest : Transcript F) (hrest : decisionsOf rest = []) :
      decisionsOf (decisionAsked messages (.ok resp) :: rest) = [d] :=
    decisionsOf_asked hparse hrest
  rcases hcase with ⟨claimed, hread, rfl, rfl, rfl⟩ | ⟨messages', x, hread, hx, rfl, rfl, rfl⟩ |
    ⟨name, arguments, answer, hread, rfl, rfl, hanswer⟩
  · refine ⟨rfl, ⟨List.forall_mem_nil _, rfl⟩, ?_⟩
    rintro _ ⟨⟩
    exact ⟨rfl, d, hdecisions [] rfl, takenAs_of_readDecision hread⟩
  · refine ⟨rfl, ⟨List.forall_mem_nil _, rfl⟩, ?_⟩
    rintro _ ⟨⟩
    refine ⟨.nil, d, hdecisions [] rfl, ?_⟩
    rcases hx with rfl | ⟨tool, rfl⟩
    · exact takenAs_of_readDecision hread
    · exact takenAs_of_readDecision hread
  · obtain ⟨hopen, hname⟩ := takenAs_of_readDecision hread
    refine ⟨rfl, ⟨List.forall_mem_singleton.mpr hname, rfl⟩, ?_⟩
    rintro _ rfl
    rcases hanswer with ⟨e, -, habsurd⟩ | ⟨result, messages', rfl, hr⟩
    · cases habsurd
    · cases hr
      exact ⟨.cons ⟨result, rfl, rfl⟩ .nil, d, hdecisions _ rfl, hopen⟩

/-- What the loop returns, given the findings it started with. -/
structure Reported (l : Transcript F) (findings : List (Finding F)) (result : RetrievalResult F) :
    Prop where
  findings : ∃ called claimed, result.findings = findings ++ (called ++ claimed) ∧
    List.Forall₂ IsFindingOf (toolCallsOf l) called ∧ FinalClaims (decisionsOf l) claimed
  budget : result.exceededBudget = true ↔ ∀ d ∈ decisionsOf l, ¬ IsDone d

/-- A round that does not end the loop adds its findings before the later
ones. -/
theorem Reported.of_next {first rest : Transcript F} {findings found : List (Finding F)}
    {d : Value F} {result : RetrievalResult F}
    (hfound : List.Forall₂ IsFindingOf (toolCallsOf first) found)
    (hd : decisionsOf first = [d]) (hopen : ¬ IsDone d)
    (h : Reported rest (findings ++ found) result) : Reported (first ++ rest) findings result := by
  obtain ⟨⟨called, claimed, heq, hcalled, hclaimed⟩, hbudget⟩ := h
  refine ⟨⟨found ++ called, claimed, by rw [heq]; simp, ?_, ?_⟩, ?_⟩
  · rw [toolCallsOf_append]
    exact List.rel_append hfound hcalled
  · rw [decisionsOf_append, hd]
    exact hclaimed.cons hopen
  · rw [hbudget, decisionsOf_append, hd, List.singleton_append, List.forall_mem_cons]
    exact (and_iff_right hopen).symm

/-- The induction is on the rounds that remain. -/
theorem loop_spec {remaining used : ℕ} {findings : List (Finding F)}
    {r : Except (Exc F) (RetrievalResult F)}
    (h : Routine.Talk (loop used remaining messages findings) run l r run') :
    (completionsOf l).length ≤ remaining ∧ Accounted run l run' ∧
      ∀ result, r = .ok result → Reported l findings result := by
  induction remaining generalizing used messages findings run l with
  | zero =>
      obtain ⟨rfl, rfl, rfl⟩ := Routine.talk_pure_iff.mp h
      refine ⟨le_rfl, ⟨List.forall_mem_nil _, rfl⟩, ?_⟩
      rintro _ ⟨⟩
      exact ⟨⟨[], [], by simp, .nil, Or.inl ⟨List.forall_mem_nil _, rfl⟩⟩,
        iff_of_true rfl (List.forall_mem_nil _)⟩
  | succ remaining ih =>
      rw [loop, Routine.talk_bind_iff] at h
      rcases h with ⟨e, hturn, rfl⟩ | ⟨x, first, rest, u, rfl, hturn, hrest⟩
      · obtain ⟨hone, haccount, -⟩ := turn_spec hturn
        exact ⟨by omega, haccount, fun _ habsurd => nomatch habsurd⟩
      obtain ⟨hone, haccount, hreport⟩ := turn_spec hturn
      cases x with
      | finished claimed =>
          obtain ⟨hcalls, d, hd, hdone, hclaimed⟩ := hreport _ rfl
          obtain ⟨rfl, rfl, rfl⟩ := Routine.talk_pure_iff.mp hrest
          rw [List.append_nil]
          refine ⟨by omega, haccount, ?_⟩
          rintro _ ⟨⟩
          refine ⟨⟨[], claimed, by simp, by rw [hcalls]; exact .nil, ?_⟩, ?_⟩
          · exact Or.inr ⟨[], d, hd, List.forall_mem_nil _, hdone, hclaimed⟩
          · rw [hd]
            exact iff_of_false (by simp) (by simpa using hdone)
      | next messages' found =>
          obtain ⟨hfound, d, hd, hopen⟩ := hreport _ rfl
          obtain ⟨hle, haccount', hreport'⟩ := ih hrest
          refine ⟨by rw [completionsOf_append, List.length_append]; omega,
            haccount.append haccount', ?_⟩
          exact fun result hr => (hreport' result hr).of_next hfound hd hopen

omit [PyFloat F] [UnicodeDb] in
/-- The tools are listed once, before the loop. -/
theorem talk_fetchToolSpecs {r : Except (Exc F) (List (Value F))}
    (h : Routine.Talk fetchToolSpecs run l r run') :
    ∃ answer, l = [⟨.listTools, answer⟩] ∧ run' = run := by
  rw [fetchToolSpecs, Routine.talk_bind_iff] at h
  rcases h with ⟨e, hlist, -⟩ | ⟨tools, first, rest, u, rfl, hlist, hrest⟩
  · obtain ⟨answer, rfl, -, rfl⟩ := Routine.talk_asking_iff.mp hlist
    exact ⟨answer, rfl, rfl⟩
  · obtain ⟨answer, rfl, -, rfl⟩ := Routine.talk_asking_iff.mp hlist
    obtain ⟨rfl, -, rfl⟩ := Routine.talk_ofExcept_iff.mp hrest
    exact ⟨answer, rfl, rfl⟩

/-- The tools are listed, and then the loop is run. -/
theorem RetrieverAgent.talk_act {agent : RetrieverAgent} {plan : Plan} {question : String}
    {r : Except (Exc F) (RetrievalResult F)}
    (h : Routine.Talk (agent.act plan question) run l r run') :
    ∃ answer rest, l = ⟨.listTools, answer⟩ :: rest ∧
      (rest = [] ∧ run' = run ∧ (∃ e, r = .error e) ∨ ∃ prompt, Routine.Talk
        (loop 0 agent.maxIterations.toNat [⟨"user", prompt⟩] []) run rest r run') := by
  rw [RetrieverAgent.act, Routine.talk_bind_iff] at h
  rcases h with ⟨e, hlist, rfl⟩ | ⟨specs, first, rest, u, rfl, hlist, h⟩
  · obtain ⟨answer, rfl, rfl⟩ := talk_fetchToolSpecs hlist
    exact ⟨answer, [], rfl, Or.inl ⟨rfl, rfl, e, rfl⟩⟩
  obtain ⟨answer, rfl, rfl⟩ := talk_fetchToolSpecs hlist
  rw [Routine.talk_bind_iff] at h
  rcases h with ⟨e, hprompt, rfl⟩ | ⟨prompt, first, rest, u, rfl, hprompt, h⟩
  · obtain ⟨rfl, -, rfl⟩ := Routine.talk_ofExcept_iff.mp hprompt
    exact ⟨answer, [], rfl, Or.inl ⟨rfl, rfl, e, rfl⟩⟩
  obtain ⟨rfl, -, rfl⟩ := Routine.talk_ofExcept_iff.mp hprompt
  exact ⟨answer, rest, rfl, Or.inr ⟨prompt, h⟩⟩

/-- **The retriever, whatever the model says.**  It asks for at most
`maxIterations` completions, calls only allowed tools, and counts these calls.
What it returns has one finding for each call, then those of the final `done`
decision, and the budget is exceeded exactly when there is no such
decision. -/
theorem RetrieverAgent.act_bounded {agent : RetrieverAgent} {plan : Plan} {question : String}
    {r : Except (Exc F) (RetrievalResult F)}
    (h : Routine.Talk (agent.act plan question) run l r run') :
    ((completionsOf l).length : ℤ) ≤ max 0 agent.maxIterations ∧
      (∀ call ∈ toolCallsOf l, call.name ∈ allowedTools) ∧
      run'.toolCalls = run.toolCalls + (toolCallsOf l).length ∧
      ∀ result, r = .ok result →
        (∃ called claimed, result.findings = called ++ claimed ∧
          List.Forall₂ IsFindingOf (toolCallsOf l) called ∧
          FinalClaims (decisionsOf l) claimed) ∧
        (result.exceededBudget = true ↔ ∀ d ∈ decisionsOf l, ¬ IsDone d) := by
  obtain ⟨answer, rest, rfl, ⟨rfl, rfl, e, rfl⟩ | ⟨prompt, hloop⟩⟩ := RetrieverAgent.talk_act h
  · exact ⟨le_max_left _ _, List.forall_mem_nil _, rfl, fun _ habsurd => nomatch habsurd⟩
  obtain ⟨hle, haccount, hreport⟩ := loop_spec hloop
  refine ⟨?_, haccount.allowed, haccount.counted, fun result hr => ?_⟩
  · have hlength : (completionsOf rest).length ≤ agent.maxIterations.toNat := hle
    change ((completionsOf rest).length : ℤ) ≤ _
    omega
  · obtain ⟨⟨called, claimed, heq, hcalled, hclaimed⟩, hbudget⟩ := hreport result hr
    exact ⟨⟨called, claimed, by simpa using heq, hcalled, hclaimed⟩, hbudget⟩

/-- A round in which a call is decided on and answered. -/
theorem talk_turn_call {resp : Completion} {d arguments : Value F} {name : String}
    {result : ToolResult F} (hparse : parseJsonLenient (firstTextBlock resp) = .ok d)
    (hread : readDecision d = .ok (.call name arguments)) :
    Routine.Talk (turn messages) run
      [decisionAsked messages (.ok resp), ⟨.callTool name arguments, .ok result⟩]
      (.ok (.next (messages ++ replied d (observed (.str name) result))
        [Finding.ofCall name result]))
      { run.charged resp with toolCalls := run.toolCalls + 1 } := by
  refine Routine.talk_bind_iff.mpr (Or.inr ⟨d, [_], _, run.charged resp, rfl,
    talk_completeJson_iff.mpr (Or.inr ⟨resp, rfl, hparse.symm, rfl⟩), ?_⟩)
  refine Routine.talk_bind_iff.mpr (Or.inr ⟨.call name arguments, [], _, _, rfl,
    Routine.talk_ofExcept_iff.mpr ⟨rfl, hread.symm, rfl⟩, ?_⟩)
  refine Routine.talk_bind_iff.mpr (Or.inr ⟨(), [], _, _, rfl,
    Routine.talk_update_iff.mpr ⟨rfl, rfl, rfl⟩, ?_⟩)
  exact Routine.talk_bind_iff.mpr (Or.inr ⟨_, [_], [], _, rfl,
    Routine.talk_asking_iff.mpr ⟨_, rfl, rfl, rfl⟩, Routine.talk_pure_iff.mpr ⟨rfl, rfl, rfl⟩⟩)

/-- A run in which no tools are listed is one of the loop, after the
prompt. -/
theorem RetrieverAgent.talk_act_of_loop (agent : RetrieverAgent)
    {rounds : List Message → Transcript F} {r : Except (Exc F) (RetrievalResult F)}
    (hloop : ∀ messages, Routine.Talk (loop 0 agent.maxIterations.toNat messages []) run
      (rounds messages) r run') (plan : Plan) (question : String) :
    ∃ prompt, Routine.Talk (agent.act plan question) run
      (⟨.listTools, .ok (.list [])⟩ :: rounds [⟨"user", prompt⟩]) r run' := by
  obtain ⟨prompt, hprompt⟩ : ∃ prompt,
      buildInitialPrompt (F := F) question plan [] = .ok prompt := ⟨_, rfl⟩
  refine ⟨prompt, Routine.talk_bind_iff.mpr (Or.inr ⟨[], [_], _, run, rfl, ?_, ?_⟩)⟩
  · exact Routine.talk_bind_iff.mpr (Or.inr ⟨.list [], [_], [], _, rfl,
      Routine.talk_asking_iff.mpr ⟨_, rfl, rfl, rfl⟩,
      Routine.talk_ofExcept_iff.mpr ⟨rfl, rfl, rfl⟩⟩)
  exact Routine.talk_bind_iff.mpr (Or.inr ⟨prompt, [], _, _, rfl,
    Routine.talk_ofExcept_iff.mpr ⟨rfl, hprompt.symm, rfl⟩, hloop _⟩)

/-- A run of one round that does not end the loop: the budget is exceeded. -/
theorem RetrieverAgent.talk_act_once {round : List Message → Transcript F}
    {next : List Message → List Message} {found : List (Finding F)}
    (hturn : ∀ messages, Routine.Talk (turn messages) run (round messages)
      (.ok (.next (next messages) found)) run') (plan : Plan) (question : String) :
    ∃ prompt, Routine.Talk (RetrieverAgent.act ⟨1⟩ plan question) run
      (⟨.listTools, .ok (.list [])⟩ :: round [⟨"user", prompt⟩]) (.ok ⟨found, 1, true⟩)
      run' := by
  have hloop (messages : List Message) : Routine.Talk (loop 0 1 messages []) run
      (round messages) (.ok ⟨found, 1, true⟩) run' :=
    Routine.talk_bind_iff.mpr (Or.inr ⟨_, _, [], _, (List.append_nil _).symm, hturn messages,
      Routine.talk_pure_iff.mpr ⟨rfl, rfl, rfl⟩⟩)
  exact RetrieverAgent.talk_act_of_loop ⟨1⟩ hloop plan question

end Retriever

/-- A decision for a vector search. -/
def searchDecision : Value WholeFloat := .dict [("tool", .str "vector.search")]

/-- A completion with a decision to search. -/
def searchReply : Completion := ⟨[⟨some "text", some (dumps searchDecision)⟩], some 5, some 7⟩

/-- A search that has found nothing. -/
def nothingFound : ToolResult WholeFloat := { ok := true }

/-- The exchanges of a round in which it is taken. -/
def searchRound (messages : List Message) : Transcript WholeFloat :=
  [decisionAsked messages (.ok searchReply),
    ⟨.callTool "vector.search" (.dict []), .ok nothingFound⟩]

/-- The turn that follows the decision: the call is sent, and its result goes
into the findings and into the prompt. -/
theorem turn_searching (messages : List Message) :
    Routine.Talk (turn messages) ⟨"t1", 0, 0, 0⟩ (searchRound messages)
      (.ok (.next
        (messages ++ replied searchDecision (observed (.str "vector.search") nothingFound))
        [Finding.ofCall "vector.search" nothingFound])) ⟨"t1", 5, 7, 1⟩ := by
  have hparse : parseJsonLenient (firstTextBlock searchReply) = .ok searchDecision :=
    parseJsonLenient_dumps (by simp [Value.Wf, Value.WfMembers])
  exact talk_turn_call hparse rfl

/-- The only round of a run: the budget is exceeded. -/
theorem search_bounded :
    ∃ (l : Transcript WholeFloat) (run' : AgentRun) (result : RetrievalResult WholeFloat),
      (toolCallsOf l).map ToolCall.name = ["vector.search"] ∧
      run'.toolCalls = 0 + (toolCallsOf l).length ∧
      (result.exceededBudget = true ↔ ∀ d ∈ decisionsOf l, ¬ IsDone d) := by
  obtain ⟨prompt, htalk⟩ :=
    RetrieverAgent.talk_act_once turn_searching ⟨[], false, "", none⟩ "Why?"
  obtain ⟨-, -, hcalls, hresult⟩ := RetrieverAgent.act_bounded htalk
  exact ⟨_, _, _, rfl, hcalls, (hresult _ rfl).2⟩

end Agents
