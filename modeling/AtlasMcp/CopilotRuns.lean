import AtlasMcp.SupportCopilot

/-!
# What a turn of the copilot asks for

`Within` counts the completions that each agent asks for, and says that the tools are called
as the retriever's decisions have it; it adds up along a turn, which `talk_answer` takes apart.
So whatever the model and the client answer, a turn needs few completions, and a draft that is
approved is the one that the critic saw last (`answer_bounded`).

The arguments of the calls are the model's.  The customer id of the plan is not put into them,
and `customerIds_sent_iff` says when it is sent nevertheless.
-/

namespace Agents

open PyJson PyText Errors Dialogues
open AgentWire (ToolResult)

section Transcripts

variable {F : Type}

/-- The completion that an agent, told by its system prompt, was given. -/
def completionBy? (system : String) :
    Exchange (Ask F) Ask.Answer → Option (Except (Exc F) Completion)
  | ⟨.complete s _ _, answer⟩ => if s = system then some answer else none
  | _ => none

/-- The completions that an agent was given, in order. -/
def completionsBy (system : String) (l : Transcript F) : List (Except (Exc F) Completion) :=
  l.filterMap (completionBy? system)

/-- The completions asked for under a system prompt are those of the one part
of a transcript and then those of the other. -/
@[simp]
theorem completionsBy_append (system : String) (l l' : Transcript F) :
    completionsBy system (l ++ l') = completionsBy system l ++ completionsBy system l' :=
  List.filterMap_append

/-- Only the agent with the system prompt is given completions.  The prompts
tell the four agents apart. -/
def AsksAs (system : String) (l : Transcript F) : Prop :=
  ∀ x ∈ l, ∀ s messages maxTokens, x.1 = .complete s messages maxTokens → s = system

/-- Two parts of a transcript that ask under the one prompt only, ask under it
together. -/
theorem AsksAs.append {system : String} {l l' : Transcript F} (h : AsksAs system l)
    (h' : AsksAs system l') : AsksAs system (l ++ l') :=
  List.forall_mem_append.mpr ⟨h, h'⟩

/-- All completions are that agent's. -/
theorem AsksAs.completionsBy_self {system : String} {l : Transcript F} (h : AsksAs system l) :
    completionsBy system l = completionsOf l := by
  refine List.filterMap_congr fun x hx => ?_
  obtain ⟨q, answer⟩ := x
  cases q with
  | complete s messages maxTokens => exact if_pos (h _ hx s messages maxTokens rfl)
  | listTools => rfl
  | callTool name arguments => rfl

/-- None is another agent's. -/
theorem AsksAs.completionsBy_of_ne {system other : String} {l : Transcript F}
    (h : AsksAs system l) (hne : system ≠ other) : completionsBy other l = [] := by
  refine List.filterMap_eq_nil_iff.mpr fun x hx => ?_
  obtain ⟨q, answer⟩ := x
  cases q with
  | complete s messages maxTokens =>
      exact if_neg fun heq => hne ((h _ hx s messages maxTokens rfl).symm.trans heq)
  | listTools => rfl
  | callTool name arguments => rfl

/-- The calls of a transcript, with their arguments. -/
def sentCalls (l : Transcript F) : List (String × Value F) :=
  (toolCallsOf l).map fun call => (call.name, call.arguments)

/-- The calls that were sent are those of the one part and then those of the
other. -/
@[simp]
theorem sentCalls_append (l l' : Transcript F) :
    sentCalls (l ++ l') = sentCalls l ++ sentCalls l' := by
  rw [sentCalls, toolCallsOf_append, List.map_append]
  rfl

/-- One request under a prompt asks under that prompt. -/
theorem asksAs_singleton (system : String) (messages : List Message) (maxTokens : ℕ)
    (answer : Except (Exc F) Completion) :
    AsksAs system [⟨.complete system messages maxTokens, answer⟩] := by
  intro x hx s messages' maxTokens' heq
  obtain rfl := List.mem_singleton.mp hx
  cases heq
  rfl

/-- Without completions no agent asks. -/
theorem asksAs_of_completionsOf_eq_nil {system : String} {l : Transcript F}
    (h : completionsOf l = []) : AsksAs system l := by
  intro x hx s messages maxTokens heq
  have hnone := List.filterMap_eq_nil_iff.mp h x hx
  obtain ⟨q, answer⟩ := x
  obtain rfl : q = .complete s messages maxTokens := heq
  cases hnone

/-- No two agents are told the same. -/
theorem systems_ne :
    plannerSystem ≠ retrieverSystem ∧ plannerSystem ≠ synthesizerSystem ∧
      plannerSystem ≠ criticSystem ∧ retrieverSystem ≠ synthesizerSystem ∧
      retrieverSystem ≠ criticSystem ∧ synthesizerSystem ≠ criticSystem := by
  simp [plannerSystem, retrieverSystem, synthesizerSystem, criticSystem]

end Transcripts

section Runs

variable {F : Type} [PyFloat F] [UnicodeDb] {run run' : AgentRun} {l : Transcript F}
  {question : String}

/-! ## The calls of the retriever -/

/-- The call that a decision is taken as. -/
def calledBy (d : Value F) : Option (String × Value F) :=
  match readDecision d with
  | .ok (.call name arguments) => some (name, arguments)
  | _ => none

/-- The member of a decision, if any. -/
def member (key : String) : Value F → Value F
  | .dict kvs => (dictGet kvs key).getD .none
  | _ => .none

omit [PyFloat F] [UnicodeDb] in
/-- A decision names a tool for the retriever if and only if its `tool` is a
text and one of the four names.  A list or a dictionary there is not hashable
and raises instead. -/
theorem allowedTool?_eq_some_iff {tool : Value F} {name : String} :
    allowedTool? tool = .ok (some name) ↔ tool = .str name ∧ name ∈ allowedTools := by
  constructor
  · intro h
    refine ⟨?_, mem_of_allowedTool? h⟩
    unfold allowedTool? at h
    split at h
    · split at h
      · cases h
        rfl
      · cases h
    all_goals cases h
  · rintro ⟨rfl, hname⟩
    rw [allowedTool?, if_pos hname]

/-- A decision is taken as a call when it is not done and names an allowed
tool. -/
theorem calledBy_eq_some_iff {d arguments : Value F} {name : String} :
    calledBy d = some (name, arguments) ↔ ¬ IsDone d ∧ member "tool" d = .str name ∧
      name ∈ allowedTools ∧
      arguments = if (member "arguments" d).truthy then member "arguments" d else .dict [] := by
  have hcalled : calledBy d = some (name, arguments) ↔
      readDecision d = .ok (.call name arguments) := by
    unfold calledBy
    split
    next name' arguments' hread => simp [hread]
    next hread => exact iff_of_false (by simp) (hread name arguments)
  rw [hcalled]
  cases d with
  | dict kvs =>
      have hget (key : String) :
          get (.dict kvs : Value F) key .none = .ok (member key (.dict kvs)) := rfl
      rw [readDecision, hget, hget, hget]
      simp only [bind, Except.bind, pure, Except.pure]
      split
      next hdone =>
        refine iff_of_false ?_ fun h => h.1 hdone
        cases claimedFindings (.dict kvs : Value F) with
        | error e => simp
        | ok claimed => simp
      next hdone =>
        have hopen : ¬ IsDone (.dict kvs : Value F) := hdone
        rw [and_iff_right hopen, ← and_assoc, ← allowedTool?_eq_some_iff]
        split
        next =>
          cases allowedTool? (member "tool" (.dict kvs : Value F)) with
          | error e => simp
          | ok found =>
              cases found with
              | none => simp
              | some name' =>
                  simp only [Except.ok.injEq, Decision.call.injEq, Option.some.injEq]
                  exact and_congr_right fun _ => eq_comm
        next hfalsy =>
          refine iff_of_false (by simp) fun h => hfalsy ?_
          obtain ⟨htool, hname⟩ := allowedTool?_eq_some_iff.mp h.1
          rw [htool]
          have hnonempty : ∀ name ∈ allowedTools, name ≠ "" := by decide
          exact decide_eq_true (hnonempty name hname)
  | _ => exact iff_of_false (by simp [readDecision, get, bind, Except.bind]) (by simp [member])

/-- A round asks as the retriever, and makes the call it decides on. -/
theorem turn_calls {messages : List Message} {r : Except (Exc F) (Turn F)}
    (h : Routine.Talk (turn messages) run l r run') :
    AsksAs retrieverSystem l ∧ sentCalls l = (decisionsOf l).filterMap calledBy := by
  have hasked : ∀ answer, AsksAs (F := F) retrieverSystem [decisionAsked messages answer] :=
    asksAs_singleton retrieverSystem messages 800
  have hsent : ∀ answer, sentCalls (F := F) [decisionAsked messages answer] = [] := fun _ => rfl
  rcases turn_cases h with ⟨answer, e, rfl, -, -, hunread⟩ | ⟨resp, d, hparse, hcase⟩
  · refine ⟨hasked answer, ?_⟩
    rw [hsent]
    cases answer with
    | error e => rfl
    | ok resp =>
        cases hparse : parseJsonLenient (F := F) (firstTextBlock resp) with
        | error e =>
            simp [decisionsOf, completionsOf, completion?, decisionAsked, hparse,
              Except.toOption]
        | ok d =>
            rw [decisionsOf_asked hparse rfl]
            simp [calledBy, hunread resp d rfl hparse]
  · rcases hcase with ⟨claimed, hread, rfl, -, -⟩ | ⟨messages', x, hread, hx, rfl, -, -⟩ |
      ⟨name, arguments, answer, hread, rfl, -, -⟩
    · refine ⟨hasked _, ?_⟩
      rw [hsent, decisionsOf_asked hparse rfl]
      simp [calledBy, hread]
    · refine ⟨hasked _, ?_⟩
      rw [hsent, decisionsOf_asked hparse rfl]
      rcases hx with rfl | ⟨tool, rfl⟩
      · simp [calledBy, hread]
      · simp [calledBy, hread]
    · have hcall : AsksAs (F := F) retrieverSystem [⟨.callTool name arguments, answer⟩] :=
        asksAs_of_completionsOf_eq_nil rfl
      have hcalled : calledBy d = some (name, arguments) := by rw [calledBy, hread]
      refine ⟨(hasked (.ok resp)).append hcall, ?_⟩
      rw [decisionsOf_asked hparse rfl, List.filterMap_cons_some hcalled]
      rfl

/-- The induction is on the rounds that remain. -/
theorem loop_calls {remaining used : ℕ} {messages : List Message} {findings : List (Finding F)}
    {r : Except (Exc F) (RetrievalResult F)}
    (h : Routine.Talk (loop used remaining messages findings) run l r run') :
    AsksAs retrieverSystem l ∧ sentCalls l = (decisionsOf l).filterMap calledBy := by
  induction remaining generalizing used messages findings run l with
  | zero =>
      obtain ⟨rfl, -, -⟩ := Routine.talk_pure_iff.mp h
      exact ⟨List.forall_mem_nil _, rfl⟩
  | succ remaining ih =>
      rw [loop, Routine.talk_bind_iff] at h
      rcases h with ⟨e, hturn, -⟩ | ⟨x, first, rest, u, rfl, hturn, hrest⟩
      · exact turn_calls hturn
      obtain ⟨hasks, hcalls⟩ := turn_calls hturn
      cases x with
      | finished claimed =>
          obtain ⟨rfl, -, -⟩ := Routine.talk_pure_iff.mp hrest
          rw [List.append_nil]
          exact ⟨hasks, hcalls⟩
      | next messages' found =>
          obtain ⟨hasks', hcalls'⟩ := ih hrest
          refine ⟨hasks.append hasks', ?_⟩
          rw [sentCalls_append, decisionsOf_append, List.filterMap_append, hcalls, hcalls']

/-- The retriever asks for few completions, and makes the calls it decides
on. -/
theorem RetrieverAgent.act_calls {agent : RetrieverAgent} {plan : Plan}
    {r : Except (Exc F) (RetrievalResult F)}
    (h : Routine.Talk (agent.act plan question) run l r run') :
    AsksAs retrieverSystem l ∧ sentCalls l = (decisionsOf l).filterMap calledBy ∧
      (completionsOf l).length ≤ agent.maxIterations.toNat := by
  have hlisted (answer : Except (Exc F) (Value F)) :
      AsksAs retrieverSystem ([⟨.listTools, answer⟩] : Transcript F) :=
    asksAs_of_completionsOf_eq_nil rfl
  obtain ⟨answer, rest, rfl, ⟨rfl, -, -⟩ | ⟨prompt, hloop⟩⟩ := RetrieverAgent.talk_act h
  · exact ⟨hlisted answer, rfl, Nat.zero_le _⟩
  · obtain ⟨hasks, hcalls⟩ := loop_calls hloop
    obtain ⟨hle, -, -⟩ := loop_spec hloop
    exact ⟨(hlisted answer).append hasks, hcalls, hle⟩

/-! ## What is asked for -/

/-- The decisions that the retriever was given, of those that could be
parsed. -/
def retrieverDecisions (l : Transcript F) : List (Value F) :=
  (completionsBy retrieverSystem l).filterMap fun answer => match answer with
    | .ok resp => (parseJsonLenient (firstTextBlock resp)).toOption
    | .error _ => none

omit [UnicodeDb] in
/-- The decisions of the retriever are those of the one part of a transcript
and then those of the other. -/
@[simp]
theorem retrieverDecisions_append (l l' : Transcript F) :
    retrieverDecisions (l ++ l') = retrieverDecisions l ++ retrieverDecisions l' := by
  rw [retrieverDecisions, completionsBy_append, List.filterMap_append]
  rfl

omit [UnicodeDb] in
/-- In a part of a transcript in which the retriever alone asks, its decisions
are all that are read. -/
theorem AsksAs.retrieverDecisions_self (h : AsksAs retrieverSystem l) :
    retrieverDecisions l = decisionsOf l := by
  rw [retrieverDecisions, h.completionsBy_self]
  rfl

omit [UnicodeDb] in
/-- In a part in which another agent asks, it has none. -/
theorem AsksAs.retrieverDecisions_of_ne {system : String} (h : AsksAs system l)
    (hne : system ≠ retrieverSystem) : retrieverDecisions l = [] := by
  rw [retrieverDecisions, h.completionsBy_of_ne hne]
  rfl

/-- The agents ask for so many completions at most, and the calls are those of
the decisions that the retriever was given. -/
structure Within (planner retriever synthesizer critic : ℕ) (l : Transcript F) : Prop where
  planner : (completionsBy plannerSystem l).length ≤ planner
  retriever : (completionsBy retrieverSystem l).length ≤ retriever
  synthesizer : (completionsBy synthesizerSystem l).length ≤ synthesizer
  critic : (completionsBy criticSystem l).length ≤ critic
  calls : sentCalls l = (retrieverDecisions l).filterMap calledBy

theorem Within.nil : Within 0 0 0 0 ([] : Transcript F) := ⟨le_rfl, le_rfl, le_rfl, le_rfl, rfl⟩

theorem Within.append {p p' r r' s s' c c' : ℕ} {l l' : Transcript F} (h : Within p r s c l)
    (h' : Within p' r' s' c' l') : Within (p + p') (r + r') (s + s') (c + c') (l ++ l') := by
  have hsum (system : String) {m n : ℕ} (hm : (completionsBy system l).length ≤ m)
      (hn : (completionsBy system l').length ≤ n) :
      (completionsBy system (l ++ l')).length ≤ m + n := by
    rw [completionsBy_append, List.length_append]
    exact Nat.add_le_add hm hn
  exact
    { planner := hsum _ h.planner h'.planner
      retriever := hsum _ h.retriever h'.retriever
      synthesizer := hsum _ h.synthesizer h'.synthesizer
      critic := hsum _ h.critic h'.critic
      calls := by
        rw [sentCalls_append, retrieverDecisions_append, List.filterMap_append, h.calls,
          h'.calls] }

theorem Within.mono {p p' r r' s s' c c' : ℕ} (h : Within p r s c l) (hp : p ≤ p')
    (hr : r ≤ r') (hs : s ≤ s') (hc : c ≤ c') : Within p' r' s' c' l where
  planner := h.planner.trans hp
  retriever := h.retriever.trans hr
  synthesizer := h.synthesizer.trans hs
  critic := h.critic.trans hc
  calls := h.calls

/-- The retriever asks as itself only. -/
theorem RetrieverAgent.within_of_talk {agent : RetrieverAgent} {plan : Plan}
    {r : Except (Exc F) (RetrievalResult F)}
    (h : Routine.Talk (agent.act plan question) run l r run') :
    Within 0 agent.maxIterations.toNat 0 0 l := by
  obtain ⟨hpr, -, -, hrs, hrc, -⟩ := systems_ne
  obtain ⟨hasks, hcalls, hle⟩ := RetrieverAgent.act_calls h
  exact
    { planner := by rw [hasks.completionsBy_of_ne hpr.symm]; rfl
      retriever := by rwa [hasks.completionsBy_self]
      synthesizer := by rw [hasks.completionsBy_of_ne hrs]; rfl
      critic := by rw [hasks.completionsBy_of_ne hrc]; rfl
      calls := by rw [hcalls, hasks.retrieverDecisions_self] }

/-- Another agent makes no calls. -/
theorem calls_of_asksAs {system : String} (hasks : AsksAs system l)
    (hne : system ≠ retrieverSystem) (hcalls : sentCalls l = []) :
    sentCalls l = (retrieverDecisions l).filterMap calledBy := by
  rw [hcalls, hasks.retrieverDecisions_of_ne hne]
  rfl

/-! ## The other agents -/

variable [PyInt F]

/-- The exchange in which the planner asks for a plan. -/
def planAsked (question : String) (answer : Except (Exc F) Completion) :
    Exchange (Ask F) Ask.Answer :=
  ⟨.complete plannerSystem [⟨"user", plannerPrompt question⟩] 400, answer⟩

omit [PyInt F] in
theorem within_planAsked (answer : Except (Exc F) Completion) :
    Within 1 0 0 0 [planAsked question answer] := by
  obtain ⟨hpr, hps, hpc, -, -, -⟩ := systems_ne
  have hasks : AsksAs plannerSystem [planAsked question answer] := asksAs_singleton _ _ _ _
  exact
    { planner := by rw [hasks.completionsBy_self]; rfl
      retriever := by rw [hasks.completionsBy_of_ne hpr]; rfl
      synthesizer := by rw [hasks.completionsBy_of_ne hps]; rfl
      critic := by rw [hasks.completionsBy_of_ne hpc]; rfl
      calls := calls_of_asksAs hasks hpr rfl }

omit [PyInt F] [UnicodeDb] in
/-- An agent that reads the model's object asks for one completion. -/
theorem talk_completeJson_read {α : Type} {system : String} {messages : List Message}
    {maxTokens : ℕ} {read : Value F → Except (Exc F) α} {r : Except (Exc F) α}
    (h : Routine.Talk (do
      let data ← completeJson system messages maxTokens
      Routine.ofExcept (read data)) run l r run') :
    ∃ answer, l = [⟨.complete system messages maxTokens, answer⟩] ∧ ∀ a, r = .ok a →
      ∃ resp data, answer = .ok resp ∧ parseJsonLenient (firstTextBlock resp) = .ok data ∧
        read data = .ok a := by
  rw [Routine.talk_bind_iff] at h
  rcases h with ⟨e, hjson, rfl⟩ | ⟨data, first, rest, u, rfl, hjson, h⟩
  · rcases talk_completeJson_iff.mp hjson with ⟨e', rfl, -, -⟩ | ⟨resp, rfl, -, -⟩
    · exact ⟨_, rfl, fun _ habsurd => nomatch habsurd⟩
    · exact ⟨_, rfl, fun _ habsurd => nomatch habsurd⟩
  · obtain ⟨rfl, hread, -⟩ := Routine.talk_ofExcept_iff.mp h
    rcases talk_completeJson_iff.mp hjson with ⟨e', -, habsurd, -⟩ | ⟨resp, rfl, hparse, -⟩
    · cases habsurd
    · refine ⟨_, rfl, ?_⟩
      rintro a rfl
      exact ⟨resp, data, rfl, hparse.symm, hread.symm⟩

/-- The planner asks for one completion.  The id of the plan is not in it. -/
theorem PlannerAgent.talk_act {r : Except (Exc F) Plan}
    (h : Routine.Talk (PlannerAgent.act question) run l r run') :
    (∃ answer, l = [planAsked question answer]) ∧
      ∀ plan, r = .ok plan → plan.customerId = extractCustomerId question := by
  obtain ⟨answer, hl, hread⟩ := talk_completeJson_read h
  refine ⟨⟨answer, hl⟩, fun plan hr => ?_⟩
  obtain ⟨resp, data, -, -, hplan⟩ := hread plan hr
  exact customerId_of_readPlan hplan

section Reviews

variable {findings : List (Finding F)} {retrieval : RetrievalResult F}

/-- The exchange in which the synthesizer asks for a draft. -/
def draftAsked (question : String) (findings : List (Finding F))
    (answer : Except (Exc F) Completion) : Exchange (Ask F) Ask.Answer :=
  ⟨.complete synthesizerSystem [⟨"user", synthesizerPrompt question findings⟩] 400, answer⟩

/-- The exchange in which the critic is shown a draft. -/
def reviewAsked (question : String) (findings : List (Finding F)) (draft : String)
    (answer : Except (Exc F) Completion) : Exchange (Ask F) Ask.Answer :=
  ⟨.complete criticSystem [⟨"user", criticPrompt question findings draft⟩] 400, answer⟩

omit [PyFloat F] [UnicodeDb] [PyInt F] in
theorem asksAs_draftAsked {answer : Except (Exc F) Completion} :
    AsksAs synthesizerSystem [draftAsked question findings answer] :=
  asksAs_singleton _ _ _ _

omit [PyFloat F] [UnicodeDb] [PyInt F] in
theorem asksAs_reviewAsked {draft : String} {answer : Except (Exc F) Completion} :
    AsksAs criticSystem [reviewAsked question findings draft answer] :=
  asksAs_singleton _ _ _ _

omit [PyInt F] in
/-- A draft costs one completion of the synthesizer, and nothing else. -/
theorem within_draftAsked (answer : Except (Exc F) Completion) :
    Within 0 0 1 0 [draftAsked question findings answer] := by
  obtain ⟨-, hps, -, hrs, -, hsc⟩ := systems_ne
  exact
    { planner := by rw [asksAs_draftAsked.completionsBy_of_ne hps.symm]; rfl
      retriever := by rw [asksAs_draftAsked.completionsBy_of_ne hrs.symm]; rfl
      synthesizer := by rw [asksAs_draftAsked.completionsBy_self]; rfl
      critic := by rw [asksAs_draftAsked.completionsBy_of_ne hsc]; rfl
      calls := calls_of_asksAs asksAs_draftAsked hrs.symm rfl }

omit [PyInt F] in
/-- A review costs one completion of the critic, and nothing else. -/
theorem within_reviewAsked (draft : String) (answer : Except (Exc F) Completion) :
    Within 0 0 0 1 [reviewAsked question findings draft answer] := by
  obtain ⟨-, -, hpc, -, hrc, hsc⟩ := systems_ne
  exact
    { planner := by rw [asksAs_reviewAsked.completionsBy_of_ne hpc.symm]; rfl
      retriever := by rw [asksAs_reviewAsked.completionsBy_of_ne hrc.symm]; rfl
      synthesizer := by rw [asksAs_reviewAsked.completionsBy_of_ne hsc.symm]; rfl
      critic := by rw [asksAs_reviewAsked.completionsBy_self]; rfl
      calls := calls_of_asksAs asksAs_reviewAsked hrc.symm rfl }

omit [PyFloat F] [UnicodeDb] in
/-- The draft is what the model answers. -/
theorem SynthesizerAgent.talk_act {r : Except (Exc F) Draft}
    (h : Routine.Talk (SynthesizerAgent.act question findings) run l r run') :
    (∃ e, l = [draftAsked question findings (.error e)] ∧ r = .error e) ∨
      ∃ resp, l = [draftAsked question findings (.ok resp)] ∧
        r = .ok (Draft.ofText F (firstTextBlock resp)) := by
  rw [SynthesizerAgent.act, Routine.talk_bind_iff] at h
  rcases h with ⟨e, htext, rfl⟩ | ⟨text, first, rest, u, rfl, htext, h⟩
  · rcases talk_completeText_iff.mp htext with ⟨e', rfl, he, -⟩ | ⟨resp, -, habsurd, -⟩
    · cases he
      exact Or.inl ⟨e, rfl, rfl⟩
    · cases habsurd
  · obtain ⟨rfl, rfl, -⟩ := Routine.talk_pure_iff.mp h
    rcases talk_completeText_iff.mp htext with ⟨e', -, habsurd, -⟩ | ⟨resp, rfl, hresp, -⟩
    · cases habsurd
    · cases hresp
      exact Or.inr ⟨resp, rfl, rfl⟩

/-- The verdict is what the model says, once its completion was read as JSON. -/
def Says (answer : Except (Exc F) Completion) (verdict : Verdict F) : Prop :=
  ∃ resp data, answer = .ok resp ∧ parseJsonLenient (firstTextBlock resp) = .ok data ∧
    readVerdict data = .ok verdict

omit [PyInt F] in
/-- The critic asks for one completion. -/
theorem CriticAgent.talk_act {draft : Draft} {r : Except (Exc F) (Verdict F)}
    (h : Routine.Talk (CriticAgent.act question findings draft) run l r run') :
    ∃ answer, l = [reviewAsked question findings draft.text answer] ∧
      ∀ verdict, r = .ok verdict → Says answer verdict :=
  talk_completeJson_read h

/-- The turn ends with the critic's verdict on the draft, which is the last
one. -/
structure Reviewed (question : String) (findings : List (Finding F)) (l : Transcript F)
    (draft : Draft) (verdict : Verdict F) : Prop where
  drafted : ∃ resp, (completionsBy synthesizerSystem l).getLast? = some (.ok resp) ∧
    draft = Draft.ofText F (firstTextBlock resp)
  judged : ∃ answer, l.getLast? = some (reviewAsked question findings draft.text answer) ∧
    Says answer verdict

/-- A draft, and unless there is none, a review of it. -/
theorem talk_criticized {asked : String} {r : Except (Exc F) (Draft × Verdict F)}
    (h : Routine.Talk (SupportCopilot.criticized question retrieval
      (SynthesizerAgent.act asked retrieval.findings)) run l r run') :
    Within 0 0 1 1 l ∧ ∀ draft verdict, r = .ok (draft, verdict) →
      Reviewed question retrieval.findings l draft verdict := by
  rw [SupportCopilot.criticized, Routine.talk_bind_iff] at h
  rcases h with ⟨e, hdraft, rfl⟩ | ⟨draft, first, rest, u, rfl, hdraft, h⟩
  · rcases SynthesizerAgent.talk_act hdraft with ⟨e', rfl, -⟩ | ⟨resp, -, habsurd⟩
    · exact ⟨(within_draftAsked _).mono le_rfl le_rfl le_rfl zero_le_one,
        fun _ _ habsurd => nomatch habsurd⟩
    · cases habsurd
  rcases SynthesizerAgent.talk_act hdraft with ⟨e', -, habsurd⟩ | ⟨resp, rfl, hresp⟩
  · cases habsurd
  obtain rfl := Except.ok.inj hresp
  have hwithin (draft : String) (answer : Except (Exc F) Completion) :
      Within 0 0 1 1 ([draftAsked asked retrieval.findings (.ok resp)] ++
        [reviewAsked question retrieval.findings draft answer]) :=
    (within_draftAsked _).append (within_reviewAsked draft answer)
  rw [Routine.talk_bind_iff] at h
  rcases h with ⟨e, hverdict, rfl⟩ | ⟨verdict, first, rest, u, rfl, hverdict, h⟩
  · obtain ⟨answer, rfl, -⟩ := CriticAgent.talk_act hverdict
    exact ⟨hwithin _ _, fun _ _ habsurd => nomatch habsurd⟩
  · obtain ⟨answer, rfl, hsays⟩ := CriticAgent.talk_act hverdict
    obtain ⟨rfl, rfl, -⟩ := Routine.talk_pure_iff.mp h
    rw [List.append_nil]
    refine ⟨hwithin _ _, ?_⟩
    rintro _ _ ⟨⟩
    refine ⟨⟨resp, ?_, rfl⟩, answer, rfl, hsays verdict rfl⟩
    obtain ⟨-, -, -, -, -, hsc⟩ := systems_ne
    rw [completionsBy_append, asksAs_draftAsked.completionsBy_self,
      asksAs_reviewAsked.completionsBy_of_ne hsc.symm, List.append_nil]
    rfl

/-- What was done before does not matter. -/
theorem Reviewed.append_left {l' : Transcript F} {draft : Draft} {verdict : Verdict F}
    (h : Reviewed question findings l' draft verdict) :
    Reviewed question findings (l ++ l') draft verdict where
  drafted := by
    obtain ⟨resp, hlast, hdraft⟩ := h.drafted
    refine ⟨resp, ?_, hdraft⟩
    rw [completionsBy_append, List.getLast?_append, hlast]
    rfl
  judged := by
    obtain ⟨answer, hlast, hsays⟩ := h.judged
    refine ⟨answer, ?_, hsays⟩
    rw [List.getLast?_append, hlast]
    rfl

/-- There is at most one revision, and the verdict is that on the last
draft. -/
theorem talk_reviewed {r : Except (Exc F) (Draft × Verdict F)}
    (h : Routine.Talk (SupportCopilot.reviewed question retrieval) run l r run') :
    Within 0 0 2 2 l ∧ ∀ draft verdict, r = .ok (draft, verdict) →
      Reviewed question retrieval.findings l draft verdict := by
  rw [SupportCopilot.reviewed, Routine.talk_bind_iff] at h
  rcases h with ⟨e, hfirst, rfl⟩ | ⟨⟨draft, verdict⟩, first, rest, u, rfl, hfirst, h⟩
  · obtain ⟨hwithin, -⟩ := talk_criticized hfirst
    exact ⟨hwithin.mono le_rfl le_rfl one_le_two one_le_two, fun _ _ habsurd => nomatch habsurd⟩
  obtain ⟨hwithin, hreviewed⟩ := talk_criticized hfirst
  cases happroved : verdict.approved with
  | true =>
      simp only [happroved, if_true] at h
      obtain ⟨rfl, rfl, -⟩ := Routine.talk_pure_iff.mp h
      rw [List.append_nil]
      refine ⟨hwithin.mono le_rfl le_rfl one_le_two one_le_two, ?_⟩
      rintro _ _ ⟨⟩
      exact hreviewed draft verdict rfl
  | false =>
      simp only [happroved, Bool.false_eq_true, if_false] at h
      obtain ⟨hwithin', hreviewed'⟩ := talk_criticized h
      exact ⟨hwithin.append hwithin',
        fun draft verdict hr => (hreviewed' draft verdict hr).append_left⟩

end Reviews

/-! ## The turn -/

namespace SupportCopilot

variable {copilot : SupportCopilot} {retrieval : RetrievalResult F} {plan : Plan}

omit [PyFloat F] [UnicodeDb] [PyInt F] in
/-- No question is asked for a response. -/
theorem talk_respond {draft : Draft} {verdict : Verdict F} {r : Except (Exc F) (CopilotResponse F)}
    (h : Routine.Talk (respond plan retrieval draft verdict) run l r run') :
    l = [] ∧ r = .ok (responseOf run plan retrieval draft verdict) := by
  rw [respond, Routine.talk_bind_iff] at h
  rcases h with ⟨e, hcurrent, -⟩ | ⟨current, first, rest, u, rfl, hcurrent, h⟩
  · obtain ⟨-, habsurd, -⟩ := Routine.talk_current_iff.mp hcurrent
    cases habsurd
  · obtain ⟨rfl, hcurrent, rfl⟩ := Routine.talk_current_iff.mp hcurrent
    obtain ⟨rfl, rfl, -⟩ := Routine.talk_pure_iff.mp h
    cases hcurrent
    exact ⟨rfl, rfl⟩

/-- The response carries the draft and the verdict that belong together: the
verdict is on this draft, and on no earlier one. -/
def Carried (r : Except (Exc F) (Draft × Verdict F)) (plan : Plan)
    (retrieval : RetrievalResult F) (response : CopilotResponse F) : Prop :=
  ∃ draft verdict run, r = .ok (draft, verdict) ∧
    response = responseOf run plan retrieval draft verdict

/-- What comes after the plan: nothing, the retriever, or the retriever and
then drafts with their reviews. -/
def AfterPlan (copilot : SupportCopilot) (question : String) (plan : Plan) (l : Transcript F)
    (r : Except (Exc F) (CopilotResponse F)) : Prop :=
  ∃ gathered drafted, l = gathered ++ drafted ∧
    (gathered = [] ∨ ∃ u v result, Routine.Talk
      (RetrieverAgent.act ⟨copilot.maxRetrieverIterations⟩ plan question) u gathered result v) ∧
    (drafted = [] ∧ (∀ response, r = .ok response →
        response.plan = plan ∧ response.retrieval.findings = []) ∨
      ∃ retrieval u v result, Routine.Talk (reviewed question retrieval) u drafted result v ∧
        ∀ response, r = .ok response → Carried result plan retrieval response)

/-- A turn that ends early has made its plan, and has gathered either nothing
or what one run of the retriever has. -/
theorem afterPlan_shortCircuit {gathered : Transcript F} {message : String}
    {r : Except (Exc F) (CopilotResponse F)}
    (hgathered : gathered = [] ∨ ∃ u v result, Routine.Talk
      (RetrieverAgent.act ⟨copilot.maxRetrieverIterations⟩ plan question) u gathered result v)
    (h : Routine.Talk (shortCircuit plan message) run l r run') :
    AfterPlan copilot question plan (gathered ++ l) r := by
  obtain ⟨rfl, rfl⟩ := talk_respond h
  refine ⟨gathered, [], rfl, hgathered, Or.inl ⟨rfl, ?_⟩⟩
  rintro _ ⟨⟩
  exact ⟨rfl, rfl⟩

/-- A turn, taken apart. -/
theorem talk_answer {r : Except (Exc F) (CopilotResponse F)}
    (h : Routine.Talk (copilot.answer question) run l r run') :
    ∃ answer rest,
      l = planAsked question answer :: rest ∧
      (rest = [] ∧ (∃ e, r = .error e) ∨ ∃ plan, plan.customerId = extractCustomerId question ∧
        AfterPlan copilot question plan rest r) := by
  rw [answer, Routine.talk_bind_iff] at h
  rcases h with ⟨e, hplan, rfl⟩ | ⟨plan, first, rest, u, rfl, hplan, h⟩
  · obtain ⟨⟨answer, rfl⟩, -⟩ := PlannerAgent.talk_act hplan
    exact ⟨answer, [], rfl, Or.inl ⟨rfl, e, rfl⟩⟩
  obtain ⟨⟨answer, rfl⟩, hid⟩ := PlannerAgent.talk_act hplan
  refine ⟨answer, rest, rfl, Or.inr ⟨plan, hid plan rfl, ?_⟩⟩
  split at h
  · exact afterPlan_shortCircuit (Or.inl rfl) h
  rw [Routine.talk_bind_iff] at h
  rcases h with ⟨e, hgathered, rfl⟩ | ⟨retrieval, gathered, rest, v, rfl, hgathered, h⟩
  · exact ⟨rest, [], (List.append_nil _).symm, Or.inr ⟨_, _, _, hgathered⟩,
      Or.inl ⟨rfl, fun _ habsurd => nomatch habsurd⟩⟩
  have hretriever : gathered = [] ∨ ∃ u v result, Routine.Talk (RetrieverAgent.act
      ⟨copilot.maxRetrieverIterations⟩ plan question) u gathered result v :=
    Or.inr ⟨_, _, _, hgathered⟩
  split at h
  · exact afterPlan_shortCircuit hretriever h
  rw [Routine.talk_bind_iff] at h
  rcases h with ⟨e, hreviewed, rfl⟩ | ⟨⟨draft, verdict⟩, drafted, rest, w, rfl, hreviewed, h⟩
  · exact ⟨gathered, rest, rfl, hretriever, Or.inr ⟨retrieval, _, _, _, hreviewed,
      fun _ habsurd => nomatch habsurd⟩⟩
  · obtain ⟨rfl, rfl⟩ := talk_respond h
    rw [List.append_nil]
    refine ⟨gathered, drafted, rfl, hretriever, Or.inr ⟨retrieval, _, _, _, hreviewed, ?_⟩⟩
    rintro _ ⟨⟩
    exact ⟨draft, verdict, _, rfl, rfl⟩

/-- A turn asks for one plan, for no more decisions of the retriever than the
setting allows, and for two drafts and two reviews at most. -/
theorem within_of_talk {r : Except (Exc F) (CopilotResponse F)}
    (h : Routine.Talk (copilot.answer question) run l r run') :
    Within 1 copilot.maxRetrieverIterations.toNat 2 2 l := by
  obtain ⟨answer, rest, rfl, ⟨rfl, -⟩ | ⟨plan, -, gathered, drafted, rfl, hgathered, hdrafted⟩⟩ :=
    talk_answer h
  · exact (within_planAsked answer).mono le_rfl (Nat.zero_le _) (Nat.zero_le 2) (Nat.zero_le 2)
  have hgathered : Within 0 copilot.maxRetrieverIterations.toNat 0 0 gathered := by
    rcases hgathered with rfl | ⟨u, v, result, htalk⟩
    · exact Within.nil.mono le_rfl (Nat.zero_le _) le_rfl le_rfl
    · exact RetrieverAgent.within_of_talk htalk
  have hdrafted : Within 0 0 2 2 drafted := by
    rcases hdrafted with ⟨rfl, -⟩ | ⟨retrieval, u, v, result, htalk, -⟩
    · exact Within.nil.mono le_rfl le_rfl (Nat.zero_le 2) (Nat.zero_le 2)
    · exact (talk_reviewed htalk).1
  have hplanned : Within 1 0 0 0 [planAsked question answer] := within_planAsked answer
  have hwithin := hplanned.append (hgathered.append hdrafted)
  simp only [Nat.zero_add, Nat.add_zero] at hwithin
  exact hwithin

/-- **A turn is bounded, and what is approved is what is returned.**  Whatever
the model and the client answer, a turn that ends with a response took one
completion of the planner, few of the retriever, and at most two of the
synthesizer and the critic.  When there are findings, the draft, its citations
and the verdict belong together; and if the response is approved, the turn
ended with the critic saying `approve` of the draft that is returned. -/
theorem answer_bounded {response : CopilotResponse F}
    (h : Routine.Talk (copilot.answer question) run l (.ok response) run') :
    (completionsBy plannerSystem l).length = 1 ∧
      ((completionsBy retrieverSystem l).length : ℤ) ≤ max 0 copilot.maxRetrieverIterations ∧
      (completionsBy synthesizerSystem l).length ≤ 2 ∧
      (completionsBy criticSystem l).length ≤ 2 ∧
      (response.retrieval.findings ≠ [] →
        Reviewed question response.retrieval.findings l ⟨response.draft, response.citations⟩
          response.critic ∧
        (response.approved = true → ∃ resp, ∃ data : Value F,
          l.getLast? = some (reviewAsked question response.retrieval.findings response.draft
            (.ok resp)) ∧
          parseJsonLenient (firstTextBlock resp) = .ok data ∧
          get data "verdict" .none = .ok (.str "approve"))) := by
  have hwithin := within_of_talk h
  obtain ⟨answer, rest, rfl, ⟨-, e, habsurd⟩ | ⟨plan, -, gathered, drafted, rfl, -, hdrafted⟩⟩ :=
    talk_answer h
  · cases habsurd
  have hplanner : 1 ≤ (completionsBy plannerSystem
      (planAsked question answer :: (gathered ++ drafted))).length := by
    simp [completionsBy, completionBy?, planAsked]
  refine ⟨le_antisymm hwithin.planner hplanner, ?_, hwithin.synthesizer, hwithin.critic,
    fun hfindings => ?_⟩
  · have hle := hwithin.retriever
    omega
  rcases hdrafted with ⟨-, hnone⟩ | ⟨retrieval, u, v, result, htalk, hcarried⟩
  · exact absurd (hnone response rfl).2 hfindings
  obtain ⟨draft, verdict, w, rfl, rfl⟩ := hcarried response rfl
  have hreviewed : Reviewed question retrieval.findings
      ((planAsked question answer :: gathered) ++ drafted) draft verdict :=
    ((talk_reviewed htalk).2 draft verdict rfl).append_left
  refine ⟨hreviewed, fun happroved => ?_⟩
  obtain ⟨answer', hlast, resp, data, rfl, hparse, hverdict⟩ := hreviewed.judged
  exact ⟨resp, data, hlast, hparse, approves_of_readVerdict hverdict happroved⟩

/-! ## The customer ids that are sent -/

/-- The arguments have the customer id that was found in the question.  Without
an id in the question no arguments have it. -/
def CarriesId (customerId : Option String) (arguments : Value F) : Prop :=
  ∃ kvs id, arguments = .dict kvs ∧ customerId = some id ∧
    dictGet kvs "customer_id" = some (.str id)

/-- The decision is to call `customer.build_context`.  A decision that is done
calls nothing, whatever tool it names. -/
def CallsBuildContext (d : Value F) : Prop :=
  ¬ IsDone d ∧ member "tool" d = .str "customer.build_context"

omit [UnicodeDb] [PyInt F] in
/-- Missing arguments carry no id. -/
theorem carriesId_called_iff {customerId : Option String} {arguments : Value F} :
    CarriesId customerId (if arguments.truthy then arguments else .dict []) ↔
      CarriesId customerId arguments := by
  split
  next => rfl
  next hfalsy =>
    constructor
    · rintro ⟨kvs, id, ⟨⟩, -, hid⟩
      cases hid
    · rintro ⟨kvs, id, rfl, -, hid⟩
      cases kvs with
      | nil => cases hid
      | cons kv kvs => exact absurd rfl hfalsy

/-- The plan of a response has the id that is in the question. -/
theorem plan_customerId {response : CopilotResponse F}
    (h : Routine.Talk (copilot.answer question) run l (.ok response) run') :
    response.plan.customerId = extractCustomerId question := by
  obtain ⟨answer, rest, rfl, ⟨-, e, habsurd⟩ | ⟨plan, hid, gathered, drafted, rfl, -, hdrafted⟩⟩ :=
    talk_answer h
  · cases habsurd
  rcases hdrafted with ⟨-, hnone⟩ | ⟨retrieval, u, v, result, -, hcarried⟩
  · rw [(hnone response rfl).1, hid]
  · obtain ⟨draft, verdict, w, -, rfl⟩ := hcarried response rfl
    exact hid

/-- **Whose customer id is sent.**  The id of the plan is the one in the
question, a part of its text.  The calls of `customer.build_context` carry it
in exactly those turns in which all decisions of the model to make such a call
do. -/
theorem customerIds_sent_iff {r : Except (Exc F) (CopilotResponse F)}
    (h : Routine.Talk (copilot.answer question) run l r run') :
    (∀ response, r = .ok response →
        response.plan.customerId = extractCustomerId question ∧
          ∀ id, response.plan.customerId = some id →
            CustomerIds.IsId id.toList ∧ id.toList <:+: question.toList) ∧
      ((∀ call ∈ toolCallsOf l, call.name = "customer.build_context" →
          CarriesId (extractCustomerId question) call.arguments) ↔
        ∀ d ∈ retrieverDecisions l, CallsBuildContext d →
          CarriesId (extractCustomerId question) (member "arguments" d)) := by
  have hcalls := (within_of_talk h).calls
  refine ⟨fun response hr => ?_, ?_, ?_⟩
  · have hplan : response.plan.customerId = extractCustomerId question :=
      plan_customerId (hr ▸ h)
    exact ⟨hplan, fun id hid => isId_of_extractCustomerId (hplan ▸ hid)⟩
  · rintro hsent d hd ⟨hopen, htool⟩
    have hcalled := calledBy_eq_some_iff.mpr ⟨hopen, htool, by decide, rfl⟩
    have hmem := List.mem_filterMap.mpr ⟨d, hd, hcalled⟩
    rw [← hcalls] at hmem
    obtain ⟨call, hcall, heq⟩ := List.mem_map.mp hmem
    obtain ⟨hname, harguments⟩ := Prod.mk.inj heq
    have hcarries := hsent call hcall hname
    rw [harguments] at hcarries
    exact carriesId_called_iff.mp hcarries
  · intro hdecided call hcall hname
    have hmem : (call.name, call.arguments) ∈ sentCalls l := List.mem_map_of_mem hcall
    rw [hcalls] at hmem
    obtain ⟨d, hd, hcalled⟩ := List.mem_filterMap.mp hmem
    obtain ⟨hopen, htool, -, harguments⟩ := calledBy_eq_some_iff.mp hcalled
    rw [hname] at htool
    rw [harguments]
    exact carriesId_called_iff.mpr (hdecided d hd ⟨hopen, htool⟩)

end SupportCopilot

end Runs

/-! ## A turn about a refund -/

/-- A question in which code finds the id of a customer. -/
def refundQuestion : String := "Why was my order CUST-1234's refund delayed?"

/-- The arguments of `customer.build_context` with an id in them. -/
def customerArguments (id : String) : Value WholeFloat := .dict [("customer_id", .str id)]

/-- A decision of the model to ask for the context of a customer, under an id
of its own choice. -/
def contextDecision (id : String) : Value WholeFloat :=
  .dict [("tool", .str "customer.build_context"), ("arguments", customerArguments id)]

/-- A review that approves of the draft. -/
def approval : Value WholeFloat := .dict [("verdict", .str "approve")]

/-- A completion whose text is the JSON of a value. -/
def replyOf (v : Value WholeFloat) : Completion := ⟨[⟨some "text", some (dumps v)⟩], none, none⟩

/-- A completion with a draft that cites its source. -/
def draftReply : Completion := ⟨[⟨some "text", some "Approved on Monday [S1]."⟩], none, none⟩

/-- The plan that comes of the question when the completion of the planner
says nothing: the id in it was found by code. -/
def refundPlan : Plan := ⟨[], false, "", extractCustomerId refundQuestion⟩

/-- What the retriever has found: the context, in which there is nothing. -/
def refundFindings : List (Finding WholeFloat) :=
  [Finding.ofCall "customer.build_context" nothingFound]

/-- The draft as the synthesizer reads it out of the completion. -/
def refundDraft : Draft := Draft.ofText WholeFloat (firstTextBlock draftReply)

/-- What the copilot answers at the end of the turn. -/
def refundResponse : CopilotResponse WholeFloat :=
  SupportCopilot.responseOf ⟨"t1", 0, 0, 1⟩ refundPlan ⟨refundFindings, 1, true⟩ refundDraft
    ⟨true, [], .none⟩

/-- The model decides on the context of a customer. -/
def contextRound (id : String) (messages : List Message) : Transcript WholeFloat :=
  [decisionAsked messages (.ok (replyOf (contextDecision id))),
    ⟨.callTool "customer.build_context" (customerArguments id), .ok nothingFound⟩]

/-- The draft is approved. -/
def refundTurn (id prompt : String) : Transcript WholeFloat :=
  [planAsked refundQuestion (.ok (replyOf (.dict [])))] ++
    ((⟨.listTools, .ok (.list [])⟩ :: contextRound id [⟨"user", prompt⟩]) ++
      [draftAsked refundQuestion refundFindings (.ok draftReply),
        reviewAsked refundQuestion refundFindings refundDraft.text (.ok (replyOf approval))])

/-- The planner makes that plan, whatever the model has left out. -/
theorem talk_refundPlan :
    Routine.Talk (PlannerAgent.act refundQuestion) ⟨"t1", 0, 0, 0⟩
      [planAsked refundQuestion (.ok (replyOf (.dict [])))]
      (.ok refundPlan : Except (Exc WholeFloat) Plan) ⟨"t1", 0, 0, 0⟩ := by
  have hparse : parseJsonLenient (firstTextBlock (replyOf (.dict []))) =
      .ok (.dict [] : Value WholeFloat) :=
    parseJsonLenient_dumps (by simp [Value.Wf, Value.WfMembers])
  exact Routine.talk_bind_iff.mpr (Or.inr ⟨.dict [], [_], [], _, rfl,
    talk_completeJson_iff.mpr (Or.inr ⟨_, rfl, hparse.symm, rfl⟩),
    Routine.talk_ofExcept_iff.mpr ⟨rfl, rfl, rfl⟩⟩)

/-- The decision is read back out of the completion as it was written into
it. -/
theorem parse_contextDecision (id : String) :
    parseJsonLenient (firstTextBlock (replyOf (contextDecision id))) = .ok (contextDecision id) :=
  parseJsonLenient_dumps (by simp [Value.Wf, Value.WfMembers, customerArguments])

/-- The retriever is given that decision. -/
theorem retrieverDecisions_refundTurn (id prompt : String) :
    retrieverDecisions (refundTurn id prompt) = [contextDecision id] := by
  obtain ⟨hpr, -, -, hrs, hrc, -⟩ := systems_ne
  have hplan : AsksAs plannerSystem
      [planAsked (F := WholeFloat) refundQuestion (.ok (replyOf (.dict [])))] :=
    asksAs_singleton _ _ _ _
  have hlisted : AsksAs (F := WholeFloat) retrieverSystem [⟨.listTools, .ok (.list [])⟩] :=
    asksAs_of_completionsOf_eq_nil rfl
  have hround : AsksAs retrieverSystem (contextRound id [⟨"user", prompt⟩]) :=
    (asksAs_singleton _ _ _ _).append (asksAs_of_completionsOf_eq_nil rfl)
  have hdecided : decisionsOf (contextRound id [⟨"user", prompt⟩]) = [contextDecision id] :=
    decisionsOf_asked (parse_contextDecision id) rfl
  calc retrieverDecisions (refundTurn id prompt)
      = retrieverDecisions ([planAsked refundQuestion (.ok (replyOf (.dict [])))] ++
          (([⟨.listTools, .ok (.list [])⟩] ++ contextRound id [⟨"user", prompt⟩]) ++
            ([draftAsked refundQuestion refundFindings (.ok draftReply)] ++
              [reviewAsked refundQuestion refundFindings refundDraft.text
                (.ok (replyOf approval))]))) := by
        simp only [refundTurn, List.singleton_append]
    _ = [contextDecision id] := by
      simp only [retrieverDecisions_append, hplan.retrieverDecisions_of_ne hpr,
        hlisted.retrieverDecisions_self, hround.retrieverDecisions_self, hdecided,
        asksAs_draftAsked.retrieverDecisions_of_ne hrs.symm,
        asksAs_reviewAsked.retrieverDecisions_of_ne hrc.symm]
      rfl

/-- The retriever asks the model once, and sends the call that the model has
decided on to the server, with the id that the model has put into it. -/
theorem talk_refundContext (id : String) (messages : List Message) :
    Routine.Talk (turn messages) ⟨"t1", 0, 0, 0⟩ (contextRound id messages)
      (.ok (.next (messages ++ replied (contextDecision id)
        (observed (.str "customer.build_context") nothingFound)) refundFindings))
      ⟨"t1", 0, 0, 1⟩ :=
  talk_turn_call (parse_contextDecision id) rfl

/-- The draft is written and approved of at the first attempt. -/
theorem talk_refundReview :
    Routine.Talk (SupportCopilot.reviewed refundQuestion ⟨refundFindings, 1, true⟩)
      ⟨"t1", 0, 0, 1⟩
      [draftAsked refundQuestion refundFindings (.ok draftReply),
        reviewAsked refundQuestion refundFindings refundDraft.text (.ok (replyOf approval))]
      (.ok (refundDraft, ⟨true, [], .none⟩)) ⟨"t1", 0, 0, 1⟩ := by
  have hparse : parseJsonLenient (firstTextBlock (replyOf approval)) = .ok approval :=
    parseJsonLenient_dumps (by simp [Value.Wf, Value.WfMembers])
  have hdraft : Routine.Talk (SynthesizerAgent.act refundQuestion refundFindings)
      ⟨"t1", 0, 0, 1⟩ [draftAsked refundQuestion refundFindings (.ok draftReply)]
      (.ok refundDraft) ⟨"t1", 0, 0, 1⟩ :=
    Routine.talk_bind_iff.mpr (Or.inr ⟨_, [_], [], _, rfl,
      talk_completeText_iff.mpr (Or.inr ⟨_, rfl, rfl, rfl⟩),
      Routine.talk_pure_iff.mpr ⟨rfl, rfl, rfl⟩⟩)
  have hverdict : Routine.Talk (CriticAgent.act refundQuestion refundFindings refundDraft)
      ⟨"t1", 0, 0, 1⟩
      [reviewAsked refundQuestion refundFindings refundDraft.text (.ok (replyOf approval))]
      (.ok ⟨true, [], .none⟩) ⟨"t1", 0, 0, 1⟩ :=
    Routine.talk_bind_iff.mpr (Or.inr ⟨approval, [_], [], _, rfl,
      talk_completeJson_iff.mpr (Or.inr ⟨_, rfl, hparse.symm, rfl⟩),
      Routine.talk_ofExcept_iff.mpr ⟨rfl, rfl, rfl⟩⟩)
  refine Routine.talk_bind_iff.mpr (Or.inr ⟨(refundDraft, ⟨true, [], .none⟩), _, [], _,
    (List.append_nil _).symm, ?_, Routine.talk_pure_iff.mpr ⟨rfl, rfl, rfl⟩⟩)
  refine Routine.talk_bind_iff.mpr (Or.inr ⟨_, [_], _, _, rfl, hdraft, ?_⟩)
  exact Routine.talk_bind_iff.mpr (Or.inr ⟨_, [_], [], _, rfl, hverdict,
    Routine.talk_pure_iff.mpr ⟨rfl, rfl, rfl⟩⟩)

/-- The whole turn, from the question to the answer, for every id that the
model may choose. -/
theorem talk_refund (id : String) :
    ∃ prompt, Routine.Talk (SupportCopilot.answer ⟨1⟩ refundQuestion) ⟨"t1", 0, 0, 0⟩
      (refundTurn id prompt) (.ok refundResponse) ⟨"t1", 0, 0, 1⟩ := by
  obtain ⟨prompt, hcontext⟩ :=
    RetrieverAgent.talk_act_once (talk_refundContext id) refundPlan refundQuestion
  refine ⟨prompt, Routine.talk_bind_iff.mpr
    (Or.inr ⟨refundPlan, [_], _, _, rfl, talk_refundPlan, ?_⟩)⟩
  rw [if_neg fun h => nomatch h.1]
  refine Routine.talk_bind_iff.mpr (Or.inr ⟨_, _, _, _, rfl, hcontext, ?_⟩)
  rw [if_neg (by simp [refundFindings])]
  refine Routine.talk_bind_iff.mpr (Or.inr ⟨_, _, [], _, (List.append_nil _).symm,
    talk_refundReview, ?_⟩)
  exact Routine.talk_bind_iff.mpr (Or.inr ⟨_, [], [], _, rfl,
    Routine.talk_current_iff.mpr ⟨rfl, rfl, rfl⟩, Routine.talk_pure_iff.mpr ⟨rfl, rfl, rfl⟩⟩)

/-- The draft on the refund is approved as it is returned. -/
theorem refund_bounded :
    ∃ (l : Transcript WholeFloat) (response : CopilotResponse WholeFloat),
      response.approved = true ∧ response.retrieval.findings ≠ [] ∧
      (completionsBy plannerSystem l).length = 1 ∧
      ((completionsBy retrieverSystem l).length : ℤ) ≤ max 0 1 ∧
      (completionsBy synthesizerSystem l).length ≤ 2 ∧
      (completionsBy criticSystem l).length ≤ 2 ∧
      ∃ resp, l.getLast? = some (reviewAsked refundQuestion response.retrieval.findings
        response.draft (.ok resp)) := by
  obtain ⟨prompt, htalk⟩ := talk_refund "1234"
  obtain ⟨hplanner, hretriever, hsynthesizer, hcritic, hreviewed⟩ :=
    SupportCopilot.answer_bounded htalk
  have hfindings : refundResponse.retrieval.findings ≠ [] := List.cons_ne_nil _ _
  obtain ⟨-, happroved⟩ := hreviewed hfindings
  obtain ⟨resp, data, hlast, -, -⟩ := happroved rfl
  exact ⟨_, refundResponse, rfl, hfindings, hplanner, hretriever, hsynthesizer, hcritic, resp,
    hlast⟩

/-- The model decides on the context of customer 1234, and the id in the
question is sent. -/
theorem refund_sends_decided :
    ∃ (l : Transcript WholeFloat) (response : CopilotResponse WholeFloat) (run' : AgentRun),
      Routine.Talk (SupportCopilot.answer ⟨1⟩ refundQuestion) ⟨"t1", 0, 0, 0⟩ l (.ok response)
        run' ∧
      (∃ call ∈ toolCallsOf l, call.name = "customer.build_context") ∧
      ∀ call ∈ toolCallsOf l, call.name = "customer.build_context" →
        SupportCopilot.CarriesId (extractCustomerId refundQuestion) call.arguments := by
  have hid : extractCustomerId refundQuestion = some "1234" := by decide
  obtain ⟨prompt, htalk⟩ := talk_refund "1234"
  have hdecided : ∀ d ∈ retrieverDecisions (refundTurn "1234" prompt),
      SupportCopilot.CallsBuildContext d →
        SupportCopilot.CarriesId (extractCustomerId refundQuestion) (member "arguments" d) := by
    rw [retrieverDecisions_refundTurn]
    intro d hd _
    obtain rfl := List.mem_singleton.mp hd
    exact ⟨[("customer_id", .str "1234")], "1234", rfl, hid, rfl⟩
  exact ⟨_, _, _, htalk, ⟨_, List.mem_singleton.mpr rfl, rfl⟩,
    (SupportCopilot.customerIds_sent_iff htalk).2.mpr hdecided⟩

/-- The question is about customer 1234, and the context of customer 9999 is
asked for. -/
theorem other_customer_sent :
    ∃ (l : Transcript WholeFloat) (response : CopilotResponse WholeFloat) (run' : AgentRun),
      Routine.Talk (SupportCopilot.answer ⟨1⟩ refundQuestion) ⟨"t1", 0, 0, 0⟩ l (.ok response)
        run' ∧
      response.plan.customerId = some "1234" ∧
      ∃ call ∈ toolCallsOf l, call.name = "customer.build_context" ∧
        call.arguments = .dict [("customer_id", .str "9999")] ∧
        ¬ SupportCopilot.CarriesId (extractCustomerId refundQuestion) call.arguments := by
  have hid : extractCustomerId refundQuestion = some "1234" := by decide
  obtain ⟨prompt, htalk⟩ := talk_refund "9999"
  refine ⟨_, _, _, htalk, hid, _, List.mem_singleton.mpr rfl, rfl, rfl, ?_⟩
  rintro ⟨kvs, id, ⟨⟩, hquestion, hsent⟩
  rw [hid] at hquestion
  cases hquestion
  exact absurd hsent (by simp [dictGet])

end Agents
