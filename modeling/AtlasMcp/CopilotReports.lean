import AtlasMcp.CopilotRuns

/-!
# What a turn of the copilot reports

The response reports the tokens of the turn, its tool calls, and what the retriever found.  All
agents write to one account, and each of them charges it for what it asks (`Honest`), so tokens and
calls are reported as they were, on every path.  Not so the retrieval: a retriever that comes back
without findings has still run, and the response says that it did not (`reports_truthful_iff`).
-/

namespace Agents

open PyJson PyText Errors Dialogues
open AgentWire (ToolResult)

/-! ## The account -/

section Accounts

variable {F : Type}

/-- The usage that an answer reports; one that raises has none. -/
def usageIn : Except (Exc F) Completion → ℤ
  | .ok resp => resp.inputTokens.getD 0
  | .error _ => 0

/-- The tokens of a completion that its usage reports as output; without a
report, or without a completion, there are none. -/
def usageOut : Except (Exc F) Completion → ℤ
  | .ok resp => resp.outputTokens.getD 0
  | .error _ => 0

/-- The account has been charged for the transcript: for the tokens that its
completions report, and for the calls of tools in it. -/
structure Charged (run : AgentRun) (l : Transcript F) (run' : AgentRun) : Prop where
  tokensIn : run'.tokensIn = run.tokensIn + ((completionsOf l).map usageIn).sum
  tokensOut : run'.tokensOut = run.tokensOut + ((completionsOf l).map usageOut).sum
  toolCalls : run'.toolCalls = run.toolCalls + (toolCallsOf l).length

variable {run run' run'' : AgentRun} {l l' : Transcript F}

theorem Charged.refl (run : AgentRun) : Charged run ([] : Transcript F) run :=
  ⟨(add_zero _).symm, (add_zero _).symm, rfl⟩

theorem Charged.append (h : Charged run l run') (h' : Charged run' l' run'') :
    Charged run (l ++ l') run'' where
  tokensIn := by
    rw [h'.tokensIn, h.tokensIn, completionsOf_append, List.map_append, List.sum_append, add_assoc]
  tokensOut := by
    rw [h'.tokensOut, h.tokensOut, completionsOf_append, List.map_append, List.sum_append,
      add_assoc]
  toolCalls := by
    rw [h'.toolCalls, h.toolCalls, toolCallsOf_append, List.length_append, Nat.add_assoc]

/-- The task charges the account for what it asks, however it ends: with a
result, or with an exception. -/
def Honest {α : Type} (task : Task F α) : Prop :=
  ∀ run l r run', Routine.Talk task run l r run' → Charged run l run'

variable {α β : Type}

theorem Honest.pure (a : α) : Honest (Pure.pure a : Task F α) := by
  intro run l r run' h
  obtain ⟨rfl, -, rfl⟩ := Routine.talk_pure_iff.mp h
  exact Charged.refl _

/-- A result that is there already is not charged for. -/
theorem Honest.ofExcept (x : Except (Exc F) α) : Honest (Routine.ofExcept x : Task F α) := by
  intro run l r run' h
  obtain ⟨rfl, -, rfl⟩ := Routine.talk_ofExcept_iff.mp h
  exact Charged.refl _

theorem Honest.bind {task : Task F α} {f : α → Task F β} (h : Honest task)
    (hf : ∀ a, Honest (f a)) : Honest (task >>= f) := by
  intro run l r run' htalk
  rcases Routine.talk_bind_iff.mp htalk with ⟨e, hfirst, -⟩ |
    ⟨a, first, rest, u, rfl, hfirst, hrest⟩
  · exact h _ _ _ _ hfirst
  · exact (h _ _ _ _ hfirst).append (hf a _ _ _ _ hrest)

theorem Honest.listTools : Honest (Routine.asking .listTools id : Task F (Value F)) := by
  intro run l r run' h
  obtain ⟨answer, rfl, -, rfl⟩ := Routine.talk_asking_iff.mp h
  exact ⟨(add_zero _).symm, (add_zero _).symm, rfl⟩

/-- A call is counted before it is made. -/
theorem Honest.callTool {name : String} {arguments : Value F} {f : ToolResult F → Task F α}
    (hf : ∀ result, Honest (f result)) :
    Honest (do
      Routine.update fun run => { run with toolCalls := run.toolCalls + 1 }
      let result ← Routine.asking (.callTool name arguments) id
      f result) := by
  intro run l r run' h
  rcases Routine.talk_bind_iff.mp h with ⟨e, hupdate, -⟩ | ⟨_, first, rest, u, rfl, hupdate, h⟩
  · obtain ⟨-, habsurd, -⟩ := Routine.talk_update_iff.mp hupdate
    cases habsurd
  obtain ⟨rfl, -, rfl⟩ := Routine.talk_update_iff.mp hupdate
  have hcounted (answer : Except (Exc F) (ToolResult F)) :
      Charged run [⟨.callTool name arguments, answer⟩]
        { run with toolCalls := run.toolCalls + 1 } :=
    ⟨(add_zero _).symm, (add_zero _).symm, rfl⟩
  rcases Routine.talk_bind_iff.mp h with ⟨e, hcall, -⟩ | ⟨result, first, rest, u, rfl, hcall, hrest⟩
  · obtain ⟨answer, rfl, -, rfl⟩ := Routine.talk_asking_iff.mp hcall
    exact hcounted answer
  · obtain ⟨answer, rfl, -, rfl⟩ := Routine.talk_asking_iff.mp hcall
    exact (hcounted answer).append (hf result _ _ _ _ hrest)

/-- A completion is charged with the tokens that its usage reports. -/
theorem Honest.completeText (system : String) (messages : List Message) (maxTokens : ℕ) :
    Honest (F := F) (completeText system messages maxTokens) := by
  intro run l r run' h
  rcases talk_completeText_iff.mp h with ⟨e, rfl, -, rfl⟩ | ⟨resp, rfl, -, rfl⟩
  · exact ⟨(add_zero _).symm, (add_zero _).symm, rfl⟩
  · exact ⟨by simp [AgentRun.charged, completionsOf, completion?, usageIn],
      by simp [AgentRun.charged, completionsOf, completion?, usageOut], rfl⟩

variable [PyFloat F]

/-- Reading the text of a completion as JSON charges nothing more, also where
the text cannot be read. -/
theorem Honest.completeJson (system : String) (messages : List Message) (maxTokens : ℕ) :
    Honest (F := F) (completeJson system messages maxTokens) :=
  (Honest.completeText system messages maxTokens).bind fun _ => .ofExcept _

variable [UnicodeDb]

/-- A decision of the retriever charges for its completion, and for its call
of a tool if it makes one. -/
theorem Honest.turn (messages : List Message) : Honest (F := F) (turn messages) := by
  refine (Honest.completeJson _ _ _).bind fun decision => (Honest.ofExcept _).bind fun x => ?_
  cases x with
  | done claimed => exact .pure _
  | silent => exact .pure _
  | forbidden tool => exact .pure _
  | call name arguments => exact .callTool fun result => .pure _

/-- The retriever charges for all its decisions, by induction on those that it
has left. -/
theorem Honest.loop (used remaining : ℕ) (messages : List Message) (findings : List (Finding F)) :
    Honest (loop used remaining messages findings) := by
  induction remaining generalizing used messages findings with
  | zero => exact .pure _
  | succ remaining ih =>
      refine (Honest.turn messages).bind fun x => ?_
      cases x with
      | finished claimed => exact .pure _
      | next messages found => exact ih _ _ _

theorem Honest.retriever (agent : RetrieverAgent) (plan : Plan) (question : String) :
    Honest (F := F) (agent.act plan question) := by
  refine Honest.bind (Honest.listTools.bind fun _ => .ofExcept _) fun specs => ?_
  exact (Honest.ofExcept _).bind fun prompt => .loop _ _ _ _

variable [PyInt F]

theorem Honest.planner (question : String) : Honest (F := F) (PlannerAgent.act question) :=
  (Honest.completeJson _ _ _).bind fun _ => .ofExcept _

/-- The drafts and the reviews charge for their completions. -/
theorem Honest.reviewed (question : String) (retrieval : RetrievalResult F) :
    Honest (SupportCopilot.reviewed question retrieval) := by
  have hcriticized (asked : String) : Honest (SupportCopilot.criticized question retrieval
      (SynthesizerAgent.act asked retrieval.findings)) := by
    refine Honest.bind ((Honest.completeText _ _ _).bind fun _ => .pure _) fun draft => ?_
    exact Honest.bind ((Honest.completeJson _ _ _).bind fun _ => .ofExcept _) fun _ => .pure _
  refine (hcriticized question).bind fun x => ?_
  obtain ⟨draft, verdict⟩ := x
  by_cases happroved : verdict.approved = true
  · simp only [happroved, if_true]
    exact .pure _
  · simp only [happroved]
    exact hcriticized _

end Accounts

/-! ## The report -/

section Reports

variable {F : Type} [PyFloat F] [UnicodeDb] {used remaining : ℕ} {messages : List Message}
  {findings : List (Finding F)} {run run' : AgentRun} {l : Transcript F} {question : String}

/-- The decision is for a call, or for an end with findings.  With one of these,
the retrieval has something to show. -/
def Fruitful (d : Value F) : Prop :=
  calledBy d ≠ none ∨ IsDone d ∧ claimedFindings d ≠ .ok []

/-- A loop that comes to a result has used a round, or had none to use. -/
theorem loop_leaves_trace {result : RetrievalResult F}
    (h : Routine.Talk (loop used remaining messages findings) run l (.ok result) run') :
    result.exceededBudget = true ∨ used < result.iterationsUsed := by
  induction remaining generalizing used messages findings run l with
  | zero =>
      obtain ⟨-, hresult, -⟩ := Routine.talk_pure_iff.mp h
      cases hresult
      exact Or.inl rfl
  | succ remaining ih =>
      rw [loop, Routine.talk_bind_iff] at h
      rcases h with ⟨e, -, habsurd⟩ | ⟨x, first, rest, u, rfl, -, hrest⟩
      · cases habsurd
      cases x with
      | finished claimed =>
          obtain ⟨-, hresult, -⟩ := Routine.talk_pure_iff.mp hrest
          cases hresult
          exact Or.inr (Nat.lt_succ_self used)
      | next messages' found => exact (ih hrest).imp_right Nat.lt_of_succ_lt

/-- What the retriever returns is never what `RetrievalResult()` is. -/
theorem RetrieverAgent.result_ne_empty {agent : RetrieverAgent} {plan : Plan}
    {result : RetrievalResult F}
    (h : Routine.Talk (agent.act plan question) run l (.ok result) run') : result ≠ {} := by
  obtain ⟨answer, rest, rfl, ⟨-, -, e, habsurd⟩ | ⟨prompt, hloop⟩⟩ := RetrieverAgent.talk_act h
  · cases habsurd
  · rintro rfl
    rcases loop_leaves_trace hloop with hexceeded | hused
    · cases hexceeded
    · exact absurd hused (Nat.not_lt_zero 0)

/-- However the retriever ends, it has called and counted what its loop did,
and what it returns is what the loop reports. -/
theorem RetrieverAgent.accounted_of_talk {agent : RetrieverAgent} {plan : Plan}
    {r : Except (Exc F) (RetrievalResult F)}
    (h : Routine.Talk (agent.act plan question) run l r run') :
    Accounted run l run' ∧ ∀ result, r = .ok result → Reported l [] result := by
  obtain ⟨answer, rest, rfl, ⟨rfl, rfl, e, rfl⟩ | ⟨prompt, hloop⟩⟩ := RetrieverAgent.talk_act h
  · -- the listing failed, and nothing has been called
    exact ⟨⟨List.forall_mem_nil _, rfl⟩, fun result habsurd => nomatch habsurd⟩
  · obtain ⟨-, haccount, hreport⟩ := loop_spec hloop
    refine ⟨⟨haccount.allowed, haccount.counted⟩, fun result hresult => ?_⟩
    obtain ⟨hfindings, hbudget⟩ := hreport result hresult
    exact ⟨hfindings, hbudget⟩

/-- **Findings.**  The retriever finds something exactly if it was given a
fruitful decision. -/
theorem RetrieverAgent.findings_ne_nil_iff {agent : RetrieverAgent} {plan : Plan}
    {result : RetrievalResult F}
    (h : Routine.Talk (agent.act plan question) run l (.ok result) run') :
    result.findings ≠ [] ↔ ∃ d ∈ decisionsOf l, Fruitful d := by
  obtain ⟨called, claimed, hfindings, hcalled, hclaimed⟩ :=
    ((RetrieverAgent.accounted_of_talk h).2 result rfl).findings
  rw [List.nil_append] at hfindings
  obtain ⟨-, hcalls, -⟩ := RetrieverAgent.act_calls h
  -- one finding for each call
  have hcalled_iff : called ≠ [] ↔ ∃ d ∈ decisionsOf l, calledBy d ≠ none := by
    have hlength : called.length = ((decisionsOf l).filterMap calledBy).length := by
      rw [← hcalls, sentCalls, List.length_map, hcalled.length_eq]
    rw [ne_eq, ← List.length_eq_zero_iff, hlength, List.length_eq_zero_iff,
      List.filterMap_eq_nil_iff]
    push Not
    rfl
  have hclaimed_iff : claimed ≠ [] ↔
      ∃ d ∈ decisionsOf l, IsDone d ∧ claimedFindings d ≠ .ok [] := by
    rcases hclaimed with ⟨hopen, rfl⟩ | ⟨earlier, last, hall, hopen, hdone, hlast⟩
    · refine iff_of_false (by simp) ?_
      rintro ⟨d, hd, hdone, -⟩
      exact hopen d hd hdone
    · rw [hall]
      constructor
      · intro hsome
        exact ⟨last, by simp, hdone, fun hnone => hsome (Except.ok.inj (hlast.symm.trans hnone))⟩
      · rintro ⟨d, hd, hd_done, hd_claims⟩ rfl
        rcases List.mem_append.mp hd with hearlier | hd
        · exact hopen d hearlier hd_done
        · exact hd_claims (List.mem_singleton.mp hd ▸ hlast)
  rw [hfindings, ne_eq, List.append_eq_nil_iff, not_and_or, ← ne_eq, ← ne_eq, hcalled_iff,
    hclaimed_iff]
  constructor
  · rintro (⟨d, hd, hd_called⟩ | ⟨d, hd, hd_done⟩)
    · exact ⟨d, hd, Or.inl hd_called⟩
    · exact ⟨d, hd, Or.inr hd_done⟩
  · rintro ⟨d, hd, hd_called | hd_done⟩
    · exact Or.inl ⟨d, hd, hd_called⟩
    · exact Or.inr ⟨d, hd, hd_done⟩

/-- The tools are listed when the retriever starts. -/
theorem RetrieverAgent.listTools_mem {agent : RetrieverAgent} {plan : Plan}
    {r : Except (Exc F) (RetrievalResult F)}
    (h : Routine.Talk (agent.act plan question) run l r run') : ∃ x ∈ l, x.1 = .listTools := by
  obtain ⟨answer, rest, rfl, -⟩ := RetrieverAgent.talk_act h
  exact ⟨_, List.mem_cons_self, rfl⟩

namespace SupportCopilot

variable [PyInt F] {copilot : SupportCopilot} {response : CopilotResponse F} {runId : String}

omit [PyInt F] [UnicodeDb] [PyFloat F] in
/-- The plan requires an id, and there is none.  The turn ends then, with a
request to give one. -/
def IdMissing (plan : Plan) : Prop := plan.customerIdRequired = true ∧ plan.customerId.getD "" = ""

/-- The planner and then the retriever have had these exchanges, and this came
of it. -/
def Retrieved (copilot : SupportCopilot) (question : String) (run : AgentRun)
    (planned gathered : Transcript F) (result : RetrievalResult F) : Prop :=
  ∃ plan u v, Routine.Talk (PlannerAgent.act question) run planned (.ok plan) u ∧
    ¬ IdMissing plan ∧
    Routine.Talk (RetrieverAgent.act ⟨copilot.maxRetrieverIterations⟩ plan question) u gathered
      (.ok result) v

/-- The retriever has run in the turn, and returned this, after the exchanges of
the planner and before those of the review. -/
def Returned (copilot : SupportCopilot) (question : String) (run : AgentRun) (l : Transcript F)
    (result : RetrievalResult F) : Prop :=
  ∃ planned gathered rest, l = planned ++ (gathered ++ rest) ∧
    Retrieved copilot question run planned gathered result

omit [PyFloat F] [UnicodeDb] [PyInt F] in
/-- The response shows an account that has been charged for the transcript. -/
def ShowsAccount (run : AgentRun) (l : Transcript F) (response : CopilotResponse F) : Prop :=
  ∃ w, Charged run l w ∧ response.tokensIn = w.tokensIn ∧ response.tokensOut = w.tokensOut ∧
    response.toolCalls = w.toolCalls

/-- How a turn can come to a response, and the retrieval this shows. -/
theorem path_of_talk (h : Routine.Talk (copilot.answer question) run l (.ok response) run') :
    ShowsAccount run l response ∧
      ((∃ u, Routine.Talk (PlannerAgent.act question) run l (.ok response.plan) u ∧
          response.draft = customerIdMissing) ∨
        ∃ planned gathered rest result u v, l = planned ++ (gathered ++ rest) ∧
          Routine.Talk (PlannerAgent.act question) run planned (.ok response.plan) u ∧
          ¬ IdMissing response.plan ∧
          Routine.Talk (RetrieverAgent.act ⟨copilot.maxRetrieverIterations⟩ response.plan question)
            u gathered (.ok result) v ∧
          (result.findings = [] ∧ rest = [] ∧ response.retrieval = {} ∨
            result.findings ≠ [] ∧ response.retrieval = result)) := by
  rw [answer, Routine.talk_bind_iff] at h
  rcases h with ⟨e, -, habsurd⟩ | ⟨plan, planned, rest, u, rfl, hplan, h⟩
  · cases habsurd
  have hplanned := Honest.planner question _ _ _ _ hplan
  split at h
  next hid =>
    obtain ⟨rfl, hresponse⟩ := talk_respond h
    cases hresponse
    rw [List.append_nil]
    exact ⟨⟨u, hplanned, rfl, rfl, rfl⟩, Or.inl ⟨u, hplan, rfl⟩⟩
  next hid =>
    rw [Routine.talk_bind_iff] at h
    rcases h with ⟨e, -, habsurd⟩ | ⟨retrieval, gathered, rest, v, rfl, hgather, h⟩
    · cases habsurd
    have hgathered := hplanned.append (Honest.retriever _ _ _ _ _ _ _ hgather)
    split at h
    next hempty =>
      obtain ⟨rfl, hresponse⟩ := talk_respond h
      cases hresponse
      exact ⟨⟨v, by rwa [List.append_nil], rfl, rfl, rfl⟩, Or.inr ⟨planned, gathered, [],
        retrieval, u, v, rfl, hplan, hid, hgather,
        Or.inl ⟨List.isEmpty_iff.mp hempty, rfl, rfl⟩⟩⟩
    next hfound =>
      rw [Routine.talk_bind_iff] at h
      rcases h with ⟨e, -, habsurd⟩ | ⟨⟨draft, verdict⟩, drafted, rest, w, rfl, hreview, h⟩
      · cases habsurd
      obtain ⟨rfl, hresponse⟩ := talk_respond h
      cases hresponse
      have hdrafted := hgathered.append (Honest.reviewed _ _ _ _ _ _ hreview)
      exact ⟨⟨w, by simpa using hdrafted, rfl, rfl, rfl⟩, Or.inr ⟨planned, gathered, _, retrieval,
        u, v, rfl, hplan, hid, hgather,
        Or.inr ⟨fun hnone => hfound (List.isEmpty_iff.mpr hnone), rfl⟩⟩⟩

/-- What a response should report of the turn: the usage of all its
completions, the number of its tool calls, and what the retriever returned in
it, if it ran. -/
structure Truthful (copilot : SupportCopilot) (question : String) (run : AgentRun)
    (l : Transcript F) (response : CopilotResponse F) : Prop where
  tokensIn : response.tokensIn = ((completionsOf l).map usageIn).sum
  tokensOut : response.tokensOut = ((completionsOf l).map usageOut).sum
  toolCalls : response.toolCalls = (toolCallsOf l).length
  retrieval : (∃ result, Returned copilot question run l result) →
    Returned copilot question run l response.retrieval

/-- The planner is asked once, and no tools are listed for it. -/
theorem planner_exchange {r : Except (Exc F) Plan}
    (h : Routine.Talk (PlannerAgent.act question) run l r run') :
    l.length = 1 ∧ (∀ x ∈ l, x.1 ≠ .listTools) ∧ retrieverDecisions l = [] := by
  obtain ⟨⟨answer, rfl⟩, -⟩ := PlannerAgent.talk_act h
  have hasks : AsksAs (F := F) plannerSystem [planAsked question answer] := asksAs_singleton _ _ _ _
  refine ⟨rfl, ?_, ?_⟩
  · intro x hx
    rw [List.mem_singleton.mp hx]
    exact fun habsurd => nomatch habsurd
  · exact hasks.retrieverDecisions_of_ne systems_ne.1

/-- **When the report is true.**  Tokens and tool calls are reported as they
were.  The retrieval is, exactly if the retriever did not run or was given a
fruitful decision. -/
theorem reports_truthful_iff
    (h : Routine.Talk (copilot.answer question) ⟨runId, 0, 0, 0⟩ l (.ok response) run') :
    Truthful copilot question ⟨runId, 0, 0, 0⟩ l response ↔
      (∀ x ∈ l, x.1 ≠ .listTools) ∨ ∃ d ∈ retrieverDecisions l, Fruitful d := by
  obtain ⟨⟨w, hcharged, hin, hout, hcalls⟩, hpath⟩ := path_of_talk h
  have htruthful : Truthful copilot question ⟨runId, 0, 0, 0⟩ l response ↔
      ((∃ result, Returned copilot question ⟨runId, 0, 0, 0⟩ l result) →
        Returned copilot question ⟨runId, 0, 0, 0⟩ l response.retrieval) := by
    refine ⟨Truthful.retrieval, fun hretrieval => ⟨?_, ?_, ?_, hretrieval⟩⟩
    · rw [hin, hcharged.tokensIn, zero_add]
    · rw [hout, hcharged.tokensOut, zero_add]
    · rw [hcalls, hcharged.toolCalls, zero_add]
  rw [htruthful]
  rcases hpath with ⟨u, hplan, -⟩ |
    ⟨planned, gathered, rest, result, u, v, rfl, hplan, hid, hgather, hshown⟩
  · -- the whole turn is the planner's exchange
    obtain ⟨-, hunlisted, -⟩ := planner_exchange hplan
    refine iff_of_true ?_ (Or.inl hunlisted)
    rintro ⟨result, planned, gathered, rest, rfl, _, _, _, -, -, hgather⟩
    obtain ⟨x, hx, hlist⟩ := RetrieverAgent.listTools_mem hgather
    exact absurd hlist (hunlisted x (by simp [hx]))
  obtain ⟨-, -, hplanned⟩ := planner_exchange hplan
  have hdecisions : retrieverDecisions gathered = decisionsOf gathered :=
    (RetrieverAgent.act_calls hgather).1.retrieverDecisions_self
  have hreturned : Returned copilot question ⟨runId, 0, 0, 0⟩ (planned ++ (gathered ++ rest))
      result :=
    ⟨planned, gathered, rest, rfl, _, u, v, hplan, hid, hgather⟩
  have hfindings := RetrieverAgent.findings_ne_nil_iff hgather
  rcases hshown with ⟨hnone, rfl, hresponse⟩ | ⟨hsome, hresponse⟩
  · refine iff_of_false (fun htrue => ?_) ?_
    · obtain ⟨_, _, _, -, _, _, _, -, -, hempty⟩ := htrue ⟨result, hreturned⟩
      exact RetrieverAgent.result_ne_empty hempty hresponse
    · rintro (hunlisted | ⟨d, hd, hfruitful⟩)
      · obtain ⟨x, hx, hlist⟩ := RetrieverAgent.listTools_mem hgather
        exact hunlisted x (by simp [hx]) hlist
      · rw [retrieverDecisions_append, retrieverDecisions_append, hplanned, hdecisions] at hd
        have hmem : d ∈ decisionsOf gathered := by
          simpa [retrieverDecisions, completionsBy] using hd
        exact hfindings.mpr ⟨d, hmem, hfruitful⟩ hnone
  · obtain ⟨d, hd, hfruitful⟩ := hfindings.mp hsome
    refine iff_of_true (fun _ => hresponse ▸ hreturned) (Or.inr ⟨d, ?_, hfruitful⟩)
    rw [retrieverDecisions_append, retrieverDecisions_append, hdecisions]
    exact List.mem_append_right _ (List.mem_append_left _ hd)

end SupportCopilot

end Reports

/-- The turn about the refund, in which a tool is called. -/
theorem refund_truthful : ∃ prompt, SupportCopilot.Truthful ⟨1⟩ refundQuestion ⟨"t1", 0, 0, 0⟩
    (refundTurn "1234" prompt) refundResponse := by
  obtain ⟨prompt, htalk⟩ := talk_refund "1234"
  refine ⟨prompt, (SupportCopilot.reports_truthful_iff htalk).mpr
    (Or.inr ⟨contextDecision "1234", ?_, ?_⟩)⟩
  · rw [retrieverDecisions_refundTurn]
    exact List.mem_singleton_self _
  · left
    intro habsurd
    cases habsurd

/-! ## A search without findings -/

/-- A decision with which the model ends at once. -/
def emptyEnd : Value WholeFloat := .dict [("done", .bool true)]

/-- What the copilot answers when nothing was found. -/
def emptyResponse : CopilotResponse WholeFloat :=
  SupportCopilot.responseOf ⟨"t1", 0, 0, 0⟩ refundPlan {} ⟨SupportCopilot.nothingFound, []⟩
    ⟨true, [], .none⟩

/-- The model is done at once. -/
def emptyTurn (prompt : String) : Transcript WholeFloat :=
  [planAsked refundQuestion (.ok (replyOf (.dict [])))] ++
    ([⟨.listTools, .ok (.list [])⟩,
      decisionAsked [⟨"user", prompt⟩] (.ok (replyOf emptyEnd))] ++ [])

/-- The retriever that is told to end at once has found nothing. -/
theorem talk_emptyLoop (messages : List Message) :
    Routine.Talk (loop (F := WholeFloat) 0 1 messages []) ⟨"t1", 0, 0, 0⟩
      [decisionAsked messages (.ok (replyOf emptyEnd))] (.ok ⟨[], 1, false⟩)
      ⟨"t1", 0, 0, 0⟩ := by
  have hparse : parseJsonLenient (firstTextBlock (replyOf emptyEnd)) = .ok emptyEnd :=
    parseJsonLenient_dumps (by simp [Value.Wf, Value.WfMembers])
  refine Routine.talk_bind_iff.mpr (Or.inr ⟨.finished [], [_], [], _, rfl, ?_,
    Routine.talk_pure_iff.mpr ⟨rfl, rfl, rfl⟩⟩)
  refine Routine.talk_bind_iff.mpr (Or.inr ⟨emptyEnd, [_], [], _, rfl,
    talk_completeJson_iff.mpr (Or.inr ⟨_, rfl, hparse.symm, rfl⟩), ?_⟩)
  exact Routine.talk_bind_iff.mpr (Or.inr ⟨.done [], [], [], _, rfl,
    Routine.talk_ofExcept_iff.mpr ⟨rfl, rfl, rfl⟩, Routine.talk_pure_iff.mpr ⟨rfl, rfl, rfl⟩⟩)

/-- The retriever used a round, and the response says that it used none. -/
theorem round_not_reported : ∃ prompt,
    Routine.Talk (SupportCopilot.answer ⟨1⟩ refundQuestion) ⟨"t1", 0, 0, 0⟩ (emptyTurn prompt)
      (.ok emptyResponse) ⟨"t1", 0, 0, 0⟩ ∧
    SupportCopilot.Returned ⟨1⟩ refundQuestion ⟨"t1", 0, 0, 0⟩ (emptyTurn prompt) ⟨[], 1, false⟩ ∧
    emptyResponse.retrieval = ⟨[], 0, false⟩ ∧
    ¬ SupportCopilot.Truthful ⟨1⟩ refundQuestion ⟨"t1", 0, 0, 0⟩ (emptyTurn prompt)
      emptyResponse := by
  obtain ⟨prompt, hretriever⟩ :=
    RetrieverAgent.talk_act_of_loop ⟨1⟩ talk_emptyLoop refundPlan refundQuestion
  have hreturned : SupportCopilot.Returned ⟨1⟩ refundQuestion ⟨"t1", 0, 0, 0⟩ (emptyTurn prompt)
      ⟨[], 1, false⟩ := by
    refine ⟨[planAsked refundQuestion (.ok (replyOf (.dict [])))],
      [⟨.listTools, .ok (.list [])⟩, decisionAsked [⟨"user", prompt⟩] (.ok (replyOf emptyEnd))],
      [], rfl, refundPlan, ⟨"t1", 0, 0, 0⟩, ⟨"t1", 0, 0, 0⟩, talk_refundPlan, ?_, hretriever⟩
    exact fun hid => nomatch hid.1
  refine ⟨prompt, ?_, hreturned, rfl, fun htrue => ?_⟩
  · refine Routine.talk_bind_iff.mpr (Or.inr ⟨refundPlan, [_], _, _, rfl, talk_refundPlan, ?_⟩)
    rw [if_neg fun h => nomatch h.1]
    refine Routine.talk_bind_iff.mpr (Or.inr ⟨_, _, [], _, rfl, hretriever, ?_⟩)
    change Routine.Talk (SupportCopilot.shortCircuit refundPlan SupportCopilot.nothingFound) _ _ _ _
    exact Routine.talk_bind_iff.mpr (Or.inr ⟨_, [], [], _, rfl,
      Routine.talk_current_iff.mpr ⟨rfl, rfl, rfl⟩, Routine.talk_pure_iff.mpr ⟨rfl, rfl, rfl⟩⟩)
  · obtain ⟨_, _, _, -, _, _, _, -, -, hempty⟩ := htrue.retrieval ⟨_, hreturned⟩
    exact RetrieverAgent.result_ne_empty hempty rfl

end Agents
