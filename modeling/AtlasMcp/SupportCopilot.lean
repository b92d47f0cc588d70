import AtlasMcp.CustomerIds
import AtlasMcp.RetrieverLoop

/-!
# The support copilot

A turn of the copilot: the planner turns the question into a plan, the retriever gathers
findings, the synthesizer drafts a reply from them, and the critic approves it or asks for
one revision.  Without a customer id that is needed, and without findings, the turn is cut
short.

Each agent asks the model for one completion; only the retriever does so in a loop and calls
tools.
-/

namespace Agents

open PyJson PyText Errors Dialogues

/-- What `int()` makes of floats and of characters. -/
class PyInt (F : Type) where
  /-- The float without its fraction; one that is not finite raises. -/
  truncate : F → Except String ℤ
  /-- The value of a decimal digit of any script. -/
  digit : Char → Option ℕ
  digit_ascii : ∀ c : Char, c.toNat < 128 →
    digit c = if c.isDigit then some (c.toNat - '0'.toNat) else none

instance : PyInt WholeFloat where
  truncate x := .ok x.whole
  digit c := if c.isDigit then some (c.toNat - '0'.toNat) else none
  digit_ascii _ _ := rfl

/-! ## The planner -/

/-- `PLANNER_SYSTEM`. -/
def plannerSystem : String :=
  "You are the Planner agent in a customer-support copilot. Your ONLY job is to
turn a customer question into a short, ordered list of information needs that
downstream agents will fetch.

You DO NOT answer the question. You DO NOT call tools. You produce JSON.

Output schema (strict):
\x7b
  \"needs\": [
    \x7b\"id\": \"n1\", \"description\": \"<short noun phrase>\", \"priority\": 1|2|3\x7d
  ],
  \"customer_id_required\": true|false,
  \"notes\": \"<one line or empty>\"
\x7d

Rules:
- At most 5 needs. Prefer 2-3.
- Priority 1 = must have, 2 = helpful, 3 = nice-to-have.
- Never invent a customer id. If the user message does not contain one, set
  customer_id_required=true and stop.
- Return ONLY the JSON object. No prose.
"

section Planner

variable {F : Type} [PyFloat F] [PyInt F]

omit [PyFloat F] in
/-- `v[key]`. -/
def item (v : Value F) (key : String) : Except (Exc F) (Value F) :=
  match v with
  | .dict kvs =>
      match dictGet kvs key with
      | some w => .ok w
      | none => .error (.other "KeyError")
  | _ => .error (.other "TypeError")

omit [PyFloat F] in
/-- The number that decimal digits write, with single underscores between some
of them; the interpreter reads 4300 digits at most. -/
def natOfText (F : Type) [PyInt F] (cs : List Char) : Option ℕ :=
  if (cs.splitOn '_').all fun group => group ≠ [] ∧ group.all fun c => (PyInt.digit F c).isSome
  then
    let digits := cs.filterMap (PyInt.digit F)
    if digits.length ≤ 4300 then some (digits.foldl (fun n d => 10 * n + d) 0) else none
  else none

omit [PyFloat F] in
/-- `int(text)`. -/
def intOfText (F : Type) [PyInt F] (text : String) : Option ℤ :=
  match strip text.toList with
  | '-' :: cs => (natOfText F cs).map fun n => -n
  | '+' :: cs => (natOfText F cs).map fun n => n
  | cs => (natOfText F cs).map fun n => n

omit [PyFloat F] in
/-- `int(v)`. -/
def pyInt : Value F → Except (Exc F) ℤ
  | .int n => .ok n
  | .bool b => .ok (if b then 1 else 0)
  | .float x => (PyInt.truncate x).mapError .other
  | .str text =>
      match intOfText F text with
      | some n => .ok n
      | none => .error (.other "ValueError")
  | _ => .error (.other "TypeError")

variable [UnicodeDb]

/-- A step of the plan as the model has written it.  Without an id or a
description it raises, and its priority is two unless it says another one. -/
def readStep (n : Value F) : Except (Exc F) PlanStep := do
  let id ← item n "id"
  let description ← item n "description"
  let priority ← pyInt (← get n "priority" (.int 2))
  return { id := pyStrValue id, description := pyStrValue description, priority }

/-- The plan as the model has written it, with the customer id that code has
found in the question. -/
def readPlan (customerId : Option String) (data : Value F) : Except (Exc F) Plan := do
  let needs ← (← iterate (← get data "needs" (.list []))).mapM readStep
  let required ← get data "customer_id_required" .none
  let notes ← get data "notes" (.str "")
  return { needs, customerIdRequired := required.truthy, notes := pyStrValue notes, customerId }

/-- The id of the plan is not the model's. -/
theorem customerId_of_readPlan {customerId : Option String} {data : Value F} {plan : Plan}
    (h : readPlan customerId data = .ok plan) : plan.customerId = customerId := by
  obtain ⟨listed, -, h⟩ := exists_of_bind_ok h
  obtain ⟨xs, -, h⟩ := exists_of_bind_ok h
  obtain ⟨needs, -, h⟩ := exists_of_bind_ok h
  obtain ⟨required, -, h⟩ := exists_of_bind_ok h
  obtain ⟨notes, -, h⟩ := exists_of_bind_ok h
  cases h
  rfl

/-- What the planner asks the model. -/
def plannerPrompt (question : String) : String :=
  "Customer question:\n" ++ question ++ "\n\nReturn a retrieval plan as JSON."

/-- `PlannerAgent.act`: one completion, read as JSON. -/
def PlannerAgent.act (question : String) : Task F Plan := do
  let data ← completeJson plannerSystem [⟨"user", plannerPrompt question⟩] 400
  Routine.ofExcept (readPlan (extractCustomerId question) data)

end Planner

/-! ## The synthesizer -/

/-- `SYNTHESIZER_SYSTEM`. -/
def synthesizerSystem : String :=
  "You are the Synthesizer agent. You receive a customer question and a set of
findings gathered by the Retriever. You produce a draft reply for the human
support agent to review and send.

Requirements:
- Cite sources using [S1], [S2] style anchors matching the findings list.
- If the findings are insufficient, say so explicitly. Do not guess.
- No greetings, no sign-offs — those are added by the human.
- Maximum 180 words.
- If the findings contain a refund, cancellation, or policy exception, do
  NOT commit to it; mention that it needs human approval.
"

/-- A draft, and the anchors of the findings that it cites. -/
structure Draft where
  text : String
  citations : List String

section Synthesizer

variable {F : Type}

/-- A match of `\[S\d+\]` at the start. -/
def citationAt (F : Type) [PyInt F] : List Char → Option String
  | '[' :: 'S' :: cs =>
      let digits := cs.takeWhile fun c => (PyInt.digit F c).isSome
      if digits ≠ [] ∧ cs[digits.length]? = some ']' then
        some (String.ofList ('[' :: 'S' :: (digits ++ [']'])))
      else none
  | _ => none

/-- `_extract_citations`.  No match overlaps another one. -/
def extractCitations (F : Type) [PyInt F] (text : String) : List String :=
  (text.toList.tails.filterMap (citationAt F)).dedup.mergeSort (· ≤ ·)

/-- The findings as the prompts list them. -/
def findingsBlock (findings : List (Finding F)) : String :=
  "\n".intercalate (findings.mapIdx fun i f =>
    "[S" ++ String.ofList (intText (i + 1)) ++ "] " ++ f.source ++ ": " ++ f.summary)

/-- What the synthesizer asks the model: the question, and what was found. -/
def synthesizerPrompt (question : String) (findings : List (Finding F)) : String :=
  "Customer question:\n" ++ question ++ "\n\nFindings:\n" ++ findingsBlock findings ++
    "\n\nWrite the draft reply. Use [S1], [S2]... anchors to cite findings."

/-- A draft without the white space around it, with the anchors in it. -/
def Draft.ofText (F : Type) [PyInt F] (text : String) : Draft where
  text := String.ofList (strip text.toList)
  citations := extractCitations F text

/-- `SynthesizerAgent.act`: one completion, taken as text. -/
def SynthesizerAgent.act [PyInt F] (question : String) (findings : List (Finding F)) :
    Task F Draft := do
  let text ← completeText synthesizerSystem [⟨"user", synthesizerPrompt question findings⟩] 400
  return Draft.ofText F text

end Synthesizer

/-! ## The critic -/

/-- `CRITIC_SYSTEM`. -/
def criticSystem : String :=
  "You are the Critic agent. Your job is to block bad answers before they reach
customers. Given a question, the findings, and the synthesizer's draft, emit
a verdict as JSON:

\x7b
  \"verdict\": \"approve\" | \"revise\",
  \"issues\": [ \"<short issue>\" ],
  \"revision_hints\": \"<one paragraph, only if verdict=revise>\"
\x7d

Flag ANY of the following as revise:
- The draft asserts a fact not supported by the findings.
- The draft promises a refund, discount, or exception without an approval.
- The draft contradicts a finding.
- The draft contains a policy number, price, or date not present in findings.
- The draft is over 200 words.

If none of these apply, emit \x7b\"verdict\": \"approve\", \"issues\": []\x7d.
Return ONLY the JSON object.
"

/-- What the critic says of a draft: whether it can be sent, and what is wrong
with it otherwise. -/
structure Verdict (F : Type) where
  approved : Bool
  issues : List String
  revisionHints : Value F

section Critic

variable {F : Type} [PyFloat F] [UnicodeDb]

/-- What the critic asks the model: the question, what was found, and the
draft. -/
def criticPrompt (question : String) (findings : List (Finding F)) (draft : String) : String :=
  "Customer question:\n" ++ question ++ "\n\nFindings:\n" ++ findingsBlock findings ++
    "\n\nDraft:\n" ++ draft ++
    "\n\nEvaluate the draft against the rules and emit the verdict JSON."

omit [PyFloat F] [UnicodeDb] in
/-- `v == "approve"`. -/
def approves : Value F → Bool
  | .str s => s = "approve"
  | _ => false

/-- The verdict as the model has written it.  Only the text `approve`
approves. -/
def readVerdict (data : Value F) : Except (Exc F) (Verdict F) := do
  let verdict ← get data "verdict" .none
  let issues ← iterate (← get data "issues" (.list []))
  let revisionHints ← get data "revision_hints" .none
  return { approved := approves verdict, issues := issues.map pyStrValue, revisionHints }

/-- An approved draft is one of which the answer says `approve`. -/
theorem approves_of_readVerdict {data : Value F} {verdict : Verdict F}
    (h : readVerdict data = .ok verdict) (happroved : verdict.approved = true) :
    get data "verdict" .none = .ok (.str "approve") := by
  obtain ⟨said, hsaid, h⟩ := exists_of_bind_ok h
  obtain ⟨listed, -, h⟩ := exists_of_bind_ok h
  obtain ⟨issues, -, h⟩ := exists_of_bind_ok h
  obtain ⟨revisionHints, -, h⟩ := exists_of_bind_ok h
  cases h
  rw [hsaid]
  cases said with
  | str s => rw [of_decide_eq_true happroved]
  | _ => cases happroved

/-- `CriticAgent.act`: one completion, read as JSON. -/
def CriticAgent.act (question : String) (findings : List (Finding F)) (draft : Draft) :
    Task F (Verdict F) := do
  let data ← completeJson criticSystem
    [⟨"user", criticPrompt question findings draft.text⟩] 400
  Routine.ofExcept (readVerdict data)

end Critic

/-! ## The turn -/

/-- What the copilot returns for a question: its answer, with the plan, the
findings and the review that it comes from. -/
structure CopilotResponse (F : Type) where
  draft : String
  approved : Bool
  citations : List String
  plan : Plan
  retrieval : RetrievalResult F
  critic : Verdict F
  runId : String
  tokensIn : ℤ
  tokensOut : ℤ
  toolCalls : ℕ

/-- The copilot, with the number of decisions that it grants its retriever. -/
structure SupportCopilot where
  maxRetrieverIterations : ℤ := 6

namespace SupportCopilot

section Answer

variable {F : Type} [PyFloat F] [UnicodeDb] [PyInt F]

omit [PyFloat F] [UnicodeDb] [PyInt F] in
/-- The response, with the account of the turn. -/
def responseOf (run : AgentRun) (plan : Plan) (retrieval : RetrievalResult F) (draft : Draft)
    (verdict : Verdict F) : CopilotResponse F where
  draft := draft.text
  approved := verdict.approved
  citations := draft.citations
  plan := plan
  retrieval := retrieval
  critic := verdict
  runId := run.runId
  tokensIn := run.tokensIn
  tokensOut := run.tokensOut
  toolCalls := run.toolCalls

omit [PyFloat F] [UnicodeDb] [PyInt F] in
/-- The response at the end of a run, with what has been counted until
then. -/
def respond (plan : Plan) (retrieval : RetrievalResult F) (draft : Draft)
    (verdict : Verdict F) : Task F (CopilotResponse F) := do
  let run ← Routine.current
  return responseOf run plan retrieval draft verdict

omit [PyFloat F] [UnicodeDb] [PyInt F] in
/-- `_short_circuit`. -/
def shortCircuit (plan : Plan) (message : String) : Task F (CopilotResponse F) :=
  respond plan {} ⟨message, []⟩ ⟨true, [], .none⟩

/-- The answer to a question that needs a customer id and has none. -/
def customerIdMissing : String :=
  "I couldn't find a customer id in that question. " ++
    "Please include it (e.g. CUST-1234) and I'll try again."

/-- The answer to a question about which nothing was found. -/
def nothingFound : String :=
  "I wasn't able to find any relevant information in our systems. " ++
    "Please double-check the customer id and question."

omit [PyInt F] in
/-- What is put behind the question for the second draft. -/
def hintBlock (firstDraft : Draft) (verdict : Verdict F) : String :=
  "\n\nYOUR PREVIOUS DRAFT WAS REJECTED:\n" ++ firstDraft.text ++ "\n\n" ++
    "Issues flagged by the critic:\n" ++ "\n".intercalate (verdict.issues.map ("- " ++ ·)) ++
    if verdict.revisionHints.truthy then
      "\n\nRevision hints: " ++ pyStrValue verdict.revisionHints
    else ""

/-- `_revise`. -/
def revise (question : String) (retrieval : RetrievalResult F) (firstDraft : Draft)
    (verdict : Verdict F) : Task F Draft :=
  SynthesizerAgent.act (question ++ hintBlock firstDraft verdict) retrieval.findings

/-- A draft and what the critic says of it. -/
def criticized (question : String) (retrieval : RetrievalResult F) (drafting : Task F Draft) :
    Task F (Draft × Verdict F) := do
  let draft ← drafting
  let verdict ← CriticAgent.act question retrieval.findings draft
  return (draft, verdict)

/-- The draft to be returned, and the verdict on it: if the critic does not
approve the first one, there is one revision. -/
def reviewed (question : String) (retrieval : RetrievalResult F) :
    Task F (Draft × Verdict F) := do
  let (draft, verdict) ←
    criticized question retrieval (SynthesizerAgent.act question retrieval.findings)
  if verdict.approved then return (draft, verdict)
  else criticized question retrieval (revise question retrieval draft verdict)

/-- `SupportCopilot.answer`, from the account of a new run. -/
def answer (copilot : SupportCopilot) (question : String) : Task F (CopilotResponse F) := do
  let plan ← PlannerAgent.act question
  if plan.customerIdRequired ∧ plan.customerId.getD "" = "" then
    shortCircuit plan customerIdMissing
  else
    let retrieval ← RetrieverAgent.act ⟨copilot.maxRetrieverIterations⟩ plan question
    if retrieval.findings.isEmpty then shortCircuit plan nothingFound
    else
      let (draft, verdict) ← reviewed question retrieval
      respond plan retrieval draft verdict

end Answer

end SupportCopilot

end Agents
