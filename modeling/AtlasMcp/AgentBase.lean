import AtlasMcp.AgentWire
import AtlasMcp.Dialogues

/-!
# What the agents share

An agent is a routine that asks a language model for completions and, the retriever only, the
MCP client for tools.  Model and client are the environment: nothing is assumed of what they
answer, and either may raise.  `AgentRun` is the account that all agents of a turn write to.

`completeText` and `completeJson` are the only ways to a completion; `talk_completeJson_iff`
says what each of them can do.
-/

namespace Agents

open PyJson PyText Errors Dialogues
open AgentWire (ToolResult)

/-- Per-turn accounting: what the agents of one question have used so far.  Each
completion adds the tokens that its usage reports, and each call of a tool
counts as one. -/
structure AgentRun where
  runId : String
  tokensIn : ℤ := 0
  tokensOut : ℤ := 0
  toolCalls : ℕ := 0

/-- A message, with the role of whoever says it.  The prompts of the agents are
lists of these. -/
structure Message where
  role : String
  content : String

/-- A block of a response, with the members the agents read.  They look for the
first one that is a text. -/
structure Block where
  type : Option String
  text : Option String

/-- A response of the Messages API: its `content` and the two counts of its
`usage`, where it has them. -/
structure Completion where
  content : List Block
  inputTokens : Option ℤ := none
  outputTokens : Option ℤ := none

/-- What an agent asks of the world: a completion of its model, the list of the
tools, or a call of one of them on the server. -/
inductive Ask (F : Type)
  | complete (system : String) (messages : List Message) (maxTokens : ℕ)
  | listTools
  | callTool (name : String) (arguments : Value F)

/-- Each question is answered, or raises. -/
abbrev Ask.Answer {F : Type} : Ask F → Type
  | .complete _ _ _ => Except (Exc F) Completion
  | .listTools => Except (Exc F) (Value F)
  | .callTool _ _ => Except (Exc F) (ToolResult F)

/-- What an agent does. -/
abbrev Task (F α : Type) : Type := Routine AgentRun (Ask F) Ask.Answer (Exc F) α

/-- What was asked and answered so far, in this order. -/
abbrev Transcript (F : Type) : Type := List (Exchange (Ask F) Ask.Answer)

section Json

variable {F : Type}

/-- `v.get(key, default)`. -/
def get (v : Value F) (key : String) (default : Value F) : Except (Exc F) (Value F) :=
  match v with
  | .dict kvs => .ok ((dictGet kvs key).getD default)
  | _ => .error (.other "AttributeError")

/-- The values that `for x in v` goes through. -/
def iterate : Value F → Except (Exc F) (List (Value F))
  | .list xs => .ok xs
  | .str s => .ok (s.toList.map fun c => .str (String.singleton c))
  | .dict kvs => .ok (kvs.map fun kv => .str kv.1)
  | _ => .error (.other "TypeError")

/-- The text before the first `sep`, all of it when there is none. -/
def before (sep : List Char) : List Char → List Char
  | [] => []
  | c :: rest => if sep.isPrefixOf (c :: rest) then [] else c :: before sep rest

/-- `text.split(fence)[1]` of a text that starts with a fence, without the
word `json` on the line of the fence. -/
def unfenced (text : List Char) : List Char :=
  let inner := before "```".toList (text.drop 3)
  if "json\n".toList.isPrefixOf inner then inner.drop 5 else inner

variable [PyFloat F]

/-- The text without white space around it and, if it starts with a fence,
without the fence. -/
def bareText (text : List Char) : List Char :=
  let text := strip text
  if "```".toList.isPrefixOf text then unfenced text else text

/-- `parse_json_lenient(text)`: from the first opening to the last closing
brace. -/
def parseJsonLenient (text : String) : Except (Exc F) (Value F) :=
  let text := bareText text.toList
  if '{' ∈ text ∧ '}' ∈ text then
    -- `text[start : end + 1]`
    match loads (String.ofList ((text.rdropWhile (· ≠ '}')).drop (text.idxOf '{'))) with
    | some v => .ok v
    | none => .error (.other "JSONDecodeError")
  else .error (.other "ValueError")

/-- An object is written between braces. -/
theorem encode_dict (kvs : List (String × Value F)) :
    ∃ inner, encode (.dict kvs) = '{' :: (inner ++ ['}']) := by
  have hmembers (rest : List (String × Value F)) :
      ∃ inner, encodeMembers rest = inner ++ ['}'] := by
    induction rest with
    | nil => exact ⟨[], rfl⟩
    | cons kv rest ih =>
        obtain ⟨k, v⟩ := kv
        obtain ⟨inner, hinner⟩ := ih
        exact ⟨',' :: ' ' :: (stringText k ++ ':' :: ' ' :: (encode v ++ inner)), by
          simp [encodeMembers, hinner]⟩
  cases kvs with
  | nil => exact ⟨[], rfl⟩
  | cons kv rest =>
      obtain ⟨k, v⟩ := kv
      obtain ⟨inner, hinner⟩ := hmembers rest
      exact ⟨stringText k ++ ':' :: ' ' :: (encode v ++ inner), by simp [encode, hinner]⟩

/-- An object that `json.dumps` wrote is found and read back. -/
theorem parseJsonLenient_dumps {kvs : List (String × Value F)} (h : (Value.dict kvs).Wf) :
    parseJsonLenient (dumps (.dict kvs)) = .ok (Value.dict kvs).jsonify := by
  obtain ⟨inner, hinner⟩ := encode_dict kvs
  have hbare : bareText (encode (.dict kvs)) = encode (.dict kvs) := by
    rw [hinner, bareText, strip, List.dropWhile_cons_of_neg (by decide), ← List.cons_append,
      List.rdropWhile_concat_neg _ _ _ (by decide), if_neg (by simp)]
  have hbraces : '{' ∈ encode (.dict kvs) ∧ '}' ∈ encode (.dict kvs) := by simp [hinner]
  have hcut : ((encode (.dict kvs)).rdropWhile (· ≠ '}')).drop
      ((encode (.dict kvs)).idxOf '{') = encode (.dict kvs) := by
    rw [hinner, List.idxOf_cons_self, List.drop_zero, ← List.cons_append,
      List.rdropWhile_concat_neg _ _ _ (by decide)]
  rw [parseJsonLenient, dumps, String.toList_ofList, hbare, if_pos hbraces, hcut, ← dumps,
    loads_dumps h]

/-- A line break and the indentation of a level. -/
def newline (level : ℕ) : List Char := '\n' :: List.replicate (2 * level) ' '

mutual

/-- `json.dumps(v, indent=2)`, inside `level` brackets. -/
def indented (level : ℕ) : Value F → List Char
  | .list (v :: xs) =>
      '[' :: (newline (level + 1) ++ (indented (level + 1) v ++ indentedItems level xs))
  | .dict ((k, v) :: kvs) =>
      '{' :: (newline (level + 1) ++ (stringText k ++ ':' :: ' ' ::
        (indented (level + 1) v ++ indentedMembers level kvs)))
  | v => encode v

/-- The items of a list, indented. -/
def indentedItems (level : ℕ) : List (Value F) → List Char
  | [] => newline level ++ [']']
  | v :: xs =>
      ',' :: (newline (level + 1) ++ (indented (level + 1) v ++ indentedItems level xs))

/-- The members of a dictionary, indented. -/
def indentedMembers (level : ℕ) : List (String × Value F) → List Char
  | [] => newline level ++ ['}']
  | (k, v) :: kvs =>
      ',' :: (newline (level + 1) ++ (stringText k ++ ':' :: ' ' ::
        (indented (level + 1) v ++ indentedMembers level kvs)))

end

/-- `ToolResult.as_agent_observation`, of a result that is made of JSON
values. -/
def asAgentObservation (result : ToolResult F) : String :=
  String.ofList (indented 0 (if result.ok then
      .dict [("ok", .bool true), ("result", result.value)]
    else
      .dict [("ok", .bool false), ("error", result.errorCode),
        ("retryable", .bool result.retryable), ("hint", result.hint)]))

end Json

/-! ## What a transcript tells -/

section Transcripts

variable {F : Type}

/-- A call of a tool and what it came to.  The arguments are any JSON value, as
the model has written them. -/
structure ToolCall (F : Type) where
  name : String
  arguments : Value F
  answer : Except (Exc F) (ToolResult F)

/-- What was answered to a completion. -/
def completion? : Exchange (Ask F) Ask.Answer → Option (Except (Exc F) Completion)
  | ⟨.complete _ _ _, answer⟩ => some answer
  | _ => none

/-- A call of a tool, with its answer. -/
def toolCall? : Exchange (Ask F) Ask.Answer → Option (ToolCall F)
  | ⟨.callTool name arguments, answer⟩ => some ⟨name, arguments, answer⟩
  | _ => none

/-- The completions of a transcript, in order. -/
def completionsOf (l : Transcript F) : List (Except (Exc F) Completion) :=
  l.filterMap completion?

/-- The tool calls of a transcript, in order. -/
def toolCallsOf (l : Transcript F) : List (ToolCall F) := l.filterMap toolCall?

/-- The completions are those of the one part of a transcript and then those
of the other. -/
@[simp]
theorem completionsOf_append (l l' : Transcript F) :
    completionsOf (l ++ l') = completionsOf l ++ completionsOf l' :=
  List.filterMap_append

/-- The calls are those of the one part of a transcript and then those of the
other. -/
@[simp]
theorem toolCallsOf_append (l l' : Transcript F) :
    toolCallsOf (l ++ l') = toolCallsOf l ++ toolCallsOf l' :=
  List.filterMap_append

end Transcripts

/-! ## Completions -/

/-- The text of the first block of type `text`. -/
def firstTextBlock (response : Completion) : String :=
  match response.content.find? fun block => block.type = some "text" with
  | some block => block.text.getD ""
  | none => ""

/-- The account after a response. -/
def AgentRun.charged (run : AgentRun) (response : Completion) : AgentRun :=
  { run with
    tokensIn := run.tokensIn + response.inputTokens.getD 0
    tokensOut := run.tokensOut + response.outputTokens.getD 0 }

/-- A completion is charged in tokens, and is no call of a tool. -/
@[simp]
theorem AgentRun.charged_toolCalls (run : AgentRun) (response : Completion) :
    (run.charged response).toolCalls = run.toolCalls := rfl

section Completing

variable {F : Type}

/-- `_complete_text`. -/
def completeText (system : String) (messages : List Message) (maxTokens : ℕ) : Task F String := do
  let resp ← Routine.asking (.complete system messages maxTokens) id
  Routine.update fun run => run.charged resp
  return firstTextBlock resp

/-- `_complete_json`. -/
def completeJson [PyFloat F] (system : String) (messages : List Message) (maxTokens : ℕ) :
    Task F (Value F) := do
  let text ← completeText system messages maxTokens
  Routine.ofExcept (parseJsonLenient text)

variable {system : String} {messages : List Message} {maxTokens : ℕ} {run run' : AgentRun}
  {l : Transcript F}

/-- One completion is asked for.  If it comes, its usage is charged and its
text returned. -/
theorem talk_completeText_iff {r : Except (Exc F) String} :
    Routine.Talk (completeText system messages maxTokens) run l r run' ↔
      (∃ e, l = [⟨.complete system messages maxTokens, .error e⟩] ∧ r = .error e ∧
        run' = run) ∨
      ∃ resp, l = [⟨.complete system messages maxTokens, .ok resp⟩] ∧
        r = .ok (firstTextBlock resp) ∧ run' = run.charged resp := by
  simp only [completeText, Routine.talk_bind_iff, Routine.talk_asking_iff,
    Routine.talk_update_iff, Routine.talk_pure_iff]
  constructor
  · rintro (⟨e, ⟨answer, rfl, hanswer, rfl⟩, rfl⟩ |
      ⟨resp, first, rest, u, rfl, ⟨answer, rfl, hanswer, rfl⟩, hrest⟩)
    · obtain rfl : answer = .error e := hanswer.symm
      exact Or.inl ⟨e, rfl, rfl, rfl⟩
    · obtain rfl : answer = .ok resp := hanswer.symm
      rcases hrest with ⟨e, ⟨-, habsurd, -⟩, -⟩ | ⟨_, _, _, v, rfl, ⟨rfl, -, rfl⟩, rfl, rfl, rfl⟩
      · cases habsurd
      · exact Or.inr ⟨resp, rfl, rfl, rfl⟩
  · rintro (⟨e, rfl, rfl, rfl⟩ | ⟨resp, rfl, rfl, rfl⟩)
    · exact Or.inl ⟨e, ⟨.error e, rfl, rfl, rfl⟩, rfl⟩
    · exact Or.inr ⟨resp, _, [], run, rfl, ⟨.ok resp, rfl, rfl, rfl⟩,
        Or.inr ⟨(), [], [], run.charged resp, rfl, ⟨rfl, trivial, rfl⟩, rfl, rfl, rfl⟩⟩

/-- Likewise, and the text is parsed. -/
theorem talk_completeJson_iff [PyFloat F] {r : Except (Exc F) (Value F)} :
    Routine.Talk (completeJson system messages maxTokens) run l r run' ↔
      (∃ e, l = [⟨.complete system messages maxTokens, .error e⟩] ∧ r = .error e ∧
        run' = run) ∨
      ∃ resp, l = [⟨.complete system messages maxTokens, .ok resp⟩] ∧
        r = parseJsonLenient (firstTextBlock resp) ∧ run' = run.charged resp := by
  simp only [completeJson, Routine.talk_bind_iff, talk_completeText_iff,
    Routine.talk_ofExcept_iff]
  constructor
  · rintro (⟨e, ⟨e', rfl, he, rfl⟩ | ⟨resp, -, habsurd, -⟩, rfl⟩ |
      ⟨text, first, rest, u, rfl, ⟨e, -, habsurd, -⟩ | ⟨resp, rfl, htext, rfl⟩, rfl, rfl, rfl⟩)
    · cases he
      exact Or.inl ⟨e, rfl, rfl, rfl⟩
    · cases habsurd
    · cases habsurd
    · cases htext
      exact Or.inr ⟨resp, rfl, rfl, rfl⟩
  · rintro (⟨e, rfl, rfl, rfl⟩ | ⟨resp, rfl, rfl, rfl⟩)
    · exact Or.inl ⟨e, Or.inl ⟨e, rfl, rfl, rfl⟩, rfl⟩
    · exact Or.inr ⟨_, _, [], _, rfl, Or.inr ⟨resp, rfl, rfl, rfl⟩, rfl, rfl, rfl⟩

end Completing

end Agents
