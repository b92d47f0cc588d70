import AtlasMcp.RetrieverLoop

/-!
# Which decisions the retriever survives

A decision is a JSON object, but its members may be anything.  The loop iterates over `findings`,
takes every item for an object, and looks `tool` up in a set: with other values in these places it
raises.  `Readable` is what it can go on with, and `RetrieverAgent.act_returns_iff` says that a
run in which the model and the client answer returns a result if and only if it read nothing else.
-/

namespace Agents

open PyJson PyText Errors Dialogues
open AgentWire (ToolResult)

/-! ## Fallible lists -/

section Fallible

variable {ε α β : Type}

/-- Two computations after each other come through if the first one does and
the second one does with its result. -/
theorem exists_ok_bind_iff {x : Except ε α} {f : α → Except ε β} :
    (∃ b, (x >>= f) = .ok b) ↔ ∃ a, x = .ok a ∧ ∃ b, f a = .ok b := by
  cases x with
  | error e =>
      constructor
      · rintro ⟨_, ⟨⟩⟩
      · rintro ⟨_, ⟨⟩, _⟩
  | ok a =>
      refine ⟨fun h => ⟨a, rfl, h⟩, ?_⟩
      rintro ⟨_, ⟨⟩, h⟩
      exact h

theorem exists_ok_pure (a : α) : ∃ b, (pure a : Except ε α) = .ok b := ⟨a, rfl⟩

/-- All of a list can be treated if each of its items can. -/
theorem exists_ok_mapM_iff {f : α → Except ε β} {xs : List α} :
    (∃ ys, xs.mapM f = .ok ys) ↔ ∀ x ∈ xs, ∃ y, f x = .ok y := by
  induction xs with
  | nil => simp [exists_ok_pure]
  | cons x xs ih =>
      rw [List.mapM_cons, exists_ok_bind_iff, List.forall_mem_cons, ← ih]
      simp only [exists_ok_bind_iff, exists_ok_pure, and_true]
      exact exists_and_right

/-- A filter that asks of each item comes through if all the questions do,
whatever it has kept so far. -/
theorem exists_ok_filterAuxM_iff {f : α → Except ε Bool} {xs : List α} (acc : List α) :
    (∃ ys, List.filterAuxM f xs acc = .ok ys) ↔ ∀ x ∈ xs, ∃ b, f x = .ok b := by
  induction xs generalizing acc with
  | nil => simp [List.filterAuxM, exists_ok_pure]
  | cons x xs ih =>
      rw [List.filterAuxM, exists_ok_bind_iff, List.forall_mem_cons]
      simp only [ih]
      exact exists_and_right

theorem exists_ok_filterM_iff {f : α → Except ε Bool} {xs : List α} :
    (∃ ys, xs.filterM f = .ok ys) ↔ ∀ x ∈ xs, ∃ b, f x = .ok b := by
  rw [List.filterM, exists_ok_bind_iff, ← exists_ok_filterAuxM_iff []]
  simp [exists_ok_pure]

/-- A filtered list has items of the list only. -/
theorem mem_of_filterM {f : α → Except ε Bool} {xs ys : List α} (h : xs.filterM f = .ok ys)
    {y : α} (hy : y ∈ ys) : y ∈ xs := by
  have haux {xs acc out : List α} (h : List.filterAuxM f xs acc = .ok out) {y : α}
      (hy : y ∈ out) : y ∈ xs ∨ y ∈ acc := by
    induction xs generalizing acc with
    | nil =>
        cases h
        exact Or.inr hy
    | cons x xs ih =>
        cases hx : f x with
        | error e =>
            rw [List.filterAuxM, hx] at h
            cases h
        | ok b =>
            rw [List.filterAuxM, hx] at h
            rcases ih h with hmem | hmem
            · exact Or.inl (List.mem_cons_of_mem _ hmem)
            · cases b with
              | false => exact Or.inr hmem
              | true =>
                  rcases List.mem_cons.mp hmem with rfl | hmem
                  · exact Or.inl List.mem_cons_self
                  · exact Or.inr hmem
  cases haux' : List.filterAuxM f xs [] with
  | error e =>
      rw [List.filterM, haux'] at h
      cases h
  | ok out =>
      rw [List.filterM, haux'] at h
      cases h
      exact (haux haux' (List.mem_reverse.mp hy)).resolve_right List.not_mem_nil

end Fallible

section Retriever

variable {F : Type}

/-! ## What can be read -/

/-- The value is a dictionary, so that it has a `get`. -/
def IsObject : Value F → Prop
  | .dict _ => True
  | _ => False

/-- A value that a set can be asked for. -/
def Hashable : Value F → Prop
  | .list _ | .dict _ => False
  | _ => True

/-- A loop over the value meets values of the kind only: objects, say. -/
def EachIn (P : Value F → Prop) : Value F → Prop
  | .list xs => ∀ x ∈ xs, P x
  | .str s => s = ""
  | .dict kvs => kvs = []
  | _ => False

/-- A tool as `tools/list` describes it. -/
def NamedObject : Value F → Prop
  | .dict kvs => Hashable ((dictGet kvs "name").getD .none)
  | _ => False

variable [PyFloat F]

/-- The findings of a `done` decision are objects, and the tool of any other
one is neither a list nor an object, unless it is an empty one, which is no
tool. -/
def Readable : Value F → Prop
  | .dict kvs =>
      if ((dictGet kvs "done").getD .none).truthy then
        EachIn IsObject ((dictGet kvs "findings").getD (.list []))
      else
        ((dictGet kvs "tool").getD .none).truthy → Hashable ((dictGet kvs "tool").getD .none)
  | _ => False

omit [PyFloat F] in
/-- A set can be asked for a tool only if the tool is hashable: a list or a
dictionary in its place raises. -/
theorem exists_ok_allowedTool?_iff {tool : Value F} :
    (∃ found, allowedTool? tool = .ok found) ↔ Hashable tool := by
  cases tool <;> simp [allowedTool?, Hashable]

omit [PyFloat F] in
/-- Of a text the loop meets characters, and of an object keys: neither are
objects. -/
theorem exists_iterate_iff {P : Value F → Prop} (hP : ∀ s, ¬ P (.str s)) {v : Value F} :
    (∃ xs, iterate v = .ok xs ∧ ∀ x ∈ xs, P x) ↔ EachIn P v := by
  cases v with
  | list xs => simp [iterate, EachIn]
  | str s =>
      simp only [iterate, EachIn, Except.ok.injEq, exists_eq_left', List.forall_mem_map]
      constructor
      · intro h
        rw [← String.toList_eq_nil_iff]
        exact List.eq_nil_iff_forall_not_mem.mpr fun c hc => hP _ (h c hc)
      · rintro rfl
        simp
  | dict kvs =>
      simp only [iterate, EachIn, Except.ok.injEq, exists_eq_left', List.forall_mem_map]
      constructor
      · exact fun h => List.eq_nil_iff_forall_not_mem.mpr fun kv hkv => hP _ (h kv hkv)
      · rintro rfl
        simp
  | _ => simp [iterate, EachIn]

omit [PyFloat F] in
theorem isObject_iff {v : Value F} : IsObject v ↔ ∃ kvs, v = .dict kvs := by
  cases v <;> simp [IsObject]

omit [PyFloat F] in
/-- An object with a name that a set can be asked for. -/
theorem namedObject_iff {t : Value F} :
    NamedObject t ↔ ∃ kvs, t = .dict kvs ∧ Hashable ((dictGet kvs "name").getD .none) := by
  cases t <;> simp [NamedObject]

/-- The findings that a decision claims can be read if all of them are
objects. -/
theorem exists_ok_claimedFindings_iff [UnicodeDb] {kvs : List (String × Value F)} :
    (∃ claimed, claimedFindings (.dict kvs : Value F) = .ok claimed) ↔
      EachIn IsObject ((dictGet kvs "findings").getD (.list [])) := by
  rw [claimedFindings, exists_ok_bind_iff, ← exists_iterate_iff fun _ => id]
  simp only [get, Except.ok.injEq, exists_eq_left', exists_ok_bind_iff, exists_ok_mapM_iff]
  refine exists_congr fun xs => and_congr_right fun _ => forall₂_congr fun f _ => ?_
  cases f <;> simp [IsObject, exists_ok_pure]

/-- The retriever can take exactly the readable decisions. -/
theorem exists_ok_readDecision_iff [UnicodeDb] {kvs : List (String × Value F)} :
    (∃ x, readDecision (.dict kvs : Value F) = .ok x) ↔ Readable (.dict kvs : Value F) := by
  -- the name of an allowed tool is called, and any other name is answered
  obtain ⟨next, hnext, hread⟩ : ∃ next : Option String → Except (Exc F) (Decision F),
      (∀ found, ∃ x, next found = .ok x) ∧
      readDecision (.dict kvs : Value F) =
        if ((dictGet kvs "done").getD .none).truthy then
          claimedFindings (.dict kvs) >>= fun claimed => pure (.done claimed)
        else if ((dictGet kvs "tool").getD .none).truthy then
          allowedTool? ((dictGet kvs "tool").getD .none) >>= next
        else pure .silent := by
    refine ⟨_, fun found => ?_, rfl⟩
    cases found with
    | none => exact ⟨_, rfl⟩
    | some name => exact ⟨_, rfl⟩
  rw [hread, Readable]
  by_cases hdone : ((dictGet kvs "done").getD .none).truthy = true
  · rw [if_pos hdone, if_pos hdone, exists_ok_bind_iff, ← exists_ok_claimedFindings_iff]
    simp [exists_ok_pure]
  rw [if_neg hdone, if_neg hdone]
  by_cases htool : ((dictGet kvs "tool").getD .none).truthy = true
  · rw [if_pos htool, exists_ok_bind_iff, ← exists_ok_allowedTool?_iff]
    simp [hnext, htool]
  · rw [if_neg htool]
    exact ⟨fun _ h => absurd h htool, fun _ => exists_ok_pure _⟩

/-- The allowed ones of the tools that the client lists. -/
def allowedSpecs (tools : Value F) : Except (Exc F) (List (Value F)) := do
  (← iterate tools).filterM fun t => do
    return (← allowedTool? (← get t "name" .none)).isSome

omit [PyFloat F] in
/-- The list of the tools can be read if all of them are objects with
names. -/
theorem exists_ok_allowedSpecs_iff {tools : Value F} :
    (∃ specs, allowedSpecs tools = .ok specs) ↔ EachIn NamedObject tools := by
  rw [allowedSpecs, exists_ok_bind_iff, ← exists_iterate_iff fun _ => id]
  simp only [exists_ok_filterM_iff, exists_ok_bind_iff]
  refine exists_congr fun xs => and_congr_right fun _ => forall₂_congr fun t _ => ?_
  cases t with
  | dict kvs => simp [get, NamedObject, exists_ok_pure, exists_ok_allowedTool?_iff]
  | _ => simp [get, NamedObject]

/-- The prompt describes any objects. -/
theorem exists_ok_buildInitialPrompt [UnicodeDb] {tools : Value F} {specs : List (Value F)}
    (hspecs : allowedSpecs tools = .ok specs) (plan : Plan) (question : String) :
    ∃ prompt, buildInitialPrompt question plan specs = .ok prompt := by
  have hobjects : ∀ t ∈ specs, IsObject t := by
    obtain ⟨xs, hxs, hnamed⟩ :=
      (exists_iterate_iff fun _ => id).mpr (exists_ok_allowedSpecs_iff.mp ⟨specs, hspecs⟩)
    intro t ht
    obtain ⟨kvs, rfl, -⟩ := namedObject_iff.mp (hnamed t (mem_of_filterM (by
      rw [allowedSpecs, hxs] at hspecs
      exact hspecs) ht))
    trivial
  rw [buildInitialPrompt, exists_ok_bind_iff]
  have hlines : ∃ lines, (specs.mapM fun t => do
      return "- " ++ pyStrValue (← get t "name" .none) ++ ": " ++
        pyStrValue (← get t "description" (.str ""))) = Except.ok (ε := Exc F) lines := by
    rw [exists_ok_mapM_iff]
    intro t ht
    obtain ⟨kvs, rfl⟩ := isObject_iff.mp (hobjects t ht)
    exact ⟨_, rfl⟩
  obtain ⟨lines, hlines⟩ := hlines
  exact ⟨lines, hlines, _, rfl⟩

variable [UnicodeDb] {messages : List Message} {run run' : AgentRun} {l : Transcript F}

/-! ## Runs -/

/-- A completion is a JSON object, and the client does not raise. -/
def Kept : Exchange (Ask F) Ask.Answer → Prop
  | ⟨.complete _ _ _, answer⟩ => ∃ resp kvs, answer = .ok resp ∧
      parseJsonLenient (firstTextBlock resp) = .ok (Value.dict kvs : Value F)
  | ⟨.listTools, answer⟩ => ∃ tools, answer = .ok tools
  | ⟨.callTool _ _, answer⟩ => ∃ result, answer = .ok result

/-- The model answers with JSON objects, and the client does not raise.
Whatever fails then is a matter of what the objects say. -/
def Served (l : Transcript F) : Prop := ∀ x ∈ l, Kept x

/-- What the client lists. -/
def listingsOf (l : Transcript F) : List (Value F) :=
  l.filterMap fun x => match x with
    | ⟨.listTools, .ok tools⟩ => some tools
    | _ => none

omit [PyFloat F] [UnicodeDb] in
/-- The listings are those of the one part of a transcript and then those of
the other. -/
@[simp]
theorem listingsOf_append (l l' : Transcript F) :
    listingsOf (l ++ l') = listingsOf l ++ listingsOf l' :=
  List.filterMap_append

/-- A round reads one decision. -/
theorem turn_served {r : Except (Exc F) (Turn F)} (h : Routine.Talk (turn messages) run l r run')
    (hserved : Served l) :
    ∃ d, decisionsOf l = [d] ∧ listingsOf l = [] ∧ ((∃ x, r = .ok x) ↔ Readable d) := by
  rcases turn_cases h with ⟨answer, e, rfl, rfl, -, herror⟩ | ⟨resp, d, hparse, hcase⟩
  · obtain ⟨resp, kvs, rfl, hparse⟩ := hserved _ List.mem_cons_self
    refine ⟨.dict kvs, decisionsOf_asked hparse rfl, rfl, ?_⟩
    rw [← exists_ok_readDecision_iff, herror resp _ rfl hparse]
    simp
  have hreadable {x : Decision F} (hread : readDecision d = .ok x) : Readable d := by
    cases d with
    | dict kvs => exact exists_ok_readDecision_iff.mp ⟨x, hread⟩
    | _ => cases hread
  rcases hcase with ⟨claimed, hread, rfl, rfl, rfl⟩ | ⟨messages', x, hread, hx, rfl, rfl, rfl⟩ |
    ⟨name, arguments, answer, hread, rfl, rfl, hanswer⟩
  · exact ⟨_, decisionsOf_asked hparse rfl, rfl, iff_of_true ⟨_, rfl⟩ (hreadable hread)⟩
  · exact ⟨_, decisionsOf_asked hparse rfl, rfl, iff_of_true ⟨_, rfl⟩ (hreadable hread)⟩
  · refine ⟨_, decisionsOf_asked hparse rfl, rfl, iff_of_true ?_ (hreadable hread)⟩
    obtain ⟨result, rfl⟩ : ∃ result, answer = .ok result :=
      hserved ⟨.callTool name arguments, answer⟩ (by simp)
    rcases hanswer with ⟨e, habsurd, -⟩ | ⟨result, messages', -, rfl⟩
    · cases habsurd
    · exact ⟨_, rfl⟩

/-- The loop returns if and only if it can take every decision it reads; the
induction is on the rounds that remain. -/
theorem loop_served {remaining used : ℕ} {findings : List (Finding F)}
    {r : Except (Exc F) (RetrievalResult F)}
    (h : Routine.Talk (loop used remaining messages findings) run l r run')
    (hserved : Served l) :
    listingsOf l = [] ∧ ((∃ result, r = .ok result) ↔ ∀ d ∈ decisionsOf l, Readable d) := by
  induction remaining generalizing used messages findings run l with
  | zero =>
      obtain ⟨rfl, rfl, rfl⟩ := Routine.talk_pure_iff.mp h
      exact ⟨rfl, iff_of_true ⟨_, rfl⟩ (List.forall_mem_nil _)⟩
  | succ remaining ih =>
      rw [loop, Routine.talk_bind_iff] at h
      rcases h with ⟨e, hturn, rfl⟩ | ⟨x, first, rest, u, rfl, hturn, hrest⟩
      · obtain ⟨d, hd, hlist, hiff⟩ := turn_served hturn hserved
        refine ⟨hlist, ?_⟩
        rw [hd, List.forall_mem_singleton, ← hiff]
        simp
      obtain ⟨d, hd, hlist, hiff⟩ := turn_served hturn fun x hx => hserved x (by simp [hx])
      have hd' : Readable d := hiff.mp ⟨x, rfl⟩
      cases x with
      | finished claimed =>
          obtain ⟨rfl, rfl, rfl⟩ := Routine.talk_pure_iff.mp hrest
          rw [List.append_nil, hd]
          exact ⟨hlist, iff_of_true ⟨_, rfl⟩ (List.forall_mem_singleton.mpr hd')⟩
      | next messages' found =>
          obtain ⟨hlist', hiff'⟩ := ih hrest fun x hx => hserved x (by simp [hx])
          refine ⟨by rw [listingsOf_append, hlist, hlist', List.append_nil], ?_⟩
          rw [hiff', decisionsOf_append, hd, List.singleton_append, List.forall_mem_cons]
          exact (and_iff_right hd').symm

omit [UnicodeDb] in
/-- The tools are listed, and the allowed ones picked out. -/
theorem talk_listing {r : Except (Exc F) (List (Value F))}
    (h : Routine.Talk (fetchToolSpecs : Task F (List (Value F))) run l r run')
    (hserved : Served l) :
    ∃ tools, l = [⟨.listTools, .ok tools⟩] ∧ r = allowedSpecs tools ∧ run' = run := by
  rw [fetchToolSpecs, Routine.talk_bind_iff] at h
  rcases h with ⟨e, hlist, -⟩ | ⟨tools, first, rest, u, rfl, hlist, hrest⟩
  · obtain ⟨answer, rfl, hanswer, rfl⟩ := Routine.talk_asking_iff.mp hlist
    obtain ⟨tools, rfl⟩ := hserved _ List.mem_cons_self
    cases hanswer
  · obtain ⟨answer, rfl, hanswer, rfl⟩ := Routine.talk_asking_iff.mp hlist
    obtain ⟨rfl, hspecs, rfl⟩ := Routine.talk_ofExcept_iff.mp hrest
    obtain rfl : answer = .ok tools := hanswer.symm
    exact ⟨tools, rfl, hspecs, rfl⟩

/-- **When the retriever returns.**  In a run in which the model answers with
JSON objects and the client does not raise, it returns a result if and only if
the listing is one of named objects and every decision that it reads is
readable. -/
theorem RetrieverAgent.act_returns_iff {agent : RetrieverAgent} {plan : Plan} {question : String}
    {r : Except (Exc F) (RetrievalResult F)}
    (h : Routine.Talk (agent.act plan question) run l r run') (hserved : Served l) :
    (∃ result, r = .ok result) ↔
      (∀ tools ∈ listingsOf l, EachIn NamedObject tools) ∧ ∀ d ∈ decisionsOf l, Readable d := by
  rw [RetrieverAgent.act, Routine.talk_bind_iff] at h
  rcases h with ⟨e, hlist, rfl⟩ | ⟨specs, first, rest, u, rfl, hlist, h⟩
  · obtain ⟨tools, rfl, hspecs, rfl⟩ := talk_listing hlist hserved
    have hbroken : ¬ EachIn NamedObject tools := by
      rw [← exists_ok_allowedSpecs_iff, ← hspecs]
      simp
    simp [listingsOf, hbroken]
  obtain ⟨tools, rfl, hspecs, rfl⟩ := talk_listing hlist fun x hx => hserved x (by simp [hx])
  have hnamed : EachIn NamedObject tools := exists_ok_allowedSpecs_iff.mp ⟨specs, hspecs.symm⟩
  obtain ⟨prompt, hprompt⟩ := exists_ok_buildInitialPrompt hspecs.symm plan question
  rw [hprompt, Routine.talk_bind_iff] at h
  rcases h with ⟨e, hfailed, -⟩ | ⟨prompt', first, rest, u, rfl, hbuilt, hloop⟩
  · obtain ⟨-, habsurd, -⟩ := Routine.talk_ofExcept_iff.mp hfailed
    cases habsurd
  obtain ⟨rfl, -, rfl⟩ := Routine.talk_ofExcept_iff.mp hbuilt
  obtain ⟨hnone, hiff⟩ := loop_served hloop fun x hx => hserved x (by simp [hx])
  have hlisted : listingsOf ([⟨.listTools, .ok tools⟩] ++ ([] ++ rest)) = [tools] := by
    rw [listingsOf_append, List.nil_append, hnone]
    rfl
  have hdecisions : decisionsOf ([⟨.listTools, .ok tools⟩] ++ ([] ++ rest)) = decisionsOf rest := by
    rw [decisionsOf_append]
    rfl
  rw [hlisted, hdecisions, hiff, List.forall_mem_singleton]
  exact (and_iff_right hnamed).symm

/-- A round that reads a decision it cannot take. -/
theorem talk_turn_unreadable {resp : Completion} {d : Value F} {e : Exc F}
    (hparse : parseJsonLenient (firstTextBlock resp) = .ok d) (hread : readDecision d = .error e) :
    Routine.Talk (turn messages) run [decisionAsked messages (.ok resp)] (.error e)
      (run.charged resp) := by
  refine Routine.talk_bind_iff.mpr (Or.inr ⟨d, [_], [], run.charged resp, rfl,
    talk_completeJson_iff.mpr (Or.inr ⟨resp, rfl, hparse.symm, rfl⟩), ?_⟩)
  exact Routine.talk_bind_iff.mpr (Or.inl ⟨e,
    Routine.talk_ofExcept_iff.mpr ⟨rfl, hread.symm, rfl⟩, rfl⟩)

/-- A run in which it is the first one. -/
theorem RetrieverAgent.talk_act_unreadable (run : AgentRun) {resp : Completion} {d : Value F}
    {e : Exc F} (hparse : parseJsonLenient (firstTextBlock resp) = .ok d)
    (hread : readDecision d = .error e) (plan : Plan) (question : String) :
    ∃ prompt, Routine.Talk (RetrieverAgent.act {} plan question) run
      [⟨.listTools, .ok (.list [])⟩, decisionAsked [⟨"user", prompt⟩] (.ok resp)] (.error e)
      (run.charged resp) := by
  have hloop (messages : List Message) : Routine.Talk (loop 0 6 messages []) run
      [decisionAsked messages (.ok resp)] (.error e) (run.charged resp) :=
    Routine.talk_bind_iff.mpr (Or.inl ⟨e, talk_turn_unreadable hparse hread, rfl⟩)
  exact RetrieverAgent.talk_act_of_loop {} hloop plan question

end Retriever

/-- A decision whose tool is a list. -/
def listDecision : Value WholeFloat := .dict [("tool", .list [.str "vector.search"])]

/-- A decision whose findings are null. -/
def nullDecision : Value WholeFloat := .dict [("done", .bool true), ("findings", .none)]

/-- A decision as the text of a completion. -/
def decisionText (decision : Value WholeFloat) : Completion :=
  ⟨[⟨some "text", some (dumps decision)⟩], none, none⟩

/-- The retriever raises at the decision, the only one of a run in which
nothing else does. -/
def RaisesAt (d : Value WholeFloat) : Prop :=
  ∃ (l : Transcript WholeFloat) (run' : AgentRun), Served l ∧ decisionsOf l = [d] ∧
    Routine.Talk (RetrieverAgent.act {} ⟨[], false, "", none⟩ "Why?") ⟨"t1", 0, 0, 0⟩ l
      (.error (.other "TypeError")) run'

/-- A decision that raises as it is read is one that ends the run with an
exception, however it was written as JSON. -/
theorem raisesAt_of_readDecision {kvs : List (String × Value WholeFloat)}
    (hwf : (Value.dict kvs).Wf) (hjson : (Value.dict kvs).jsonify = .dict kvs)
    (hread : readDecision (.dict kvs) = .error (.other "TypeError")) : RaisesAt (.dict kvs) := by
  have hparse : parseJsonLenient (firstTextBlock (decisionText (.dict kvs))) =
      .ok (.dict kvs) := by
    have hdumps := parseJsonLenient_dumps hwf
    rwa [hjson] at hdumps
  obtain ⟨prompt, htalk⟩ := RetrieverAgent.talk_act_unreadable ⟨"t1", 0, 0, 0⟩ hparse hread
    ⟨[], false, "", none⟩ "Why?"
  have hround : decisionsOf [decisionAsked [⟨"user", prompt⟩] (.ok (decisionText (.dict kvs)))] =
      [.dict kvs] := decisionsOf_asked hparse rfl
  have hdecisions : decisionsOf [⟨.listTools, .ok (.list [])⟩,
      decisionAsked [⟨"user", prompt⟩] (.ok (decisionText (.dict kvs)))] = [.dict kvs] := hround
  refine ⟨_, _, fun x hx => ?_, hdecisions, htalk⟩
  rcases List.mem_cons.mp hx with rfl | hx
  · exact ⟨_, rfl⟩
  · obtain rfl := List.mem_singleton.mp hx
    exact ⟨_, _, rfl, hparse⟩

/-- It raises at either. -/
theorem mistyped_decisions_raise : RaisesAt listDecision ∧ RaisesAt nullDecision :=
  ⟨raisesAt_of_readDecision (by simp [Value.Wf, Value.WfMembers, Value.WfItems]) rfl rfl,
    raisesAt_of_readDecision (by simp [Value.Wf, Value.WfMembers]) rfl rfl⟩

/-- One that names a tool is read. -/
theorem search_returns :
    ∃ (l : Transcript WholeFloat) (result : RetrievalResult WholeFloat),
      decisionsOf l = [searchDecision] ∧
      ((∃ result', Except.ok (ε := Exc WholeFloat) result = .ok result') ↔
        (∀ tools ∈ listingsOf l, EachIn NamedObject tools) ∧ ∀ d ∈ decisionsOf l, Readable d) := by
  have hparse : parseJsonLenient (firstTextBlock searchReply) = .ok searchDecision :=
    parseJsonLenient_dumps (by simp [Value.Wf, Value.WfMembers])
  obtain ⟨prompt, htalk⟩ :=
    RetrieverAgent.talk_act_once turn_searching ⟨[], false, "", none⟩ "Why?"
  have hround : decisionsOf (searchRound [⟨"user", prompt⟩]) = [searchDecision] :=
    decisionsOf_asked hparse rfl
  have hdecisions : decisionsOf (⟨.listTools, .ok (.list [])⟩ :: searchRound [⟨"user", prompt⟩]) =
      [searchDecision] := hround
  refine ⟨_, _, hdecisions, RetrieverAgent.act_returns_iff htalk fun x hx => ?_⟩
  rcases List.mem_cons.mp hx with rfl | hx
  · exact ⟨_, rfl⟩
  rcases List.mem_cons.mp hx with rfl | hx
  · exact ⟨_, _, rfl, hparse⟩
  · obtain rfl := List.mem_singleton.mp hx
    exact ⟨_, rfl⟩

end Agents
