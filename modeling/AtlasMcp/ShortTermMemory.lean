import AtlasMcp.GuardedRuns
import AtlasMcp.JsonSorted
import AtlasMcp.RecentItems
import AtlasMcp.TaskTurns

/-!
# Conversations

A conversation is a Redis list.  `append` sends three commands, a push, a trim and a new time to
live, and others may send theirs in between, so a trim may come late and cut what another call has
pushed.  It never cuts too much: the list keeps an end of what has been pushed since the last
`clear`, with the last twenty turns in it, and while there are more, a trim is still to come
(`Kept`).  When no call is under way the list holds the last twenty (`history_of_run`).
-/

namespace AgentMemory

open PyJson GuardedRuns RecentItems TaskTurns

variable {F : Type}

/-! ## Redis lists -/

/-- The items from `start` to `stop`; a negative index counts from the end. -/
def range {α : Type} (xs : List α) (start stop : ℤ) : List α :=
  let first := if start < 0 then max 0 (xs.length + start) else start
  let last := if stop < 0 then xs.length + stop else stop
  (xs.take (last + 1).toNat).drop first.toNat

/-- The list at a key, which is not there if the list is empty. -/
structure RedisList where
  items : List String := []
  ttl : Option ℕ := none

/-- The commands that change a list. -/
inductive Command
  | rpush (value : String)
  | ltrim (start stop : ℤ)
  | expire (seconds : ℕ)
  | delete

/-- What Redis does at a command: one list, whose key is gone when nothing is
left in it.  A life that was set stays until it is set anew or the key
goes. -/
def Command.exec (l : RedisList) : Command → RedisList
  | rpush value => { l with items := l.items ++ [value] }
  | ltrim start stop =>
      let kept := range l.items start stop
      if kept = [] then {} else { l with items := kept }
  | expire seconds => if l.items = [] then l else { l with ttl := some seconds }
  | delete => {}

/-- A database of lists; no key expires in it. -/
abbrev Redis : Type := String → RedisList

/-- The range from the first item to the last is all of it. -/
theorem range_all {α : Type} (xs : List α) : range xs 0 (-1) = xs := by
  simp [range]

/-- A range that counts from the end has that many of the last items. -/
theorem range_last {α : Type} (xs : List α) {n : ℕ} (hn : 0 < n) :
    range xs (-n) (-1) = xs.rtake n := by
  have hlast : ((xs.length : ℤ) + -1 + 1).toNat = xs.length := by omega
  have hfirst : (max 0 ((xs.length : ℤ) + -n)).toNat = xs.length - n := by omega
  have hneg : -(n : ℤ) < 0 := by omega
  simp only [range, hneg, if_true, Int.reduceNeg, Int.reduceLT, hlast, hfirst, List.take_length,
    List.rtake]

/-! ## The memory of a session -/

/-- A turn of a conversation. -/
structure Turn (F : Type) where
  role : String
  content : String
  createdAt : F

/-- The members under which a turn is stored. -/
def Turn.asdict (turn : Turn F) : Value F :=
  .dict [("role", .str turn.role), ("content", .str turn.content),
    ("created_at", .float turn.createdAt)]

/-- `Turn(**v)`, at the time `now`. -/
def Turn.ofJson (now : F) : Value F → Option (Turn F)
  | .dict kvs => do
      guard (kvs.all fun kv => kv.1 ∈ ["role", "content", "created_at"])
      match dictGet kvs "role", dictGet kvs "content",
          (dictGet kvs "created_at").getD (.float now) with
      | some (.str role), some (.str content), .float createdAt =>
          some { role, content, createdAt }
      | _, _, _ => none
  | _ => none

/-- A session is forgotten an hour after its last turn. -/
def ttlSeconds : ℕ := 3600

/-- The memory keeps twenty turns of a session. -/
def maxTurns : ℕ := 20

/-- The key of a session. -/
def key (sessionId : String) : String := "atlas:stm:" ++ sessionId

theorem key_injective : Function.Injective key := fun _ _ h => (String.append_right_inj _).mp h

variable [PyFloat F]

/-- The text of a turn in the list. -/
def text (turn : Turn F) : String := dumps turn.asdict

/-- `history` at the time `now`; it fails if an item of the list is no
turn. -/
def history (redis : Redis) (sessionId : String) (now : F) : Option (List (Turn F)) :=
  (range (redis (key sessionId)).items 0 (-1)).mapM fun raw =>
    (loads raw).bind (Turn.ofJson now)

/-- A stored turn is read back. -/
theorem ofJson_loads_text (now : F) (turn : Turn F) :
    (loads (text turn)).bind (Turn.ofJson now) = some turn := by
  have hwf : turn.asdict.Wf := by simp [Turn.asdict, Value.Wf, Value.WfMembers]
  have hnative : turn.asdict.Native := by simp [Turn.asdict, Value.Native, Value.NativeMembers]
  rw [text, loads_dumps hwf, Value.jsonify_of_native _ hnative]
  rfl

/-! ## Calls at work -/

/-- What a client of the memory asks for: to add a turn, or to forget the
session. -/
inductive Call (F : Type)
  | append (turn : Turn F)
  | clear

/-- Where a call stands: the command it sends next.  Other calls can send theirs
in between. -/
inductive Stage (F : Type)
  | rpush (turn : Turn F)
  | ltrim
  | expire
  | delete
  | done

/-- A call starts with its first command. -/
def Call.start : Call F → Stage F
  | append turn => .rpush turn
  | clear => .delete

namespace Stage

/-- The command that a call sends next, if any is left. -/
def command : Stage F → Option Command
  | rpush turn => some (.rpush (text turn))
  | ltrim => some (.ltrim (-maxTurns) (-1))
  | expire => some (.expire ttlSeconds)
  | delete => some .delete
  | done => none

omit [PyFloat F] in
/-- What is left of a call after its next command: a turn is pushed before the
list is cut and its life is set anew. -/
def next : Stage F → Stage F
  | rpush _ => ltrim
  | ltrim => expire
  | expire => done
  | delete => done
  | done => done

end Stage

/-- A call for a session, which is where its last command has left it. -/
structure Task (F : Type) where
  sessionId : String
  stage : Stage F

/-- Redis, and the calls that are under way. -/
structure State (F : Type) where
  redis : Redis := fun _ => {}
  tasks : List (Task F)

omit [PyFloat F] in
/-- Calls are made, and none has sent a command. -/
def start (calls : List (String × Call F)) : State F where
  tasks := calls.map fun call => ⟨call.1, call.2.start⟩

/-- One of the calls, as it stands, sends its next command.  Which one it is is
left open, so that the runs are all the interleavings. -/
inductive Step (s : State F) : Task F → State F → Prop
  | command {i : ℕ} {task : Task F} {c : Command} (hthere : s.tasks[i]? = some task)
      (hcommand : task.stage.command = some c) :
      Step s task
        { redis := Function.update s.redis (key task.sessionId)
            (c.exec (s.redis (key task.sessionId)))
          tasks := s.tasks.set i { task with stage := task.stage.next } }

omit [PyFloat F] in
/-- What a command makes of the turns pushed for a session since it was
cleared last. -/
def record (sessionId : String) (turns : List (Turn F)) (task : Task F) : List (Turn F) :=
  if task.sessionId = sessionId then
    match task.stage with
    | .rpush turn => turns ++ [turn]
    | .delete => []
    | _ => turns
  else turns

omit [PyFloat F] in
/-- The turns pushed for a session since it was cleared last, in the order of
the pushes. -/
def sinceClear (sessionId : String) (events : List (Task F)) : List (Turn F) :=
  events.foldl (record sessionId) []

/-- What the database holds of a session when these turns have been pushed for
it: the last of them, and more only while a call is about to trim. -/
structure Kept (s : State F) (sessionId : String) (turns : List (Turn F)) : Prop where
  last : KeepsLast maxTurns (turns.map text) (s.redis (key sessionId)).items
  trimmed : (s.redis (key sessionId)).items.length ≤ maxTurns ∨ ⟨sessionId, .ltrim⟩ ∈ s.tasks

variable {s s' : State F} {task : Task F} {sessionId : String} {turns : List (Turn F)}

/-- What a step is. -/
theorem Step.effect (h : Step s task s') : ∃ i c, s.tasks[i]? = some task ∧
    task.stage.command = some c ∧
    s'.redis (key task.sessionId) = c.exec (s.redis (key task.sessionId)) ∧
    (∀ other ≠ task.sessionId, s'.redis (key other) = s.redis (key other)) ∧
    s'.tasks = s.tasks.set i { task with stage := task.stage.next } := by
  cases h with
  | @command i _ c hthere hcommand =>
      exact ⟨i, c, hthere, hcommand, Function.update_self _ _ _,
        fun other hother => Function.update_of_ne (key_injective.ne hother) _ _, rfl⟩

omit [PyFloat F] in
/-- A call that is not the one at work stays where it stands. -/
theorem mem_set {ts : List (Task F)} {i : ℕ} {other : Task F} (hthere : ts[i]? = some task)
    (new : Task F) (hne : other ≠ task) (hmem : other ∈ ts) : other ∈ ts.set i new := by
  obtain ⟨j, hj⟩ := List.mem_iff_getElem?.mp hmem
  have hji : j ≠ i := by
    rintro rfl
    exact hne (Option.some.inj (hj.symm.trans hthere))
  exact List.mem_of_getElem? (((replaced_set hthere new).2 j hji).trans hj)

theorem exec_ltrim (l : RedisList) :
    (Command.exec l (.ltrim (-maxTurns) (-1))).items = l.items.rtake maxTurns := by
  have hrange : range l.items (-maxTurns) (-1) = l.items.rtake maxTurns :=
    range_last _ (by decide)
  rw [Command.exec, hrange]
  split
  next hempty => exact hempty.symm
  next => rfl

theorem exec_expire (l : RedisList) (seconds : ℕ) :
    (Command.exec l (.expire seconds)).items = l.items := by
  rw [Command.exec]
  split <;> rfl

/-- A command for another session changes nothing. -/
theorem Kept.step_ne (h : Kept s sessionId turns) (hstep : Step s task s')
    (hne : task.sessionId ≠ sessionId) : Kept s' sessionId (record sessionId turns task) := by
  obtain ⟨i, c, hthere, -, -, hothers, htasks⟩ := hstep.effect
  rw [record, if_neg hne]
  constructor
  · rw [hothers sessionId hne.symm]
    exact h.last
  · rw [hothers sessionId hne.symm]
    rw [htasks]
    exact h.trimmed.imp_right (mem_set hthere _ fun hsame => hne (hsame ▸ rfl))

/-- **A command keeps what is kept.** -/
theorem Kept.step (h : Kept s sessionId turns) (hstep : Step s task s') :
    Kept s' sessionId (record sessionId turns task) := by
  by_cases hsession : task.sessionId = sessionId
  · subst hsession
    obtain ⟨i, c, hthere, hcommand, hlist, -, htasks⟩ := hstep.effect
    rw [record, if_pos rfl]
    cases hstage : task.stage with
    | rpush turn =>
        rw [hstage] at hcommand htasks
        obtain rfl := Option.some.inj hcommand
        constructor
        · rw [hlist, List.map_append]
          exact h.last.push (text turn)
        · rw [htasks]
          exact Or.inr (List.mem_of_getElem? (replaced_set hthere _).1)
    | ltrim =>
        rw [hstage] at hcommand
        obtain rfl := Option.some.inj hcommand
        constructor
        · rw [hlist, exec_ltrim]
          exact h.last.trim
        · rw [hlist, exec_ltrim, length_rtake]
          exact Or.inl (min_le_left _ _)
    | expire =>
        rw [hstage] at hcommand
        obtain rfl := Option.some.inj hcommand
        constructor
        · rw [hlist, exec_expire]
          exact h.last
        · rw [hlist, exec_expire, htasks]
          refine h.trimmed.imp_right (mem_set hthere _ fun hsame => ?_)
          rw [← hsame] at hstage
          cases hstage
    | delete =>
        rw [hstage] at hcommand
        obtain rfl := Option.some.inj hcommand
        constructor
        · rw [hlist]
          exact KeepsLast.self _ _
        · rw [hlist]
          exact Or.inl (Nat.zero_le _)
    | done =>
        rw [hstage] at hcommand
        cases hcommand
  · exact h.step_ne hstep hsession

/-! ## Runs -/

omit [PyFloat F] in
/-- The turn that a call pushes with its next command, if it is one of the
session. -/
def Task.pushes (sessionId : String) (task : Task F) : Option (Turn F) :=
  match task.stage with
  | .rpush turn => if task.sessionId = sessionId then some turn else none
  | _ => none

omit [PyFloat F] in
/-- A push is a call's first command. -/
theorem pushes_next (sessionId : String) (task : Task F) :
    Task.pushes sessionId { task with stage := task.stage.next } = none := by
  cases hstage : task.stage <;> rfl

/-- One item of a list is set to another, which gives nothing. -/
theorem filterMap_set_perm {α β : Type} {f : α → Option β} {xs : List α} {i : ℕ} {x y : α}
    (hthere : xs[i]? = some x) (hnone : f y = none) :
    ((f x).toList ++ (xs.set i y).filterMap f).Perm (xs.filterMap f) := by
  induction xs generalizing i with
  | nil => cases hthere
  | cons first xs ih =>
      cases i with
      | zero =>
          obtain rfl := Option.some.inj hthere
          rw [List.set_cons_zero, List.filterMap_cons_none hnone]
          cases hfirst : f first with
          | none => rw [List.filterMap_cons_none hfirst]; rfl
          | some b => rw [List.filterMap_cons_some hfirst]; rfl
      | succ i =>
          have hrest := ih (i := i) hthere
          rw [List.set_cons_succ]
          cases hfirst : f first with
          | none => simpa only [List.filterMap_cons_none hfirst] using hrest
          | some b =>
              rw [List.filterMap_cons_some hfirst, List.filterMap_cons_some hfirst]
              exact List.perm_middle.trans (hrest.cons b)

variable {calls : List (String × Call F)} {events : List (Task F)}

/-- What is kept all along. -/
theorem kept_of_run (hrun : Run Step (start calls) events s) (sessionId : String) :
    Kept s sessionId (sinceClear sessionId events) := by
  induction hrun with
  | nil => exact ⟨KeepsLast.self _ _, Or.inl (Nat.zero_le _)⟩
  | snoc _ hstep ih =>
      rw [sinceClear, List.foldl_append]
      exact ih.step hstep

/-- Each turn is pushed once, or is still to be pushed. -/
theorem pushes_of_run (hrun : Run Step (start calls) events s) (sessionId : String) :
    ((events ++ s.tasks).filterMap (Task.pushes sessionId)).Perm
      ((start calls).tasks.filterMap (Task.pushes sessionId)) := by
  induction hrun with
  | nil => exact List.Perm.refl _
  | @snoc events task s s' _ hstep ih =>
      obtain ⟨i, c, hthere, -, -, -, htasks⟩ := hstep.effect
      refine List.Perm.trans ?_ ih
      have htask : [task].filterMap (Task.pushes sessionId) =
          (Task.pushes sessionId task).toList := by
        cases hpushes : Task.pushes sessionId task with
        | none => rw [List.filterMap_cons_none hpushes]; rfl
        | some turn => rw [List.filterMap_cons_some hpushes]; rfl
      rw [htasks, List.append_assoc, List.filterMap_append, List.filterMap_append,
        List.filterMap_append, htask]
      exact (filterMap_set_perm hthere (pushes_next sessionId task)).append_left _

/-- The stored texts are those of the turns. -/
theorem mapM_text (now : F) (turns : List (Turn F)) :
    ((turns.map text).mapM fun raw => (loads raw).bind (Turn.ofJson now)) = some turns := by
  induction turns with
  | nil => rfl
  | cons turn turns ih => simp [ofJson_loads_text, ih]

/-- **The last turns.**  When the calls are done, in whatever order their
commands came, the history of a session is the last twenty turns pushed for it
since it was cleared last, or all of them if there are fewer; and every turn
that was appended has been pushed once. -/
theorem history_of_run (hrun : Run Step (start calls) events s)
    (hdone : ∀ task ∈ s.tasks, task.stage = .done) (sessionId : String) (now : F) :
    let turns := sinceClear sessionId events
    history s.redis sessionId now = some (turns.rtake maxTurns) ∧
      (turns.rtake maxTurns).length = min maxTurns turns.length ∧
      (events.filterMap (Task.pushes sessionId)).Perm
        ((start calls).tasks.filterMap (Task.pushes sessionId)) := by
  intro turns
  refine ⟨?_, length_rtake _ _, ?_⟩
  · obtain ⟨hlast, htrimmed⟩ := kept_of_run hrun sessionId
    have hshort : (s.redis (key sessionId)).items.length ≤ maxTurns := by
      refine htrimmed.resolve_right fun hpending => ?_
      cases hdone _ hpending
    have hitems : (s.redis (key sessionId)).items = (turns.rtake maxTurns).map text := by
      rw [hlast.eq_rtake hshort, List.rtake, List.rtake, List.map_drop, List.length_map]
    rw [history, range_all, hitems]
    exact mapM_text now _
  · have hnone : s.tasks.filterMap (Task.pushes sessionId) = [] := by
      rw [List.filterMap_eq_nil_iff]
      intro task htask
      rw [Task.pushes, hdone task htask]
    have hpushes := pushes_of_run hrun sessionId
    rwa [List.filterMap_append, hnone, List.append_nil] at hpushes

/-- A turn of the user, for the tests. -/
def question : Turn WholeFloat := ⟨"user", "where is my order?", ⟨0⟩⟩

/-- The answer to it. -/
def answer : Turn WholeFloat := ⟨"assistant", "it was shipped", ⟨1⟩⟩

/-- Both are pushed before the trims come, the later one's first. -/
def overlappingCommands : List (Task WholeFloat) :=
  [⟨"s1", .rpush question⟩, ⟨"s1", .rpush answer⟩, ⟨"s1", .ltrim⟩, ⟨"s1", .expire⟩,
    ⟨"s1", .ltrim⟩, ⟨"s1", .expire⟩]

/-- A run in which two calls to one session overlap, command by command; both
turns are there afterwards, in the order in which they were pushed. -/
theorem history_of_overlapping_calls :
    ∃ s, Run Step (start [("s1", .append question), ("s1", .append answer)])
        overlappingCommands s ∧
      history s.redis "s1" ⟨2⟩ = some [question, answer] := by
  have hnil : Run Step (start [("s1", .append question), ("s1", .append answer)]) [] _ := .nil
  have hpushed := (hnil.snoc (.command (i := 0) rfl rfl)).snoc (.command (i := 1) rfl rfl)
  have hsecond := (hpushed.snoc (.command (i := 1) rfl rfl)).snoc (.command (i := 1) rfl rfl)
  have hrun := (hsecond.snoc (.command (i := 0) rfl rfl)).snoc (.command (i := 0) rfl rfl)
  refine ⟨_, hrun, (history_of_run hrun ?_ "s1" ⟨2⟩).1⟩
  intro task htask
  rcases List.mem_cons.mp htask with rfl | hrest
  · rfl
  · rw [List.mem_singleton.mp hrest]
    rfl

end AgentMemory
