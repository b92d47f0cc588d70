import AtlasMcp.ShortTermMemory

/-!
# Idle sessions

Redis drops a key when its time is over, and `append` gives the list of a session a new hour
only with its last command.  So a list may go between the push of a turn and the new hour,
and the turn with it.

A `Talk` is what a session is for: the turns pushed for it, and the time until which they are
remembered.  The lists keep the last turns of the talks (`Follows`), whatever the order of the
commands and whenever they come.  `session_of_run` says what this means for a session: it
is forgotten after an hour without a new one, and while no command comes later than that,
nothing is.
-/

namespace AgentMemory

open PyJson GuardedRuns RecentItems TaskTurns

variable {F : Type}

/-- A list, with the time at which it goes.  A list without a deadline stays. -/
structure DatedList where
  items : List String := []
  deadline : Option ℚ := none

/-- What is there of it at a time. -/
def DatedList.at (l : DatedList) (now : ℚ) : DatedList :=
  if l.deadline.any (· < now) then {} else l

/-- A command at a time. -/
def Command.execAt (now : ℚ) (list : DatedList) (c : Command) : DatedList :=
  let l := list.at now
  match c with
  | rpush value => { l with items := l.items ++ [value] }
  | ltrim start stop =>
      let kept := range l.items start stop
      if kept = [] then {} else { l with items := kept }
  | expire seconds => if l.items = [] then l else { l with deadline := some (now + seconds) }
  | delete => {}

/-- Lists by their keys, and the calls at work.  Each call is where its last
command has left it. -/
structure DatedState (F : Type) where
  redis : String → DatedList := fun _ => {}
  tasks : List (Task F)

namespace DatedState

/-- Calls are made, and none has sent a command. -/
def start (calls : List (String × Call F)) : DatedState F where
  tasks := calls.map fun call => ⟨call.1, call.2.start⟩

variable [PyFloat F]

/-- One of the calls, as it stands, sends its next command, at a time.  Which
one it is is left open, so that the runs are all the interleavings. -/
inductive Step (s : DatedState F) : Task F × ℚ → DatedState F → Prop
  | command {i : ℕ} {task : Task F} {c : Command} {now : ℚ} (hthere : s.tasks[i]? = some task)
      (hcommand : task.stage.command = some c) :
      Step s (task, now)
        { redis := Function.update s.redis (key task.sessionId)
            (c.execAt now (s.redis (key task.sessionId)))
          tasks := s.tasks.set i { task with stage := task.stage.next } }

/-- `history` at a time; `created` is the default of `created_at`. -/
def history (redis : String → DatedList) (sessionId : String) (now : ℚ) (created : F) :
    Option (List (Turn F)) :=
  (range ((redis (key sessionId)).at now).items 0 (-1)).mapM fun raw =>
    (loads raw).bind (Turn.ofJson created)

end DatedState

/-! ## What a session is for -/

/-- The turns of a session that are remembered, and until when.  This is what
the memory is for; the lists are how it is done. -/
structure Talk (F : Type) where
  turns : List (Turn F) := []
  expiresAt : Option ℚ := none

/-- What is remembered at a time. -/
def Talk.at (talk : Talk F) (now : ℚ) : Talk F :=
  if talk.expiresAt.any (· < now) then {} else talk

/-- A turn is added, the turns get a new hour, or all are forgotten. -/
def Talk.after (sessionId : String) (talk : Talk F) (e : Task F × ℚ) : Talk F :=
  if e.1.sessionId = sessionId then
    let now := talk.at e.2
    match e.1.stage with
    | .rpush turn => { now with turns := now.turns ++ [turn] }
    | .expire => if now.turns = [] then now else { now with expiresAt := some (e.2 + ttlSeconds) }
    | .delete => {}
    | .ltrim | .done => now
  else talk

/-- The talk of a session. -/
def talkOf (sessionId : String) (events : List (Task F × ℚ)) : Talk F :=
  events.foldl (Talk.after sessionId) {}

/-- When the session was last given a new hour. -/
def lastExpire (sessionId : String) (events : List (Task F × ℚ)) : Option ℚ :=
  events.foldl (fun last e =>
    match e.1.stage with
    | .expire => if e.1.sessionId = sessionId then some e.2 else last
    | _ => last) none

/-- Each command of the session comes within an hour of the last `expire`, so
that nothing has expired when it comes. -/
def Brisk (sessionId : String) (events : List (Task F × ℚ)) : Prop :=
  ∀ before e after, events = before ++ e :: after → e.1.sessionId = sessionId →
    ∀ t ∈ lastExpire sessionId before, e.2 ≤ t + ttlSeconds

theorem talkOf_concat (sessionId : String) (events : List (Task F × ℚ)) (e : Task F × ℚ) :
    talkOf sessionId (events ++ [e]) = (talkOf sessionId events).after sessionId e := by
  rw [talkOf, List.foldl_append]
  rfl

/-- The last time at which the life of a session was set is that of the last
event, if that event does it, and otherwise the one before. -/
theorem lastExpire_concat (sessionId : String) (events : List (Task F × ℚ)) (e : Task F × ℚ) :
    lastExpire sessionId (events ++ [e]) =
      match e.1.stage with
      | .expire => if e.1.sessionId = sessionId then some e.2 else lastExpire sessionId events
      | _ => lastExpire sessionId events := by
  rw [lastExpire, List.foldl_append]
  rfl

/-- The life of a session was set at the time of one of the events. -/
theorem mem_of_lastExpire {sessionId : String} {events : List (Task F × ℚ)} {t : ℚ}
    (h : t ∈ lastExpire sessionId events) : ∃ e ∈ events, e.2 = t := by
  induction events using List.reverseRecOn with
  | nil => cases h
  | append_singleton events e ih =>
      have hcases : t ∈ lastExpire sessionId events ∨ e.2 = t := by
        rw [lastExpire_concat] at h
        split at h
        · split at h
          · exact Or.inr (Option.some.inj h)
          · exact Or.inl h
        · exact Or.inl h
      rcases hcases with hbefore | hnow
      · obtain ⟨e', he', ht⟩ := ih hbefore
        exact ⟨e', List.mem_append_left _ he', ht⟩
      · exact ⟨e, List.mem_append_right _ (List.mem_singleton.mpr rfl), hnow⟩

/-- Commands within an hour of each other. -/
theorem brisk_of_within {sessionId : String} {events : List (Task F × ℚ)}
    (h : ∀ e ∈ events, ∀ e' ∈ events, e.2 ≤ e'.2 + ttlSeconds) : Brisk sessionId events := by
  intro before e after hsplit _ t ht
  obtain ⟨e', he', rfl⟩ := mem_of_lastExpire ht
  exact h e (by simp [hsplit]) e' (by simp [hsplit, he'])

/-- A talk is gone once it has expired, and is as it was until then. -/
theorem Talk.at_cases (talk : Talk F) (now : ℚ) :
    talk.at now = {} ∧ (∃ t ∈ talk.expiresAt, t < now) ∨
      talk.at now = talk ∧ ∀ t ∈ talk.expiresAt, now ≤ t := by
  rw [Talk.at]
  cases hexpires : talk.expiresAt with
  | none => simp
  | some t =>
      by_cases hlt : t < now
      · simp [hlt]
      · simp [hlt, not_lt.mp hlt]

/-- What happens to other sessions leaves a talk as it is. -/
theorem Talk.after_ne {sessionId : String} {talk : Talk F} {e : Task F × ℚ}
    (h : e.1.sessionId ≠ sessionId) : talk.after sessionId e = talk := if_neg h

/-- The turns are remembered until an hour after the last `expire`. -/
theorem expiresAt_talkOf (sessionId : String) (events : List (Task F × ℚ)) :
    ∀ d ∈ (talkOf sessionId events).expiresAt, (talkOf sessionId events).turns ≠ [] ∧
      ∃ t ∈ lastExpire sessionId events, d = t + ttlSeconds := by
  induction events using List.reverseRecOn with
  | nil => simp [talkOf]
  | append_singleton events e ih =>
      rw [talkOf_concat, lastExpire_concat]
      by_cases hsession : e.1.sessionId = sessionId
      · have hnow : ∀ d ∈ ((talkOf sessionId events).at e.2).expiresAt,
            ((talkOf sessionId events).at e.2).turns ≠ [] ∧
              ∃ t ∈ lastExpire sessionId events, d = t + ttlSeconds := by
          rcases (talkOf sessionId events).at_cases e.2 with ⟨hgone, -⟩ | ⟨hsame, -⟩
          · simp [hgone]
          · rw [hsame]
            exact ih
        rw [Talk.after, if_pos hsession]
        generalize (talkOf sessionId events).at e.2 = talk at hnow
        cases hstage : e.1.stage with
        | rpush turn => exact fun d hd => ⟨by simp, (hnow d hd).2⟩
        | ltrim => exact hnow
        | expire =>
            intro d hd
            by_cases hempty : talk.turns = []
            · simp only [hempty, if_true] at hd
              exact absurd hempty (hnow d hd).1
            · simp only [hempty, if_false] at hd ⊢
              obtain rfl := Option.some.inj hd
              exact ⟨hempty, e.2, by simp [hsession], rfl⟩
        | delete => simp
        | done => exact hnow
      · rw [Talk.after_ne hsession]
        have hlast : lastExpire sessionId events =
            match e.1.stage with
            | .expire => if e.1.sessionId = sessionId then some e.2 else lastExpire sessionId events
            | _ => lastExpire sessionId events := by
          rw [if_neg hsession]
          split <;> rfl
        rw [← hlast]
        exact ih

/-- While no command comes too late, nothing is forgotten but by `clear`. -/
theorem turns_talkOf {sessionId : String} {events : List (Task F × ℚ)}
    (h : Brisk sessionId events) :
    (talkOf sessionId events).turns = sinceClear sessionId (events.map Prod.fst) := by
  induction events using List.reverseRecOn with
  | nil => rfl
  | append_singleton events e ih =>
      have hbefore : Brisk sessionId events := by
        intro before e' after hsplit
        exact h before e' (after ++ [e]) (by simp [hsplit])
      have hturns := ih hbefore
      rw [talkOf_concat, List.map_append, sinceClear, List.foldl_append, ← sinceClear, ← hturns]
      by_cases hsession : e.1.sessionId = sessionId
      · have hsame : (talkOf sessionId events).at e.2 = talkOf sessionId events := by
          rcases (talkOf sessionId events).at_cases e.2 with ⟨-, d, hd, hlt⟩ | ⟨hsame, -⟩
          · obtain ⟨-, t, ht, hdt⟩ := expiresAt_talkOf sessionId events d hd
            have hle := h events e [] rfl hsession t ht
            linarith
          · exact hsame
        simp only [List.map_cons, List.map_nil, List.foldl_cons, List.foldl_nil, record, Talk.after,
          if_pos hsession, hsame]
        cases e.1.stage with
        | expire =>
            dsimp only
            split <;> rfl
        | _ => rfl
      · simp [record, Talk.after, hsession]

/-! ## The lists keep the talks -/

variable [PyFloat F]

/-- The list of a session keeps the last turns of its talk, as long as the
talk lasts; and a call is under way to trim it, or to give it an hour, where
that has not been done. -/
structure Follows (tasks : List (Task F)) (sessionId : String) (l : DatedList)
    (talk : Talk F) : Prop where
  last : KeepsLast maxTurns (talk.turns.map text) l.items
  deadline : l.deadline = talk.expiresAt
  filled : talk.turns = [] → talk.expiresAt = none
  trimmed : l.items.length ≤ maxTurns ∨ ⟨sessionId, .ltrim⟩ ∈ tasks
  leased : talk.turns = [] ∨ talk.expiresAt ≠ none ∨ ⟨sessionId, .ltrim⟩ ∈ tasks ∨
    ⟨sessionId, .expire⟩ ∈ tasks

variable {tasks : List (Task F)} {sessionId : String} {l : DatedList} {talk : Talk F}

/-- A list that is not there keeps the turns of a talk in which nothing was
said. -/
theorem follows_empty (tasks : List (Task F)) (sessionId : String) :
    Follows tasks sessionId {} {} where
  last := KeepsLast.self _ _
  deadline := rfl
  filled := fun _ => rfl
  trimmed := Or.inl (Nat.zero_le _)
  leased := Or.inl rfl

/-- A list goes when its talk is over. -/
theorem Follows.at (h : Follows tasks sessionId l talk) (now : ℚ) :
    Follows tasks sessionId (l.at now) (talk.at now) := by
  rw [DatedList.at, Talk.at, h.deadline]
  split
  · exact follows_empty tasks sessionId
  · exact h

/-- There is no list exactly if there are no turns. -/
theorem Follows.items_eq_nil_iff (h : Follows tasks sessionId l talk) :
    l.items = [] ↔ talk.turns = [] := by
  constructor
  · intro hnil
    have henough := h.last.enough
    rw [hnil, List.length_map, List.length_nil, maxTurns] at henough
    exact List.length_eq_zero_iff.mp (by omega)
  · intro hnil
    have hsuffix := h.last.suffix
    rw [hnil] at hsuffix
    exact List.suffix_nil.mp hsuffix

/-- Calls move on, but none that is still to trim or to give an hour. -/
theorem Follows.mono {tasks' : List (Task F)} (h : Follows tasks sessionId l talk)
    (hstay : ∀ task ∈ tasks, task.sessionId = sessionId → task ∈ tasks') :
    Follows tasks' sessionId l talk where
  last := h.last
  deadline := h.deadline
  filled := h.filled
  trimmed := h.trimmed.imp_right fun hmem => hstay _ hmem rfl
  leased := h.leased.imp_right (Or.imp_right (Or.imp (fun hmem => hstay _ hmem rfl)
    fun hmem => hstay _ hmem rfl))

section Steps

variable {i : ℕ} {task : Task F} {c : Command} {now : ℚ}

/-- **A command of the session** does to the list what it does to the talk. -/
theorem Follows.command (h : Follows tasks task.sessionId l talk)
    (hthere : tasks[i]? = some task) (hcommand : task.stage.command = some c) :
    Follows (tasks.set i { task with stage := task.stage.next }) task.sessionId
      (c.execAt now l) (talk.after task.sessionId (task, now)) := by
  have hnow := h.at now
  have hmoved : { task with stage := task.stage.next } ∈
      tasks.set i { task with stage := task.stage.next } :=
    List.mem_of_getElem? (replaced_set hthere _).1
  have hstays : ∀ stage, stage ≠ task.stage → (⟨task.sessionId, stage⟩ : Task F) ∈ tasks →
      ⟨task.sessionId, stage⟩ ∈ tasks.set i { task with stage := task.stage.next } := by
    intro stage hne hmem
    exact mem_set hthere _ (fun hsame => hne (hsame ▸ rfl)) hmem
  rw [Talk.after, if_pos rfl, Command.execAt.eq_def]
  generalize l.at now = l at hnow ⊢
  generalize talk.at now = talk at hnow ⊢
  cases hstage : task.stage with
  | rpush turn =>
      rw [hstage] at hcommand hmoved
      obtain rfl := Option.some.inj hcommand
      constructor
      · rw [List.map_append]
        exact hnow.last.push (text turn)
      · exact hnow.deadline
      · simp
      · exact Or.inr hmoved
      · exact Or.inr (Or.inr (Or.inl hmoved))
  | ltrim =>
      rw [hstage] at hcommand hmoved
      obtain rfl := Option.some.inj hcommand
      have hrange : range l.items (-maxTurns) (-1) = l.items.rtake maxTurns :=
        range_last _ (by decide)
      have hshort : (l.items.rtake maxTurns).length ≤ maxTurns := by
        rw [length_rtake]
        exact min_le_left _ _
      dsimp only
      rw [hrange]
      by_cases hempty : l.items.rtake maxTurns = []
      · have hitems : l.items = [] := by
          have hlength := length_rtake maxTurns l.items
          rw [hempty, List.length_nil, maxTurns] at hlength
          exact List.length_eq_zero_iff.mp (by omega)
        have hturns := hnow.items_eq_nil_iff.mp hitems
        have htalk : talk = {} := by
          rcases talk with ⟨turns, expiresAt⟩
          obtain rfl : expiresAt = none := hnow.filled hturns
          obtain rfl : turns = [] := hturns
          rfl
        rw [if_pos hempty, htalk]
        exact follows_empty _ _
      · rw [if_neg hempty]
        exact ⟨hnow.last.trim, hnow.deadline, hnow.filled, Or.inl hshort,
          Or.inr (Or.inr (Or.inr hmoved))⟩
  | expire =>
      have hpending : l.items.length ≤ maxTurns ∨ ⟨task.sessionId, .ltrim⟩ ∈
          tasks.set i { task with stage := task.stage.next } :=
        hnow.trimmed.imp_right (hstays _ (by simp [hstage]))
      rw [hstage] at hcommand hpending
      obtain rfl := Option.some.inj hcommand
      dsimp only
      by_cases hempty : l.items = []
      · have hturns := hnow.items_eq_nil_iff.mp hempty
        rw [if_pos hempty, if_pos hturns]
        exact ⟨hnow.last, hnow.deadline, hnow.filled, hpending, Or.inl hturns⟩
      · have hturns := fun h => hempty (hnow.items_eq_nil_iff.mpr h)
        rw [if_neg hempty, if_neg hturns]
        exact ⟨hnow.last, rfl, fun h => absurd h hturns, hpending, Or.inr (Or.inl (by simp))⟩
  | delete =>
      rw [hstage] at hcommand
      obtain rfl := Option.some.inj hcommand
      exact follows_empty _ _
  | done =>
      rw [hstage] at hcommand
      cases hcommand

end Steps

namespace DatedState

variable {calls : List (String × Call F)} {events : List (Task F × ℚ)} {s : DatedState F}

/-- The list of each session follows its talk. -/
theorem follows_of_run (hrun : Run Step (start calls) events s) (sessionId : String) :
    Follows s.tasks sessionId (s.redis (key sessionId)) (talkOf sessionId events) := by
  induction hrun with
  | nil => exact follows_empty _ _
  | @snoc events e s s' _ hstep ih =>
      rw [talkOf_concat]
      cases hstep with
      | @command i task c now hthere hcommand =>
          by_cases hsession : task.sessionId = sessionId
          · subst hsession
            dsimp only
            rw [Function.update_self]
            exact ih.command hthere hcommand
          · have hother : key sessionId ≠ key task.sessionId :=
              key_injective.ne fun h => hsession h.symm
            dsimp only
            rw [Function.update_of_ne hother, Talk.after_ne hsession]
            exact ih.mono fun other hmem hsame =>
              mem_set hthere _ (fun heq => hsession (heq ▸ hsame)) hmem

/-- **A session lives an hour after its last command.**  When the calls are
done, in whatever order and at whatever times their commands came, the history
of a session is the last twenty turns of its talk.  So it is empty when more
than an hour has passed since the last `expire`; and if no command came later
than that, nor the reading, it is the last twenty turns pushed since the
session was cleared last. -/
theorem session_of_run (hrun : Run Step (start calls) events s)
    (hdone : ∀ task ∈ s.tasks, task.stage = .done) (sessionId : String) (now : ℚ)
    (created : F) :
    history s.redis sessionId now created =
        some (((talkOf sessionId events).at now).turns.rtake maxTurns) ∧
      ((∀ t ∈ lastExpire sessionId events, t + ttlSeconds < now) →
        history s.redis sessionId now created = some []) ∧
      (Brisk sessionId events → (∀ t ∈ lastExpire sessionId events, now ≤ t + ttlSeconds) →
        history s.redis sessionId now created =
          some ((sinceClear sessionId (events.map Prod.fst)).rtake maxTurns)) := by
  have hfollows := follows_of_run hrun sessionId
  have hpending : ∀ stage, stage ≠ .done → (⟨sessionId, stage⟩ : Task F) ∉ s.tasks :=
    fun stage hne hmem => hne (hdone _ hmem)
  have hhistory : history s.redis sessionId now created =
      some (((talkOf sessionId events).at now).turns.rtake maxTurns) := by
    have hnow := hfollows.at now
    have hshort := hnow.trimmed.resolve_right (hpending _ (by simp))
    have hitems : ((s.redis (key sessionId)).at now).items =
        (((talkOf sessionId events).at now).turns.rtake maxTurns).map text := by
      rw [hnow.last.eq_rtake hshort, List.rtake, List.rtake, List.map_drop, List.length_map]
    rw [history, range_all, hitems]
    exact mapM_text created _
  refine ⟨hhistory, fun hidle => ?_, fun hbrisk hsoon => ?_⟩
  · have hnone : ((talkOf sessionId events).at now).turns = [] := by
      rcases (talkOf sessionId events).at_cases now with ⟨hgone, -⟩ | ⟨hsame, hlater⟩
      · rw [hgone]
      · rw [hsame]
        rcases hfollows.leased with hturns | hleased | hltrim | hexpire
        · exact hturns
        · obtain ⟨d, hd⟩ := Option.ne_none_iff_exists'.mp hleased
          obtain ⟨-, t, ht, hdt⟩ := expiresAt_talkOf sessionId events d hd
          have hlt := hidle t ht
          have hle := hlater d hd
          linarith
        · exact absurd hltrim (hpending _ (by simp))
        · exact absurd hexpire (hpending _ (by simp))
    rw [hhistory, hnone]
    rfl
  · have hsame : (talkOf sessionId events).at now = talkOf sessionId events := by
      rcases (talkOf sessionId events).at_cases now with ⟨-, d, hd, hlt⟩ | ⟨hsame, -⟩
      · obtain ⟨-, t, ht, hdt⟩ := expiresAt_talkOf sessionId events d hd
        have hle := hsoon t ht
        linarith
      · exact hsame
    rw [hhistory, hsame, turns_talkOf hbrisk]

/-- A question is asked at the time 0. -/
def askedAtZero : List (Task WholeFloat × ℚ) :=
  [(⟨"s1", .rpush question⟩, 0), (⟨"s1", .ltrim⟩, 0), (⟨"s1", .expire⟩, 0)]

/-- It is remembered for an hour, and no longer. -/
theorem question_forgotten_after_hour :
    ∃ s, Run Step (start [("s1", .append question)]) askedAtZero s ∧
      history s.redis "s1" 3600 (⟨2⟩ : WholeFloat) = some [question] ∧
      history s.redis "s1" 3601 (⟨2⟩ : WholeFloat) = some [] := by
  have hnil : Run Step (start [("s1", .append question)]) [] _ := .nil
  have hrun : Run Step (start [("s1", .append question)]) askedAtZero _ :=
    ((hnil.snoc (.command (i := 0) rfl rfl)).snoc (.command (i := 0) rfl rfl)).snoc
      (.command (i := 0) rfl rfl)
  have hdone : ∀ task ∈ [(⟨"s1", .done⟩ : Task WholeFloat)], task.stage = .done := by simp
  have hlast : ∀ t ∈ lastExpire "s1" askedAtZero, t = 0 := by
    intro t ht
    exact (Option.some.inj ht).symm
  have hbrisk : Brisk "s1" askedAtZero :=
    brisk_of_within (by simp [askedAtZero, ttlSeconds])
  refine ⟨_, hrun, ?_, ?_⟩
  · refine (session_of_run hrun hdone "s1" 3600 ⟨2⟩).2.2 hbrisk fun t ht => ?_
    rw [hlast t ht, ttlSeconds]
    norm_num
  · refine (session_of_run hrun hdone "s1" 3601 ⟨2⟩).2.1 fun t ht => ?_
    rw [hlast t ht, ttlSeconds]
    norm_num

/-- A turn may go with a list whose time is over before it is given a new
hour. -/
example : ∃ s, Run Step (start [("s1", .append question), ("s1", .append answer)])
      (askedAtZero ++ [(⟨"s1", .rpush answer⟩, 3600), (⟨"s1", .ltrim⟩, 3601),
        (⟨"s1", .expire⟩, 3601)]) s ∧
    (history s.redis "s1" 3602 (⟨2⟩ : WholeFloat)).map List.length = some 0 := by
  have hnil : Run Step (start [("s1", .append question), ("s1", .append answer)]) [] _ := .nil
  have hasked : Run Step (start [("s1", .append question), ("s1", .append answer)])
      askedAtZero _ :=
    ((hnil.snoc (.command (i := 0) rfl rfl)).snoc (.command (i := 0) rfl rfl)).snoc
      (.command (i := 0) rfl rfl)
  have hanswered : Run Step (start [("s1", .append question), ("s1", .append answer)])
      (((askedAtZero ++ [(⟨"s1", .rpush answer⟩, 3600)]) ++ [(⟨"s1", .ltrim⟩, 3601)]) ++
        [(⟨"s1", .expire⟩, 3601)]) _ :=
    ((hasked.snoc (.command (i := 1) rfl rfl)).snoc (.command (i := 1) rfl rfl)).snoc
      (.command (i := 1) rfl rfl)
  exact ⟨_, hanswered, by decide +kernel⟩

end DatedState

end AgentMemory
