import AtlasMcp.ComponentRuns
import AtlasMcp.DispatchCounts

/-!
# Every dispatch ends

A dispatch in flight polls, starts its task, runs its tool and retries; it does each only so
often.  `Phase.movesLeft` says how often it can still move on, wherever it waits, if it has
come there in the course of a run (`Phase.Fits`): fewer polls than are allowed, and fewer
attempts.

So in every run the dispatches move on only so often for each that has arrived, whatever
their tools do and however they interleave, and none of them ever waits in vain
(`dispatches_end`).
-/

namespace Server

open PyJson PyText Errors Tools Auth Governance RateLimit Reliability Cache FallibleState
open GuardedRuns

variable {F : Type}

/-- The event moves a dispatch in flight on. -/
def Event.isMove : Event F → Bool
  | .ran .. | .woke .. | .interrupt .. => true
  | _ => false

/-- The attempts that a call may make; a destructive tool makes one. -/
def attempts (srv : AtlasServer F) : ℕ := max 1 srv.settings.retryMaxAttempts.toNat

namespace Phase

/-- How often a dispatch can still move on from where it waits. -/
def movesLeft (srv : AtlasServer F) : Phase F → ℕ
  | .polling waits => 2 * attempts srv + 2 + (CacheManager.stampedeMaxWaits - waits)
  | .starting _ => 2 * attempts srv + 2
  | .running a => 2 * (attempts srv - a.attempt) + 3
  | .backoff a => 2 * (attempts srv - a.attempt) + 2
  | .ending .. => 1

/-- Where a dispatch can wait: it polls for a key and has polls left, and it
waits for a retry only while attempts are left. -/
def Fits (srv : AtlasServer F) (f : Flight F) : Phase F → Prop
  | .polling waits => f.key.isSome ∧ waits < CacheManager.stampedeMaxWaits
  | .running a => 1 ≤ a.attempt ∧ (f.tool.metadata.destructive = false →
      (a.attempt : ℤ) ≤ srv.settings.retryMaxAttempts)
  | .backoff a => 1 ≤ a.attempt ∧ f.tool.metadata.destructive = false ∧
      (a.attempt : ℤ) < srv.settings.retryMaxAttempts
  | .starting _ | .ending .. => True

/-- A dispatch that is under way has a move left at least. -/
theorem movesLeft_pos (srv : AtlasServer F) (phase : Phase F) : 0 < phase.movesLeft srv := by
  cases phase <;> simp [movesLeft]

end Phase

/-- The most that a dispatch can move on: it polls, its task starts, and it is
resumed, and in between each attempt runs and each but the last is retried. -/
def mostMoves (srv : AtlasServer F) : ℕ :=
  2 * attempts srv + 2 + CacheManager.stampedeMaxWaits

/-- A dispatch that goes on to wait can wait there, and has so many moves left
at most. -/
def Progress.Within (srv : AtlasServer F) (f : Flight F) (n : ℕ) (next : Progress F) : Prop :=
  ∀ phase, next = .suspended phase → phase.Fits srv f ∧ phase.movesLeft srv ≤ n

section Moves

variable [PyFloat F] [UnicodeDb] {srv : AtlasServer F} {s : ServerState F} {f : Flight F}
  {now : ℚ} {n : ℕ}

omit [PyFloat F] [UnicodeDb] in
theorem within_ended (result : Except (Exc F) (Value F)) :
    (Progress.ended result).Within srv f n := by
  intro phase h
  cases h

omit [PyFloat F] [UnicodeDb] in
/-- A dispatch that is suspended is within a bound if its phase fits and has
no more moves left than that. -/
theorem within_suspended {phase : Phase F} (hfits : phase.Fits srv f)
    (hle : phase.movesLeft srv ≤ n) : (Progress.suspended phase).Within srv f n := by
  intro phase' h
  obtain rfl := Progress.suspended.inj h
  exact ⟨hfits, hle⟩

omit [PyFloat F] [UnicodeDb] in
/-- An attempt that ends leaves one more move at most. -/
theorem within_finishAttempt (a : Attempt) (outcome result : Except (Exc F) (ToolResult F))
    (hn : 1 ≤ n) : (finishAttempt srv s f a outcome result now).1.Within srv f n :=
  within_suspended trivial hn

omit [UnicodeDb] in
/-- Reading the cache leaves the bound, if what follows a miss does. -/
theorem within_readCache {key : String} {miss : ServerState F → Progress F × ServerState F}
    (hmiss : ∀ t, (miss t).1.Within srv f n) :
    (readCache srv s f key now miss).1.Within srv f n := by
  rcases readCache_flow srv s f key now miss with ⟨result, hend⟩ | ⟨t, ht⟩
  · rw [hend]
    exact within_ended result
  · rw [ht]
    exact hmiss t

omit [UnicodeDb] in
/-- A dispatch that has arrived can move on as often as any. -/
theorem within_runObserved : (runObserved srv s f now).1.Within srv f (mostMoves srv) := by
  unfold runObserved
  cases hkey : f.key with
  | none => exact within_suspended trivial (by simp [Phase.movesLeft, mostMoves])
  | some key =>
      apply within_readCache
      intro t
      simp only
      split
      · exact within_suspended trivial (by simp [Phase.movesLeft, mostMoves])
      · exact within_suspended ⟨by simp [hkey], by decide⟩ (le_refl _)

omit [PyFloat F] [UnicodeDb] in
theorem one_le_attempts (srv : AtlasServer F) : 1 ≤ attempts srv := le_max_left _ _

omit [PyFloat F] [UnicodeDb] in
/-- An attempt that is allowed is one of those that a call may make. -/
theorem le_attempts {k : ℕ} (h : (k : ℤ) ≤ srv.settings.retryMaxAttempts) : k ≤ attempts srv := by
  unfold attempts
  omega

omit [PyFloat F] in
/-- A call that starts leaves two moves for each of its attempts, and one
more. -/
theorem within_startCall (c : Budgeted) :
    (startCall srv s f c now).1.Within srv f (2 * attempts srv + 1) := by
  have hone := one_le_attempts srv
  rcases henter : (breakerFor srv s f.tool.metadata.name).enter now with ⟨admission, b⟩
  cases admission with
  | none =>
      simp only [startCall, henter]
      exact within_suspended trivial (by simp [Phase.movesLeft])
  | some admission =>
      simp only [startCall, henter]
      split
      next => exact within_finishAttempt _ _ _ (by omega)
      next hallowed =>
          apply within_suspended
          · refine ⟨le_refl _, fun hidempotent => ?_⟩
            have hpositive : ¬ srv.settings.retryMaxAttempts ≤ 0 :=
              fun hnone => hallowed ⟨by simp [hidempotent], hnone⟩
            simp only
            omega
          · simp only [Phase.movesLeft]
            omega

/-- **A move uses one up.**  A dispatch that waits where it can, and moves on,
has ended or can wait where it is, with fewer moves left. -/
theorem within_of_goesOn {t : System F} {i : ℕ} {phase : Phase F} {e : Event F}
    {next : Progress F × ServerState F} (h : GoesOn srv t i f phase e next)
    (hfits : phase.Fits srv f) : next.1.Within srv f (phase.movesLeft srv - 1) := by
  obtain ⟨-, ⟨a, outcome, now, rfl, rfl, rfl⟩ | ⟨now, rfl, hnext⟩ |
    ⟨timedOut, now, rfl, hnext⟩⟩ := h
  · obtain ⟨hfirst, hallowed⟩ := hfits
    unfold afterRun
    simp only
    split
    next hretries =>
        obtain ⟨hidempotent, hmore⟩ : f.tool.metadata.destructive = false ∧
            (a.attempt : ℤ) ≠ srv.settings.retryMaxAttempts := by
          unfold retries at hretries
          split at hretries
          · exact ⟨hretries.1, hretries.2.2⟩
          · exact hretries.elim
        have hle := hallowed hidempotent
        refine within_suspended ⟨hfirst, hidempotent, by omega⟩ ?_
        simp only [Phase.movesLeft]
        omega
    next => exact within_finishAttempt _ _ _ (by simp only [Phase.movesLeft]; omega)
  · cases phase with
    | running a => simp [afterSleep] at hnext
    | ending c result =>
        obtain rfl := Option.some.inj hnext
        rw [resume_progress]
        exact within_ended _
    | starting c =>
        obtain rfl := Option.some.inj hnext
        exact within_startCall c
    | backoff a =>
        obtain rfl := Option.some.inj hnext
        obtain ⟨hfirst, -, hmore⟩ := hfits
        have hle : a.attempt + 1 ≤ attempts srv := le_attempts (by omega)
        refine within_suspended ⟨by simp, fun _ => by simp only; omega⟩ ?_
        simp only [Phase.movesLeft]
        omega
    | polling waits =>
        obtain ⟨key, hkey, rfl⟩ := Option.map_eq_some_iff.mp hnext
        obtain ⟨-, hpolls⟩ := hfits
        apply within_readCache
        intro t
        split
        next hmore =>
            refine within_suspended ⟨by simp [hkey], hmore⟩ ?_
            simp only [Phase.movesLeft]
            omega
        next =>
            refine within_suspended trivial ?_
            simp only [Phase.movesLeft]
            omega
  · cases phase with
    | ending c result => simp [afterInterrupt] at hnext
    | starting c =>
        obtain rfl := Option.some.inj hnext
        refine within_suspended trivial ?_
        simp only [Phase.movesLeft]
        omega
    | running a =>
        obtain rfl := Option.some.inj hnext
        exact within_finishAttempt _ _ _ (by simp only [Phase.movesLeft]; omega)
    | backoff a =>
        obtain rfl := Option.some.inj hnext
        exact within_finishAttempt _ _ _ (by simp only [Phase.movesLeft]; omega)
    | polling waits =>
        obtain rfl := eq_of_afterInterrupt_polling hnext
        exact within_ended _

namespace System

/-- A quantity of the dispatches in flight, summed up. -/
def total (g : Phase F → ℕ) (t : System F) : ℕ :=
  (t.inFlight.map fun x => g x.2).sum

/-- Where the dispatch waited that moves on, if it did. -/
def phaseAt (t : System F) (place : Option ℕ) : Option (Phase F) :=
  place.bind fun i => t.inFlight[i]?.map Prod.snd

/-- How often the dispatches in flight can still move on. -/
def movesLeft (srv : AtlasServer F) (t : System F) : ℕ := t.total (Phase.movesLeft srv)

/-- Every dispatch in flight waits where it can. -/
def Fits (srv : AtlasServer F) (t : System F) : Prop :=
  ∀ f phase, (f, phase) ∈ t.inFlight → phase.Fits srv f

variable {t u : System F} {e : Event F}

omit [PyFloat F] [UnicodeDb] in
theorem movesLeft_eq_zero (h : t.movesLeft srv = 0) : t.inFlight = [] := by
  apply List.eq_nil_iff_forall_not_mem.mpr
  intro x hx
  have hzero : ∀ n ∈ t.inFlight.map (fun x => x.2.movesLeft srv), n = 0 :=
    List.sum_eq_zero_iff.mp h
  have hpos := x.2.movesLeft_pos srv
  have hx := hzero _ (List.mem_map_of_mem hx)
  omega

/-- A move changes a total by what it takes the dispatch from and to. -/
theorem total_step (g : Phase F → ℕ) (h : t.Step srv e u) {m : Move F}
    (hm : t.moved srv e = some m) :
    u.total g + (t.phaseAt m.place).elim 0 g = t.total g + m.next.1.phase?.elim 0 g := by
  have hflight := (step_of_moved h hm).1
  have hnext : ((m.next.1.phase?.map fun phase => (m.flight, phase)).toList.map
      fun x => g x.2).sum = m.next.1.phase?.elim 0 g := by
    cases m.next.1.phase? <;> simp
  rcases moved_cases hm with ⟨hplace, -⟩ | ⟨i, phase, hplace, hgoes⟩
  · simp only [total, hflight, hplace, phaseAt, leftBy, List.map_append, List.sum_append, hnext,
      Option.bind_none, Option.elim_none]
    omega
  · obtain ⟨hlt, hget⟩ := List.getElem?_eq_some_iff.mp hgoes.1
    have hperm := ((List.getElem_cons_eraseIdx_perm hlt).map fun x => g x.2).sum_eq
    rw [hget, List.map_cons, List.sum_cons] at hperm
    dsimp only at hperm
    simp only [total, hflight, hplace, phaseAt, leftBy, List.map_append, List.sum_append, hnext,
      Option.bind_some, hgoes.1, Option.map_some, Option.elim_some]
    omega

omit [PyFloat F] [UnicodeDb] in
/-- Where a dispatch goes on to wait, it can wait. -/
theorem fits_advanced {m : Move F}
    (hu : u.inFlight = leftBy t.inFlight m.place ++
      (m.next.1.phase?.map fun phase => (m.flight, phase)).toList)
    (ht : t.Fits srv) (hnext : m.next.1.Within srv m.flight n) : u.Fits srv := by
  intro f phase hmem
  rw [hu] at hmem
  rcases List.mem_append.mp hmem with hmem | hmem
  · exact ht _ _ (Ledger.mem_of_mem_leftBy hmem)
  · cases hprogress : m.next.1 with
    | ended result => simp [hprogress, Progress.phase?] at hmem
    | suspended phase' =>
        obtain ⟨rfl, rfl⟩ : f = m.flight ∧ phase = phase' := by
          simpa [hprogress, Progress.phase?] using hmem
        exact (hnext phase hprogress).1

omit [PyFloat F] [UnicodeDb] in
/-- The moves that are left are within the bound of the progress. -/
theorem le_of_within {next : Progress F} (h : next.Within srv f n) :
    next.phase?.elim 0 (Phase.movesLeft srv) ≤ n := by
  cases next with
  | suspended phase => exact (h phase rfl).2
  | ended result => exact Nat.zero_le n

/-- An event that moves on a dispatch does so. -/
theorem moved_of_isMove (h : t.Step srv e u) (he : e.isMove = true) :
    ∃ m, t.moved srv e = some m := by
  cases e with
  | ran i outcome now =>
      obtain ⟨f, a, hi, -⟩ := step_ran h
      exact ⟨_, moved_of_ran hi⟩
  | woke i now =>
      obtain ⟨f, phase, next, hi, hnext, -⟩ := step_woke h
      exact ⟨_, moved_of_woke hi hnext⟩
  | interrupt i timedOut now =>
      obtain ⟨f, phase, next, hi, hnext, -⟩ := step_interrupt h
      exact ⟨_, moved_of_interrupt hi hnext⟩
  | _ => cases he

/-- **What an event uses up.**  A move uses up one of those left, a dispatch
that arrives brings as many as it can make, and nothing else brings any. -/
theorem movesLeft_step (ht : t.Fits srv) (h : t.Step srv e u) :
    u.Fits srv ∧ e.isMove.toNat + u.movesLeft srv ≤
      t.movesLeft srv + mostMoves srv * e.isDispatch.toNat := by
  rcases step_moved h with ⟨hnone, hflight, -⟩ | ⟨m, hm, hflight, -⟩
  · have hidle : e.isMove = false := by
      rw [← Bool.not_eq_true]
      intro he
      obtain ⟨m, hm⟩ := moved_of_isMove h he
      rw [hnone] at hm
      cases hm
    simp only [Fits, movesLeft, total, hflight, hidle, Bool.toNat_false]
    exact ⟨ht, by omega⟩
  · have htotal : u.movesLeft srv + (t.phaseAt m.place).elim 0 (Phase.movesLeft srv) =
        t.movesLeft srv + m.next.1.phase?.elim 0 (Phase.movesLeft srv) :=
      total_step (Phase.movesLeft srv) h hm
    rcases moved_cases hm with ⟨hplace, s, ⟨ctx, env, clock, tool, args, rfl, -, -⟩, hnext⟩ |
      ⟨i, phase, hplace, hgoes⟩
    · have hwithin : m.next.1.Within srv m.flight (mostMoves srv) := by
        rw [hnext]
        exact within_runObserved
      refine ⟨fits_advanced hflight ht hwithin, ?_⟩
      have hle := le_of_within hwithin
      simp only [hplace, phaseAt, Option.bind_none, Option.elim_none] at htotal
      simp only [Event.isMove, Event.isDispatch, Bool.toNat_false, Bool.toNat_true]
      omega
    · have hwithin := within_of_goesOn hgoes (ht _ _ (List.mem_of_getElem? hgoes.1))
      refine ⟨fits_advanced hflight ht hwithin, ?_⟩
      have hle := le_of_within hwithin
      -- the dispatch had at least one move left
      have hpos := phase.movesLeft_pos srv
      have hmove : e.isMove.toNat ≤ 1 := Bool.toNat_le _
      simp only [hplace, phaseAt, Option.bind_some, hgoes.1, Option.map_some,
        Option.elim_some] at htotal
      omega

/-- The event is the end of a tool or of a wait; nothing is interrupted.  With
such events alone a server can be drained. -/
def Undisturbed (e : Event F) : Prop :=
  ∃ i now, e = .woke i now ∨ ∃ outcome, e = .ran i outcome now

/-- **None waits in vain.**  A dispatch that waits where it can is moved on by
the end of its wait, or of its tool, at any time and with any outcome. -/
theorem can_move (ht : t.Fits srv) {i : ℕ} (hi : i < t.inFlight.length) (now : ℚ) :
    (∃ u, t.Step srv (.woke i now) u) ∨ ∀ outcome, ∃ u, t.Step srv (.ran i outcome now) u := by
  have hget : t.inFlight[i]? = some (t.inFlight[i].1, t.inFlight[i].2) :=
    List.getElem?_eq_getElem hi
  have hfits := ht _ _ (List.mem_of_getElem? hget)
  have hwakes : ∀ next, afterSleep srv t.server t.inFlight[i].1 now t.inFlight[i].2 = some next →
      ∃ u, t.Step srv (.woke i now) u := by
    intro next hnext
    exact ⟨(t.without i).advance t.inFlight[i].1 next, by simp [Step, step, hget, hnext]⟩
  cases hphase : t.inFlight[i].2 with
  | running a =>
      right
      intro outcome
      rw [hphase] at hget
      exact ⟨_, by simp only [Step, step, hget]; rfl⟩
  | polling waits =>
      rw [hphase] at hfits hwakes
      obtain ⟨key, hkey⟩ := Option.isSome_iff_exists.mp hfits.1
      exact Or.inl (hwakes _ (by simp only [afterSleep, hkey]; rfl))
  | starting c | backoff a | ending c result =>
      rw [hphase] at hwakes
      exact Or.inl (hwakes _ rfl)

/-- What is in flight can move on, and has less left then. -/
theorem exists_move (ht : t.Fits srv) (hleft : t.movesLeft srv ≠ 0) :
    ∃ e u, Undisturbed e ∧ t.Step srv e u ∧ u.Fits srv ∧ u.movesLeft srv < t.movesLeft srv := by
  have hflight : 0 < t.inFlight.length := by
    apply Nat.pos_of_ne_zero
    intro hnone
    rw [List.length_eq_zero_iff] at hnone
    exact hleft (by simp [movesLeft, total, hnone])
  have hless : ∀ {e u}, t.Step srv e u → e.isMove = true → e.isDispatch = false →
      u.Fits srv ∧ u.movesLeft srv < t.movesLeft srv := by
    intro e u hstep hmove harrival
    obtain ⟨hu, hle⟩ := movesLeft_step ht hstep
    simp only [hmove, harrival, Bool.toNat_true, Bool.toNat_false] at hle
    exact ⟨hu, by omega⟩
  rcases can_move ht hflight 0 with ⟨u, hu⟩ | hran
  · exact ⟨_, u, ⟨0, 0, Or.inl rfl⟩, hu, hless hu rfl rfl⟩
  · obtain ⟨u, hu⟩ := hran (.error .cancelled)
    exact ⟨_, u, ⟨0, 0, Or.inr ⟨_, rfl⟩⟩, hu, hless hu rfl rfl⟩

omit [PyFloat F] [UnicodeDb] in
/-- At the start nothing is under way, so everything fits. -/
theorem fits_start (srv : AtlasServer F) (s : ServerState F) :
    Fits srv ({ server := s } : System F) := by
  intro f phase hmem
  simp at hmem

/-- **Every dispatch ends.**  In every run, whatever the tools do: the moves
of dispatches in flight, with those they have left, are no more than
`mostMoves` for each dispatch that arrived; every dispatch in flight is moved
on by the end of its wait or of its tool; and the server can be drained,
without another dispatch and without an interruption. -/
theorem dispatches_end (srv : AtlasServer F) (s : ServerState F) (events : List (Event F))
    (t : System F) (hrun : Run (Step srv) { server := s } events t) :
    events.countP Event.isMove + t.movesLeft srv ≤
        mostMoves srv * events.countP Event.isDispatch ∧
      (∀ i < t.inFlight.length, ∀ now, (∃ u, t.Step srv (.woke i now) u) ∨
        ∀ outcome, ∃ u, t.Step srv (.ran i outcome now) u) ∧
      ∃ more u, Run (Step srv) t more u ∧ (∀ e ∈ more, Undisturbed e) ∧
        more.length ≤ t.movesLeft srv ∧ u.inFlight = [] := by
  have hkeep : ∀ (t : System F) (e : Event F) (u : System F), t.Fits srv → t.Step srv e u →
      u.Fits srv := fun t e u ht hstep => (movesLeft_step ht hstep).1
  have ht : t.Fits srv := hrun.invariant (fits_start srv s) hkeep
  refine ⟨?_, fun i hi now => can_move ht hi now, ?_⟩
  · have hspent := Run.spent_le (fits_start srv s) hkeep
      (fun t e u ht hstep => (movesLeft_step ht hstep).2) hrun
    simpa [movesLeft, total] using hspent
  · obtain ⟨more, u, hmore, hquiet, hlength, -, hdone⟩ :=
      exists_spent (I := Fits srv) (fun t ht hleft => exists_move ht hleft) ht
    exact ⟨more, u, hmore, hquiet, hlength, movesLeft_eq_zero hdone⟩

end System

end Moves

/-- Two pings of a server that retries twice: both are in flight, the first
after a failure. -/
def pingedTwice : List (Event WholeFloat) :=
  let ping := pingContext.buildEnvelope "server.ping" []
  [.dispatch pingContext ping ⟨0, 0, ""⟩, .dispatch pingContext ping ⟨0, 0, ""⟩, .woke 0 0,
    .ran 1 (.error (.tool { cls := .upstreamError, code := "down", retryable := true })) 1]

theorem pings_end : ∃ t,
    Run (System.Step pingServer) { server := pingServer.initial } pingedTwice t ∧
    t.inFlight.length = 2 ∧
    ∃ more u, Run (System.Step pingServer) t more u ∧ (∀ e ∈ more, System.Undisturbed e) ∧
      more.length ≤ t.movesLeft pingServer ∧ u.inFlight = [] := by
  obtain ⟨t, ht, hlength⟩ : ∃ t ∈ exec (System.step pingServer) { server := pingServer.initial }
      pingedTwice, t.inFlight.length = 2 := by decide +kernel
  have hrun := Run.of_exec ht
  exact ⟨t, hrun, hlength, (System.dispatches_end pingServer pingServer.initial _ t hrun).2.2⟩

end Server
