import AtlasMcp.ApprovedCalls
import AtlasMcp.CachedValues
import AtlasMcp.ObjectStore

/-!
# Reading what was written

Once a put has returned, a get of the object is to return its content, until the next put
comes.  A put leaves the cache alone, and a get is answered from the cache first: it
returns what a get before the put has read, as long as the cache has it.

`reads_back_of_fresh_hits` says that there is nothing else: while no get of an object
written finds in the cache what was read before the put, gets return what was written.
-/

namespace Server

open PyJson PyText Errors Tools Auth Governance RateLimit Reliability Cache FallibleState
open GuardedRuns

variable {F : Type} [PyFloat F]

section Tools

variable [UnicodeDb]

/-- A put that arrives is one of the tool: it does not use the cache, and
stores the content it is given, but for the white space around it. -/
theorem put_of_arrives {tools : S3Tools F} {srv : AtlasServer F}
    (hput : srv.registry.tools.lookup "s3.put_object" = some tools.putTool)
    {s s' : ServerState F} {e : Event F} {f : Flight F} (h : Arrives srv s e f s')
    (hf : f.IsPut) : f.key = none ∧ (stripText (f.argument "content") = f.argument "content" →
      textField f.args "content" = f.argument "content") := by
  obtain ⟨ctx, env, clock, tool, args, rfl, hgates, rfl⟩ := h
  have hadmitted := admitted_of_gates hgates
  obtain ⟨hlookup, hname⟩ := ToolRegistry.lookup_of_get hadmitted.registered
  have hname' : env.tool = "s3.put_object" := hname.symm.trans hf
  obtain rfl : tools.putTool = tool := by
    rw [hname', hput] at hlookup
    exact Option.some.inj hlookup
  refine ⟨by simp [flightOf, S3Tools.putTool], ?_⟩
  have hvalidated := hadmitted.validated
  unfold Tool.validate at hvalidated
  split at hvalidated
  next => cases hvalidated
  next =>
      split at hvalidated
      next args' hinput =>
          obtain rfl := Except.ok.inj hvalidated
          obtain ⟨content, stripped, hargument, hfield, hstrip⟩ :=
            tools.put_content env.arguments args' hinput
          simpa [flightOf, Flight.argument, textField, hargument, hfield, pyStrValue]
            using hstrip
      next => cases hvalidated
      next => cases hvalidated

end Tools

/-- The text a dictionary has under the name. -/
def textAt (v : Value F) (name : String) : Option String :=
  match v with
  | .dict members =>
      match dictGet members name with
      | some (.str text) => some text
      | _ => none
  | _ => none

namespace Session

variable [UnicodeDb]

/-- A get that returns does so with the content of the last put of the object,
if that has returned, the content is not empty and has no white space around
it, and all its bytes are asked for. -/
def ReadsBack (srv : AtlasServer F) (s : Session F) (h : Happening F) (_ : Session F) : Prop :=
  ∀ a ∈ s.returned srv h, a.1.IsGet → ∀ content ∈ s.written a.1.objectKey,
    content ≠ "" ∧ stripText content = content ∧
      (utf8 content).length ≤ maxBytes a.1.args → textAt a.2 "content" = some content

/-- A get of an object whose last put has returned finds no value in the
cache, but one with which a get of as many bytes of the object filled it after
that put came. -/
def FreshHits (srv : AtlasServer F) (s : Session F) (h : Happening F) (_ : Session F) : Prop :=
  ∀ r ∈ s.reads srv h, r.1.IsGet → (s.written r.1.objectKey).isSome = true →
    s.system.server.cache.Stored r.2.1 r.2.2 →
      ∃ g ∈ s.filled r.2.1, g.objectKey = r.1.objectKey ∧ maxBytes g.args = maxBytes r.1.args

instance (srv : AtlasServer F) (s t : Session F) (h : Happening F) :
    Decidable (ReadsBack srv s h t) :=
  inferInstanceAs (Decidable (∀ a ∈ _, _ → ∀ content ∈ _, _ ∧ _ ∧ _ → _ = _))

instance (srv : AtlasServer F) (s t : Session F) (h : Happening F) :
    Decidable (FreshHits srv s h t) :=
  inferInstanceAs (Decidable (∀ r ∈ _, _ → _ → _ → ∃ g ∈ _, _ = _ ∧ _ = _))

/-- The value under a key is what a get that filled it since the last put has
read. -/
def Current (s : Session F) (key : String) (v : Value F) : Prop :=
  ∀ g ∈ s.filled key, ∃ body, s.objects g.objectKey = some body ∧
    textAt v "content" = some (Utf8.decodeReplace (body.take (maxBytes g.args)))

/-- While a put is in flight, nothing is known of its object.  What a dispatch
has returned from its run is what the store has. -/
structure InHand (s : Session F) (f : Flight F) (phase : Phase F) : Prop where
  put : f.IsPut → f.key = none ∧ s.written f.objectKey = none ∧
    (∀ key, ∀ g ∈ s.filled key, g.objectKey ≠ f.objectKey) ∧
    (stripText (f.argument "content") = f.argument "content" →
      textField f.args "content" = f.argument "content")
  stored : f.IsPut → ∀ c r, phase = .ending c (.ok r) →
    s.objects f.objectKey = some (S3PutTool.payload f.args)
  got : f.IsGet → ∀ c r, phase = .ending c (.ok r) → ∃ body,
    s.objects f.objectKey = some body ∧
      r = S3GetTool.resultOf (textField f.args "key") (body.take (maxBytes f.args))

/-- What each step keeps. -/
structure Tracked (s : Session F) : Prop where
  alone : s.system.inFlight.length ≤ 1
  written : ∀ key content, s.written key = some content → stripText content = content →
    s.objects key = some (utf8 content)
  values : s.system.server.cache.Values s.Current
  inHand : ∀ w ∈ s.system.inFlight, s.InHand w.1 w.2

/-- At the start nothing was written and nothing is cached, so there is
nothing that could be old. -/
theorem tracked_start (s : ServerState F) (objects : String → Option (List ℕ)) :
    (start s objects).Tracked where
  alone := Nat.zero_le 1
  written key content h := by cases h
  values := by
    have hcurrent : ∀ key v, (start s objects).Current key v := fun key v g hg => by cases hg
    exact ⟨fun _ _ _ => hcurrent _ _, fun _ _ _ _ _ => hcurrent _ _⟩
  inHand w h := by cases h

omit [UnicodeDb] in
/-- A result of a get is cached as it is. -/
theorem loads_resultOf {key : String} {body : List ℕ} {w : Value F}
    (h : loads (dumps (.dict (S3GetTool.resultOf (F := F) key body).val)) = some w) :
    w = .dict (S3GetTool.resultOf (F := F) key body).val := by
  have hloads := loads_dumps (S3GetTool.resultOf (F := F) key body).property
  rw [Value.jsonify_of_native _ (by simp [S3GetTool.resultOf, Value.Native,
    Value.NativeMembers])] at hloads
  exact Option.some.inj (h.symm.trans hloads)

variable {tools : S3Tools F} {srv : AtlasServer F} {s t : Session F} {hp : Happening F}

/-- What a happening does: it is an event of the server, the objects change as
it says, and it is noted what was written and what was put into the cache, if
a dispatch has moved. -/
theorem step_cases (h : s.Step srv hp t) : ∃ e, s.toEvent hp = some e ∧
    s.system.Step srv e t.system ∧ t.objects = s.objectsAfter hp ∧
    ((s.system.moved srv e = none ∧ t.written = s.written ∧ t.filled = s.filled) ∨
      ∃ m, s.system.moved srv e = some m ∧ t.written = (s.note m).written ∧
        t.filled = (s.note m).filled) := by
  obtain ⟨e, he, hrest⟩ := Option.bind_eq_some_iff.mp h
  obtain ⟨system, hsystem, ht⟩ := Option.bind_eq_some_iff.mp hrest
  obtain rfl := Option.some.inj ht
  refine ⟨e, he, hsystem, rfl, ?_⟩
  cases hmoved : s.system.moved srv e with
  | none => exact Or.inl ⟨rfl, rfl, rfl⟩
  | some m => exact Or.inr ⟨m, rfl, rfl, rfl⟩

omit [PyFloat F] [UnicodeDb] in
/-- A happening is a put of a flight if that flight is a put whose tool is
running. -/
theorem putAt_some {i : ℕ} {f : Flight F} (h : s.putAt i = some f) :
    f.IsPut ∧ ∃ a, s.system.inFlight[i]? = some (f, .running a) := by
  unfold putAt at h
  split at h
  next g a hi =>
      split at h
      next hput =>
          obtain rfl := Option.some.inj h
          exact ⟨hput, a, hi⟩
      next => cases h
  next => cases h

/-- A put whose call is back is the dispatch that moves. -/
theorem moved_of_back (srv : AtlasServer F) {i : ℕ} {f : Flight F} {a : Attempt}
    {got stored : Except (Exc F) (ToolResult F)} {now : ℚ} {e : Event F}
    (hi : s.system.inFlight[i]? = some (f, .running a))
    (he : (if f.IsGet then some (.ran i got now) else
      if f.IsPut then some (.ran i stored now) else none) = some e) :
    ∃ m, s.system.moved srv e = some m ∧ m.place = some i := by
  split at he
  · obtain rfl := Option.some.inj he
    exact ⟨_, System.moved_of_ran hi, rfl⟩
  · split at he
    · obtain rfl := Option.some.inj he
      exact ⟨_, System.moved_of_ran hi, rfl⟩
    · cases he

/-- A put that reaches the store is the dispatch that moves, and its tool
runs. -/
theorem moved_of_landed (srv : AtlasServer F) {f : Flight F} (h : s.landed hp = some f)
    {e : Event F} (he : s.toEvent hp = some e) : f.IsPut ∧ ∃ (i : ℕ) (a : Attempt) (m : Move F),
      s.system.inFlight[i]? = some (f, .running a) ∧ s.system.moved srv e = some m ∧
        m.place = some i := by
  cases hp with
  | answered i now =>
      obtain ⟨hput, a, hi⟩ := putAt_some h
      simp only [toEvent, hi] at he
      obtain ⟨m, hm, hplace⟩ := moved_of_back srv hi he
      exact ⟨hput, i, a, m, hi, hm, hplace⟩
  | failed i failure now lands =>
      cases lands with
      | false => simp [landed] at h
      | true =>
          obtain ⟨hput, a, hi⟩ := putAt_some h
          simp only [toEvent, hi] at he
          obtain ⟨m, hm, hplace⟩ := moved_of_back srv hi he
          exact ⟨hput, i, a, m, hi, hm, hplace⟩
  | event e' lands =>
      cases e' with
      | interrupt i timedOut now =>
          cases lands with
          | false => simp [landed] at h
          | true =>
              obtain ⟨hput, a, hi⟩ := putAt_some h
              obtain rfl := Option.some.inj he
              exact ⟨hput, i, a, _, hi, System.moved_of_interrupt hi rfl, rfl⟩
      | _ => cases h

/-- What a run of the tools returns comes from the store: a put has reached
it, and a get has read it. -/
theorem store_of_ran {i : ℕ} {r : ToolResult F} {now : ℚ}
    (he : s.toEvent hp = some (.ran i (.ok r) now)) {f : Flight F} {a : Attempt}
    (hi : s.system.inFlight[i]? = some (f, .running a)) :
    (f.IsPut → s.landed hp = some f) ∧
      (f.IsGet → ∃ body, s.objects f.objectKey = some body ∧
        r = S3GetTool.resultOf (textField f.args "key") (body.take (maxBytes f.args))) := by
  have hat : ∀ (j : ℕ) (g : Flight F) (b : Attempt), j = i →
      s.system.inFlight[j]? = some (g, .running b) → g = f := by
    intro j g b hji hj
    rw [hji, hi] at hj
    injection hj with hpair
    exact (congrArg Prod.fst hpair).symm
  cases hp with
  | answered j now' =>
      simp only [toEvent] at he
      split at he
      next g b hj =>
          split at he
          next hget =>
              obtain ⟨hji, hrun, rfl⟩ : j = i ∧ S3GetTool.run g.args (s.read g) = .ok r ∧
                  now' = now := by simpa using he
              obtain rfl := hat j g b hji hj
              refine ⟨fun hput => ?_, fun _ => ?_⟩
              · rw [Flight.IsPut, hget] at hput
                exact absurd hput (by decide)
              · unfold read at hrun
                cases hobject : s.objects g.objectKey with
                | none => simp [hobject, S3GetTool.run] at hrun
                | some body =>
                    simp only [hobject, S3GetTool.run, Except.ok.injEq] at hrun
                    exact ⟨body, rfl, hrun.symm⟩
          next hnot =>
              split at he
              next hput =>
                  obtain ⟨hji, -, -⟩ : j = i ∧ S3PutTool.run g.args (.ok ()) = .ok r ∧
                      now' = now := by simpa using he
                  obtain rfl := hat j g b hji hj
                  exact ⟨fun _ => by simp [landed, putAt, hj, hput], fun hget => absurd hget hnot⟩
              next => cases he
      next => cases he
  | failed j failure now' lands =>
      simp only [toEvent] at he
      split at he
      next g b hj =>
          split at he
          next => simp [S3GetTool.run] at he
          next =>
              split at he
              next => simp [S3PutTool.run] at he
              next => cases he
      next => cases he
  | event e' lands =>
      cases e' with
      | ran j outcome now' =>
          simp only [toEvent] at he
          split at he
          next g b hj =>
              split at he
              next => cases he
              next hneither =>
                  obtain ⟨hji, -, -⟩ : j = i ∧ outcome = .ok r ∧ now' = now := by simpa using he
                  obtain rfl := hat j g b hji hj
                  exact ⟨fun hput => absurd (Or.inr hput) hneither,
                    fun hget => absurd (Or.inl hget) hneither⟩
          next => cases he
      | dispatch ctx env clock =>
          simp only [toEvent] at he
          split at he <;> cases he
      | _ => cases he

/-- The value that a get of the object has read as it is has the content last
written. -/
theorem content_of_read (hs : s.Tracked) {key content : String} {n : ℕ} {v : Value F}
    (hread : ∃ body, s.objects key = some body ∧
      textAt v "content" = some (Utf8.decodeReplace (body.take n)))
    (hwritten : s.written key = some content) (hstrip : stripText content = content)
    (hsize : (utf8 content).length ≤ n) : textAt v "content" = some content := by
  obtain ⟨body, hobject, hcontent⟩ := hread
  obtain rfl : utf8 content = body :=
    Option.some.inj ((hs.written key content hwritten hstrip).symm.trans hobject)
  rw [hcontent, List.take_of_length_le hsize]
  exact congrArg some (Utf8.decodeReplace_encode content)

/-- What is found in the cache was read since the last put. -/
theorem readsBack_of_tracked (hs : s.Tracked) (hfresh : FreshHits srv s hp t) :
    ReadsBack srv s hp t := by
  intro a ha hget content hwritten hcontent
  obtain ⟨-, hstrip, hsize⟩ := hcontent
  obtain ⟨e, he, ha⟩ := Option.bind_eq_some_iff.mp ha
  obtain ⟨m, hm, ha⟩ := Option.bind_eq_some_iff.mp ha
  split at ha
  next v hv =>
      obtain rfl := Option.some.inj ha
      refine content_of_read hs ?_ hwritten hstrip hsize
      have hsome : (s.written m.flight.objectKey).isSome = true :=
        Option.isSome_iff_exists.mpr ⟨content, hwritten⟩
      -- a value of the cache was read by a get that filled it since the put
      have hhit : ∀ key now, s.reads srv hp = some (m.flight, key, now) →
          s.system.server.cache.Stored key now → s.Current key v → ∃ body,
            s.objects m.flight.objectKey = some body ∧
              textAt v "content" =
                some (Utf8.decodeReplace (body.take (maxBytes m.flight.args))) := by
        intro key now hreads hstored hcurrent
        obtain ⟨g, hg, hobject, hbytes⟩ := hfresh _ hreads hget hsome hstored
        rw [← hobject, ← hbytes]
        exact hcurrent g hg
      rcases System.moved_cases hm with ⟨hplace, s', harrives, hnext⟩ | ⟨i, phase, hplace, hgoes⟩
      · have hcache : s'.cache = s.system.server.cache := by
          obtain ⟨ctx, env, clock, tool, args, -, hgates, -⟩ := harrives
          exact cache_of_gates hgates
        obtain ⟨key, hkey, hstored, hcurrent⟩ :=
          (values_runObserved (hcache ▸ hs.values)).2 v (hnext ▸ hv)
        apply hhit key _ _ (hcache ▸ hstored) hcurrent
        simp only [reads, he, hm, hkey, hplace, Option.bind_eq_bind, Option.bind_some]
      · rcases (values_goesOn (Q := fun _ _ => True) hs.values hgoes (fun _ _ _ _ => trivial)
            (fun _ _ _ _ _ => ⟨trivial, fun _ _ => trivial⟩)).2 v hv with
          ⟨c, r, hphase, rfl⟩ | ⟨waits, key, now, rfl, hphase, hkey, hstored, hcurrent⟩
        · obtain ⟨body, hobject, rfl⟩ :=
            (hs.inHand _ (List.mem_of_getElem? hgoes.1)).got hget c r hphase
          exact ⟨body, hobject, rfl⟩
        · apply hhit key now _ hstored hcurrent
          have hi := hgoes.1
          rw [hphase] at hi
          simp only [reads, he, hm, hkey, hplace, hi, Option.bind_eq_bind, Option.bind_some]
  next => cases ha

/-- What is known of a dispatch in flight does not depend on the server. -/
theorem InHand.of_eq {f : Flight F} {phase : Phase F} (h : s.InHand f phase)
    (hobjects : t.objects = s.objects) (hwritten : t.written = s.written)
    (hfilled : t.filled = s.filled) : t.InHand f phase := by
  constructor
  · rw [hwritten, hfilled]
    exact h.put
  · rw [hobjects]
    exact h.stored
  · rw [hobjects]
    exact h.got

/-- What is current depends on the objects and on what was put into the cache
only. -/
theorem current_eq (hobjects : t.objects = s.objects) (hfilled : t.filled = s.filled) :
    t.Current = s.Current := by
  funext key v
  simp only [Current, hobjects, hfilled]

omit [PyFloat F] in
/-- Dispatches come one after the other. -/
theorem alone_of_dispatch [PyFloat F] {ctx : RequestContext} {env : ToolCallEnvelope F}
    {clock : Clock} (he : s.toEvent hp = some (.dispatch ctx env clock)) :
    s.system.inFlight = [] := by
  cases hp with
  | answered i now | failed i failure now lands =>
      simp only [toEvent] at he
      split at he
      next =>
          split at he
          next => cases he
          next => split at he <;> cases he
      next => cases he
  | event e' lands =>
      cases e' with
      | dispatch ctx' env' clock' =>
          simp only [toEvent] at he
          split at he
          next hempty => exact hempty
          next => cases he
      | ran i outcome now =>
          simp only [toEvent] at he
          split at he
          next => split at he <;> cases he
          next => cases he
      | _ => cases he

/-- A session is kept track of where no dispatch moves. -/
theorem tracked_of_not_moved (hs : s.Tracked) {e : Event F}
    (hstep : s.system.Step srv e t.system) (hm : s.system.moved srv e = none)
    (hobjects : t.objects = s.objects) (hwritten : t.written = s.written)
    (hfilled : t.filled = s.filled) : t.Tracked := by
  have hinFlight := (System.step_of_not_moved hstep hm).1
  refine ⟨hinFlight ▸ hs.alone, ?_, ?_, ?_⟩
  · rw [hwritten, hobjects]
    exact hs.written
  · rw [current_eq hobjects hfilled]
    exact System.values_of_not_moved hs.values hstep hm
  · intro w hw
    exact (hs.inHand w (hinFlight ▸ hw)).of_eq hobjects hwritten hfilled

/-- It is kept track of when a dispatch arrives: the new flight has written
nothing, and is served only what the cache has. -/
theorem tracked_of_arrives
    (hput : srv.registry.tools.lookup "s3.put_object" = some tools.putTool)
    (hs : s.Tracked) {e : Event F} (hstep : s.system.Step srv e t.system) {m : Move F}
    (hm : s.system.moved srv e = some m) (hplace : m.place = none) {s' : ServerState F}
    (harrives : Arrives srv s.system.server e m.flight s')
    (hnext : m.next = runObserved srv s' m.flight m.flight.clock.now)
    (hempty : s.system.inFlight = []) (hobjects : t.objects = s.objects)
    (hwritten : t.written = (s.note m).written) (hfilled : t.filled = (s.note m).filled) :
    t.Tracked := by
  obtain ⟨ctx, env, clock, tool, args, he, hgates, hflight⟩ := harrives
  have hcache : s'.cache = s.system.server.cache := cache_of_gates hgates
  have hnow : s'.cache.Values s.Current := hcache ▸ hs.values
  have hvalues : t.system.server.cache.Values s.Current := by
    rw [System.server_of_moved hstep hm, hnext]
    exact (values_runObserved hnow).1
  have hinFlight : t.system.inFlight =
      (m.next.1.phase?.map fun phase => (m.flight, phase)).toList := by
    rw [(System.step_of_moved hstep hm).1, hplace, hempty]
    rfl
  have hphase : ∀ w ∈ t.system.inFlight, w.1 = m.flight ∧
      ∀ c r, w.2 ≠ .ending c (.ok r) := by
    intro w hw
    rw [hinFlight, hnext] at hw
    rcases runObserved_flow srv s' m.flight m.flight.clock.now with
      ⟨waits, hflow⟩ | ⟨c, hflow⟩ | ⟨result, hflow⟩ <;> rw [hflow] at hw
    · obtain rfl : w = (m.flight, .polling waits) := by simpa [Progress.phase?] using hw
      exact ⟨rfl, fun _ _ h => by cases h⟩
    · obtain rfl : w = (m.flight, .starting c) := by simpa [Progress.phase?] using hw
      exact ⟨rfl, fun _ _ h => by cases h⟩
    · simp [Progress.phase?] at hw
  have halone : t.system.inFlight.length ≤ 1 := by
    rw [hinFlight]
    cases m.next.1.phase? <;> simp
  by_cases hf : m.flight.IsPut
  · obtain ⟨hkey, hcontent⟩ := put_of_arrives hput ⟨ctx, env, clock, tool, args, he, hgates,
      hflight⟩ hf
    have hnote : s.note m = s.forget m.flight := by simp only [note, hplace, hf, if_true]
    rw [hnote] at hwritten hfilled
    refine ⟨halone, fun key content h => ?_, ?_, ?_⟩
    · rw [hwritten] at h
      by_cases hkey : key = m.flight.objectKey
      · simp [forget, hkey] at h
      · rw [hobjects]
        exact hs.written key content (by simpa [forget, Function.update_of_ne hkey] using h)
    · apply hvalues.imp
      intro key v hcurrent g hg
      rw [hfilled] at hg
      rw [hobjects]
      exact hcurrent g (Option.filter_eq_some_iff.mp hg).1
    · intro w hw
      obtain ⟨hw, hnot⟩ := hphase w hw
      rw [hw]
      refine ⟨fun _ => ⟨hkey, ?_, ?_, hcontent⟩, fun _ c r h => absurd h (hnot c r),
        fun _ c r h => absurd h (hnot c r)⟩
      · rw [hwritten]
        exact Function.update_self _ _ _
      · intro key g hg
        rw [hfilled] at hg
        simpa using (Option.filter_eq_some_iff.mp hg).2
  · have hnote : s.note m = s := by simp only [note, hplace, hf, if_false]
    rw [hnote] at hwritten hfilled
    refine ⟨halone, ?_, ?_, ?_⟩
    · rw [hwritten, hobjects]
      exact hs.written
    · rw [current_eq hobjects hfilled]
      exact hvalues
    · intro w hw
      obtain ⟨hw, hnot⟩ := hphase w hw
      rw [hw]
      exact ⟨fun h => absurd h hf, fun _ c r h => absurd h (hnot c r),
        fun _ c r h => absurd h (hnot c r)⟩

omit [PyFloat F] [UnicodeDb] in
theorem not_isGet_of_isPut {f : Flight F} (hput : f.IsPut) : ¬ f.IsGet := by
  intro hget
  rw [Flight.IsPut, hget] at hput
  exact absurd hput (by decide)

/-- A dispatch returns the result of its run. -/
theorem tracked_of_result (hs : s.Tracked) {e : Event F}
    (hstep : s.system.Step srv e t.system) {m : Move F}
    (hm : s.system.moved srv e = some m) (hplace : m.place = some 0) {c : Budgeted}
    {r : ToolResult F} (honly : s.system.inFlight = [(m.flight, .ending c (.ok r))])
    (hgoes : GoesOn srv s.system 0 m.flight (.ending c (.ok r)) e m.next)
    (hinFlight : t.system.inFlight =
      (m.next.1.phase?.map fun phase => (m.flight, phase)).toList)
    (hobjects : t.objects = s.objects) (hwritten : t.written = (s.note m).written)
    (hfilled : t.filled = (s.note m).filled) : t.Tracked := by
  have hin : s.InHand m.flight (.ending c (.ok r)) :=
    hs.inHand (m.flight, .ending c (.ok r)) (by simp [honly])
  have hnote : s.note m = s.remember m.flight := by
    simp only [note, hplace, honly, List.getElem?_cons_zero]
  rw [hnote] at hwritten hfilled
  have hended : t.system.inFlight = [] := by
    obtain ⟨result, hend⟩ := flows_of_goesOn hgoes
    rw [hinFlight, hend]
    rfl
  have hother : ∀ key, m.flight.key ≠ some key → t.filled key = s.filled key := by
    intro key hkey
    rw [hfilled]
    cases hk : m.flight.key with
    | none => simp only [remember, hk]
    | some k =>
        have hne : key ≠ k := fun h => hkey (h ▸ hk)
        simp only [remember, hk, Function.update_of_ne hne]
  refine ⟨by simp [hended], fun key content h hstrip => ?_, ?_, by simp [hended]⟩
  · rw [hobjects]
    rw [hwritten] at h
    by_cases hput : m.flight.IsPut
    · simp only [remember, hput, if_true] at h
      by_cases hkey : key = m.flight.objectKey
      · subst hkey
        obtain rfl : m.flight.argument "content" = content := by simpa using h
        rw [hin.stored hput c r rfl, S3PutTool.payload, (hin.put hput).2.2.2 hstrip]
      · exact hs.written key content (by simpa [Function.update_of_ne hkey] using h) hstrip
    · exact hs.written key content (by simpa [remember, hput] using h) hstrip
  · rw [System.server_of_moved hstep hm]
    refine (values_goesOn hs.values hgoes ?_ ?_).1
    · intro key v hnot hcurrent g hg
      rw [hother key (hnot c r rfl)] at hg
      rw [hobjects]
      exact hcurrent g hg
    · intro _ r' key hphase hkey
      obtain ⟨-, rfl⟩ : c = _ ∧ r = r' := by simpa using hphase
      have hget : ∀ g ∈ t.filled key, m.flight.IsGet ∧ g = m.flight := by
        intro g hg
        rw [hfilled] at hg
        by_cases hget : m.flight.IsGet
        · obtain rfl : m.flight = g := by simpa [remember, hkey, hget] using hg
          exact ⟨hget, rfl⟩
        · simp [remember, hkey, hget] at hg
      constructor
      · intro g hg
        obtain ⟨hget, rfl⟩ := hget g hg
        obtain ⟨body, hobject, rfl⟩ := hin.got hget c r rfl
        exact ⟨body, hobjects ▸ hobject, rfl⟩
      · intro w hw g hg
        obtain ⟨hget, rfl⟩ := hget g hg
        obtain ⟨body, hobject, rfl⟩ := hin.got hget c r rfl
        obtain rfl := loads_resultOf hw
        exact ⟨body, hobjects ▸ hobject, rfl⟩

/-- A dispatch goes on otherwise; a put may reach the store. -/
theorem tracked_of_no_result (hs : s.Tracked) {e : Event F} (he : s.toEvent hp = some e)
    (hstep : s.system.Step srv e t.system) {m : Move F}
    (hm : s.system.moved srv e = some m) (hplace : m.place = some 0) {phase : Phase F}
    (honly : s.system.inFlight = [(m.flight, phase)])
    (hgoes : GoesOn srv s.system 0 m.flight phase e m.next)
    (hnot : ∀ c r, phase ≠ .ending c (.ok r))
    (hinFlight : t.system.inFlight =
      (m.next.1.phase?.map fun phase => (m.flight, phase)).toList)
    (hobjects : t.objects = s.objectsAfter hp) (hwritten : t.written = (s.note m).written)
    (hfilled : t.filled = (s.note m).filled) : t.Tracked := by
  have hin : s.InHand m.flight phase := hs.inHand (m.flight, phase) (by simp [honly])
  have hnote : s.note m = s := by
    simp only [note, hplace, honly, List.getElem?_cons_zero]
    split
    next f c r hpair =>
        obtain ⟨-, hphase⟩ : m.flight = f ∧ phase = .ending c (.ok r) := by simpa using hpair
        exact absurd hphase (hnot c r)
    next => rfl
  rw [hnote] at hwritten hfilled
  have hlanded : ∀ f, s.landed hp = some f → f = m.flight ∧ f.IsPut := by
    intro f hf
    obtain ⟨hput, i, a, -, hi, -⟩ := moved_of_landed srv hf he
    have hmem := List.mem_of_getElem? hi
    simp only [honly, List.mem_singleton, Prod.mk.injEq] at hmem
    exact ⟨hmem.1, hput⟩
  have hkept : ∀ key, (m.flight.IsPut → key ≠ m.flight.objectKey) →
      t.objects key = s.objects key := by
    intro key hkey
    rw [hobjects, objectsAfter]
    cases hf : s.landed hp with
    | none => rfl
    | some f =>
        obtain ⟨rfl, hput⟩ := hlanded f hf
        exact Function.update_of_ne (hkey hput) _ _
  refine ⟨?_, fun key content h hstrip => ?_, ?_, fun w hw => ?_⟩
  · rw [hinFlight]
    cases m.next.1.phase? <;> simp
  · rw [hwritten] at h
    rw [hkept key]
    · exact hs.written key content h hstrip
    · intro hput hkey
      rw [hkey, (hin.put hput).2.1] at h
      cases h
  · rw [System.server_of_moved hstep hm]
    refine (values_goesOn hs.values hgoes ?_ ?_).1
    · intro key v _ hcurrent g hg
      rw [hfilled] at hg
      rw [hkept]
      · exact hcurrent g hg
      · exact fun hput => (hin.put hput).2.2.1 key g hg
    · intro c r _ hphase
      exact absurd hphase (hnot c r)
  · obtain ⟨phase', hphase', rfl⟩ : ∃ phase', m.next.1.phase? = some phase' ∧
        w = (m.flight, phase') := by
      rw [hinFlight] at hw
      cases hnext : m.next.1.phase? with
      | none => simp [hnext] at hw
      | some phase' => exact ⟨phase', rfl, by simpa [hnext] using hw⟩
    have hran : ∀ c r, phase' = .ending c (.ok r) →
        (m.flight.IsPut → s.landed hp = some m.flight) ∧
        (m.flight.IsGet → ∃ body, s.objects m.flight.objectKey = some body ∧
          r = S3GetTool.resultOf (textField m.flight.args "key")
            (body.take (maxBytes m.flight.args))) := by
      intro c r hending
      have hnext : m.next.1 = .suspended (.ending c (.ok r)) := by
        cases hprogress : m.next.1 with
        | ended result => simp [hprogress, Progress.phase?] at hphase'
        | suspended phase'' =>
            obtain rfl : phase'' = phase' := by simpa [hprogress, Progress.phase?] using hphase'
            rw [hending]
      obtain ⟨a, now, rfl, rfl⟩ := ran_of_ending hgoes hnext
      exact store_of_ran he hgoes.1
    refine ⟨?_, fun hput c r hending => ?_, fun hget c r hending => ?_⟩
    · rw [hwritten, hfilled]
      exact hin.put
    · rw [hobjects, objectsAfter, (hran c r hending).1 hput]
      exact Function.update_self _ _ _
    · obtain ⟨body, hobject, hr⟩ := (hran c r hending).2 hget
      refine ⟨body, ?_, hr⟩
      rw [hkept _ fun hput => absurd hget (not_isGet_of_isPut hput)]
      exact hobject

/-- It is kept track of when a dispatch goes on, in each of its phases. -/
theorem tracked_of_goesOn (hs : s.Tracked) {e : Event F} (he : s.toEvent hp = some e)
    (hstep : s.system.Step srv e t.system) {m : Move F}
    (hm : s.system.moved srv e = some m) {i : ℕ} {phase : Phase F} (hplace : m.place = some i)
    (hgoes : GoesOn srv s.system i m.flight phase e m.next)
    (hobjects : t.objects = s.objectsAfter hp)
    (hwritten : t.written = (s.note m).written) (hfilled : t.filled = (s.note m).filled) :
    t.Tracked := by
  -- nobody else is in flight
  obtain ⟨rfl, honly⟩ : i = 0 ∧ s.system.inFlight = [(m.flight, phase)] := by
    obtain ⟨hlt, hget⟩ := List.getElem?_eq_some_iff.mp hgoes.1
    have hlength : s.system.inFlight.length = 1 := le_antisymm hs.alone (by omega)
    obtain ⟨w, hw⟩ := List.length_eq_one_iff.mp hlength
    obtain rfl : i = 0 := by omega
    simp only [hw, List.getElem_cons_zero] at hget
    exact ⟨rfl, hget ▸ hw⟩
  have hinFlight : t.system.inFlight =
      (m.next.1.phase?.map fun phase => (m.flight, phase)).toList := by
    rw [(System.step_of_moved hstep hm).1, hplace, honly]
    rfl
  by_cases hending : ∃ c r, phase = .ending c (.ok r)
  · obtain ⟨c, r, rfl⟩ := hending
    have hnone : s.landed hp = none := by
      by_contra hsome
      obtain ⟨f, hf⟩ := Option.ne_none_iff_exists'.mp hsome
      obtain ⟨-, j, a, -, hj, -⟩ := moved_of_landed srv hf he
      have hmem := List.mem_of_getElem? hj
      simp [honly] at hmem
    refine tracked_of_result hs hstep hm hplace honly hgoes hinFlight ?_ hwritten hfilled
    simp only [hobjects, objectsAfter, hnone]
  · have hnot : ∀ c r, phase ≠ .ending c (.ok r) := fun c r h => hending ⟨c, r, h⟩
    exact tracked_of_no_result hs he hstep hm hplace honly hgoes hnot hinFlight hobjects
      hwritten hfilled

theorem tracked_step (hput : srv.registry.tools.lookup "s3.put_object" = some tools.putTool)
    (hs : s.Tracked) (h : s.Step srv hp t) : t.Tracked := by
  obtain ⟨e, he, hstep, hobjects, ⟨hm, hwritten, hfilled⟩ | ⟨m, hm, hwritten, hfilled⟩⟩ :=
    step_cases h
  · have hnone : s.landed hp = none := by
      by_contra hsome
      obtain ⟨f, hf⟩ := Option.ne_none_iff_exists'.mp hsome
      obtain ⟨-, i, a, m, -, hm', -⟩ := moved_of_landed srv hf he
      rw [hm] at hm'
      cases hm'
    apply tracked_of_not_moved hs hstep hm _ hwritten hfilled
    simp only [hobjects, objectsAfter, hnone]
  · rcases System.moved_cases hm with ⟨hplace, s', harrives, hnext⟩ | ⟨i, phase, hplace, hgoes⟩
    · have hempty : s.system.inFlight = [] := by
        obtain ⟨ctx, env, clock, tool, args, rfl, -⟩ := harrives
        exact alone_of_dispatch he
      have hnone : s.landed hp = none := by
        by_contra hsome
        obtain ⟨f, hf⟩ := Option.ne_none_iff_exists'.mp hsome
        obtain ⟨-, i, a, m, hi, -⟩ := moved_of_landed srv hf he
        simp [hempty] at hi
      apply tracked_of_arrives hput hs hstep hm hplace harrives hnext hempty _ hwritten hfilled
      simp only [hobjects, objectsAfter, hnone]
    · exact tracked_of_goesOn hs he hstep hm hplace hgoes hobjects hwritten hfilled

/-- **Gets return what was written, unless the cache has what was read
before.**  In every run of dispatches one after the other, in which no get of
an object finds in the cache, after a put of it has returned, what was read
before the put came, every get that returns does so with the content of the
last put. -/
theorem reads_back_of_fresh_hits {tools : S3Tools F} {srv : AtlasServer F}
    (hput : srv.registry.tools.lookup "s3.put_object" = some tools.putTool)
    {s : ServerState F} {objects : String → Option (List ℕ)} {happenings : List (Happening F)}
    {t : Session F}
    (hrun : Run (Guarded (Step srv) (FreshHits srv)) (start s objects) happenings t) :
    Run (Guarded (Step srv) (ReadsBack srv)) (start s objects) happenings t := by
  apply hrun.transfer (I := Tracked) (tracked_start s objects)
  intro s hp t hs hstep
  exact ⟨tracked_step hput hs hstep.1, hstep.1, readsBack_of_tracked hs hstep.2⟩

/-- A session keeps a system. -/
theorem carries : Carries (F := F) step system toEvent where
  does srv s hp t h := by
    obtain ⟨e, he, hstep, -⟩ := step_cases h
    exact ⟨e, he, hstep⟩
  trusts srv s hp h := by
    apply Option.bind_congr
    intro e he
    rw [System.step_trusting (h e he), System.moved_trusting (h e he)]

/-- The happening that is read is the same where no dispatch waits for an
approval. -/
theorem reads_trusting
    (h : ∀ e ∈ s.toEvent hp, e.IsApproved srv s.system.server.approvals) :
    s.reads srv.trusting hp = s.reads srv hp := by
  apply Option.bind_congr
  intro e he
  rw [System.moved_trusting (h e he)]

/-- So does one that is kept to fresh hits. -/
theorem carries_freshHits :
    Carries (F := F) (fun srv s hp => (s.step srv hp).filter fun t => s.FreshHits srv hp t)
      system toEvent where
  does srv s hp t h := carries.does srv s hp t (Option.filter_eq_some_iff.mp h).1
  trusts srv s hp h := by
    have hsame : ∀ t, s.FreshHits srv.trusting hp t ↔ s.FreshHits srv hp t := by
      intro t
      simp only [FreshHits, reads_trusting h]
    simp only [carries.trusts srv s hp h, hsame]

end Session

/-- The happening is not in the way of an approval. -/
def Happening.CallsOnly [UnicodeDb] (srv : AtlasServer F) (id : String) (expiresAt : ℚ) :
    Happening F → Prop
  | .event e _ => e.CallsOnly srv id expiresAt
  | _ => True

instance [UnicodeDb] (srv : AtlasServer F) (id : String) (expiresAt : ℚ) (hp : Happening F) :
    Decidable (hp.CallsOnly srv id expiresAt) :=
  match hp with
  | .event .. => inferInstanceAs (Decidable (Event.CallsOnly ..))
  | .answered .. | .failed .. => isTrue trivial

/-- A happening of calls only is an event of calls only. -/
theorem Happening.CallsOnly.event [UnicodeDb] {srv : AtlasServer F} {id : String}
    {expiresAt : ℚ} {hp : Happening F} (h : hp.CallsOnly srv id expiresAt) {s : Session F}
    {e : Event F} (he : s.toEvent hp = some e) : e.CallsOnly srv id expiresAt := by
  cases hp with
  | answered i now | failed i failure now lands =>
      simp only [Session.toEvent] at he
      split at he
      next =>
          split at he
          next =>
              obtain rfl := Option.some.inj he
              trivial
          next =>
              split at he
              next =>
                  obtain rfl := Option.some.inj he
                  trivial
              next => cases he
      next => cases he
  | event e' lands =>
      cases e' with
      | dispatch ctx env clock =>
          simp only [Session.toEvent] at he
          split at he
          next =>
              obtain rfl := Option.some.inj he
              exact h
          next => cases he
      | ran i outcome now =>
          simp only [Session.toEvent] at he
          split at he
          next =>
              split at he
              next => cases he
              next =>
                  obtain rfl := Option.some.inj he
                  trivial
          next => cases he
      | _ =>
          obtain rfl := Option.some.inj he
          exact h

/-- The model of the arguments of a get. -/
def getArgs (key : String) : BaseModel WholeFloat where
  dump := [("key", .str key), ("max_bytes", .int 1048576)]
  dumpJson := [("key", .str key), ("max_bytes", .int 1048576)]
  wf := by simp [Value.Wf, Value.WfMembers]
  native := by simp [Value.Native, Value.NativeMembers]

/-- The arguments of a put, as its model dumps them. -/
def putArgs (key content : String) : BaseModel WholeFloat where
  dump := [("key", .str key), ("content", .str content), ("content_type", .str "text/plain")]
  dumpJson := [("key", .str key), ("content", .str content), ("content_type", .str "text/plain")]
  wf := by simp [Value.Wf, Value.WfMembers]
  native := by simp [Value.Native, Value.NativeMembers]

/-- The schemas on calls that leave the other fields at their defaults. -/
def notesTools : S3Tools WholeFloat where
  getInput arguments := match dictGet arguments "key" with
    | some (.str key) => .ok (getArgs (stripText key))
    | _ => .error (.schema ⟨none, "key: Field required"⟩)
  putInput arguments := match dictGet arguments "key", dictGet arguments "content" with
    | some (.str key), some (.str content) => .ok (putArgs (stripText key) (stripText content))
    | _, _ => .error (.schema ⟨none, "Field required"⟩)
  put_content arguments args h := by
    split at h
    next key content hkey hcontent =>
        obtain rfl := Except.ok.inj h
        exact ⟨content, stripText content, hcontent, rfl, id⟩
    next => cases h

/-- A server on which objects can be read and written by everybody. -/
def notesServer : AtlasServer WholeFloat where
  settings := {}
  registry := match (ToolRegistry.empty.register notesTools.getTool).bind
      (·.register notesTools.putTool) with
    | .ok registry => registry
    | .error _ => .empty
  policy := { rules :=
    [⟨"notes", ["*"], ["s3.get_object", "s3.put_object"], ["*"], .allow, none⟩] }
  httpAllowlist := ⟨[]⟩

/-- Someone of the tenant, with both scopes. -/
def notesContext : RequestContext :=
  { subject := "agent", tenant := "acme", scopes := ["tool:s3:read", "tool:s3:write"] }

/-- A call that reads the object. -/
def getNotes : ToolCallEnvelope WholeFloat :=
  notesContext.buildEnvelope "s3.get_object" [("key", .str "notes.txt")]

/-- A call that writes it. -/
def putNotes : ToolCallEnvelope WholeFloat :=
  notesContext.buildEnvelope "s3.put_object"
    [("key", .str "notes.txt"), ("content", .str "new")]

/-- The notes as they were. -/
def oldNotes : Session WholeFloat :=
  .start notesServer.initial fun key =>
    if key = "acme/notes.txt" then some (utf8 "old") else none

/-- A get that runs and returns. -/
def notesRead (now : ℚ) : List (Happening WholeFloat) :=
  [.event (.dispatch notesContext getNotes ⟨now, 0, ""⟩) false, .event (.woke 0 now) false,
    .answered 0 now, .event (.woke 0 now) false]

/-- A put that is stopped, approved, repeated, and returns. -/
def notesWritten : List (Happening WholeFloat) :=
  [.event (.dispatch notesContext putNotes ⟨2, 2000, ""⟩) false,
    .event (.judge (approvalId "acme" "s3.put_object" putNotes.arguments) .approved
      "ops:jane" 3) false,
    .event (.dispatch notesContext putNotes ⟨4, 4000, ""⟩) false, .event (.woke 0 4) false,
    .answered 0 5, .event (.woke 0 5) false]

/-- The id under which the put is approved. -/
def putId : String := approvalId "acme" "s3.put_object" putNotes.arguments

/-- The approval of the put. -/
def putApproved : Happening WholeFloat := .event (.judge putId .approved "ops:jane" 3) false

/-- Another get. -/
def readAgain : Happening WholeFloat :=
  .event (.dispatch notesContext getNotes ⟨7, 7000, ""⟩) false

/-- The new notes are read, and read again from the cache. -/
theorem new_notes_read : ∃ t,
    Run (Guarded (Session.Step notesServer) (Session.ReadsBack notesServer)) oldNotes
      (notesWritten ++ notesRead 6 ++ [readAgain]) t ∧
    t.system.returned.map (fun a => textAt a.2 "content") = [none, some "new", some "new"] := by
  obtain ⟨s, hstopped, hfound, s₁, hjudged, t, hafter, hreturned⟩ : ∃ s ∈ execGuarded
      (Session.step notesServer) (Session.FreshHits notesServer) oldNotes (notesWritten.take 1),
      (∃ entry ∈ s.system.server.approvals.store.lookup putId, 3 ≤ entry.2) ∧
      ∃ s₁ ∈ execGuarded (Session.step notesServer) (Session.FreshHits notesServer) s [putApproved],
      ∃ t ∈ execGuarded (Session.step notesServer.trusting)
        (Session.FreshHits notesServer.trusting) s₁
        (notesWritten.drop 2 ++ notesRead 6 ++ [readAgain]),
      t.system.returned.map (fun a => textAt a.2 "content") =
        [none, some "new", some "new"] := by decide +kernel
  have hcalls : ∀ hp ∈ notesWritten.drop 2 ++ notesRead 6 ++ [readAgain],
      hp.CallsOnly notesServer putId (3 + approvalTtlSeconds) := by decide +kernel
  have hrun := Session.carries_freshHits.run_of_approved rfl (Run.of_exec hstopped) hfound rfl
    (by simpa [execGuarded, exec] using hjudged)
    (fun hp hhp s e he => (hcalls hp hhp).event he) (Run.of_exec hafter)
  have hput : notesServer.registry.tools.lookup "s3.put_object" = some notesTools.putTool := rfl
  exact ⟨t, Session.reads_back_of_fresh_hits hput hrun.of_filter, hreturned⟩

/-- The old notes were read before, and are read again. -/
theorem old_notes_read_again : ∃ s t,
    Run (Session.Step notesServer) oldNotes (notesRead 0 ++ notesWritten) s ∧
      Session.Step notesServer s readAgain t ∧ ¬ Session.ReadsBack notesServer s readAgain t := by
  obtain ⟨r, hstopped, hfound, r₁, hjudged, s, hafter, t, ht, hbroken⟩ : ∃ r ∈ exec
      (Session.step notesServer) oldNotes (notesRead 0 ++ notesWritten.take 1),
      (∃ entry ∈ r.system.server.approvals.store.lookup putId, 3 ≤ entry.2) ∧
      ∃ r₁ ∈ r.step notesServer putApproved,
      ∃ s ∈ exec (Session.step notesServer.trusting) r₁ (notesWritten.drop 2),
      ∃ t ∈ s.step notesServer readAgain, ¬ Session.ReadsBack notesServer s readAgain t := by
    decide +kernel
  have hcalls : ∀ hp ∈ notesWritten.drop 2,
      hp.CallsOnly notesServer putId (3 + approvalTtlSeconds) := by decide +kernel
  have hrun := Session.carries.run_of_approved rfl (Run.of_exec hstopped) hfound rfl hjudged
    (fun hp hhp s e he => (hcalls hp hhp).event he) (Run.of_exec hafter)
  exact ⟨s, t, hrun, ht, hbroken⟩

end Server
