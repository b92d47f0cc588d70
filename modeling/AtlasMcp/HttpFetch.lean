import AtlasMcp.DispatchCounts
import AtlasMcp.Utf8

/-!
# Writes through `http.fetch`

`http.fetch` makes one outbound request in a run, with whatever method its arguments
name.  Whether a run is repeated is decided by its metadata, which calls it not
destructive, and by its errors, which call a timeout and a network error worth a retry:
a write whose answer is lost is sent again.

`sent_once_iff` says that nothing else sends a write twice: a run is free of it if and
only if no dispatch of a write goes on after the wait before a retry.
-/

namespace Server

open PyJson PyText Errors Tools Auth Governance RateLimit Reliability Cache FallibleState
open GuardedRuns

variable {F : Type}

/-- How the transport answers a request: with a response, or with one of the two
errors that the tool tells apart; `headers` is `dict(resp.headers)`. -/
inductive TransportOutcome
  | response (statusCode : ℤ)
      (headers : { kvs : List (String × String) // (kvs.map Prod.fst).Nodup })
      (content : List ℕ)
  | timeout (text : String)
  | requestError (text : String)

/-- The tool has an allowlist of its own; its input schema is the validation
library's. -/
structure HTTPFetchTool (F : Type) where
  allowlist : HttpAllowlist
  inputSchema : List (String × Value F) → Except (Rejection F) (BaseModel F)

namespace HTTPFetchTool

/-- `http.fetch` as it is registered: it counts as not destructive, whatever
the method. -/
def tool (fetch : HTTPFetchTool F) : Tool F where
  metadata :=
    { name := "http.fetch"
      scopesRequired := ["tool:http:fetch"]
      destructive := false
      cacheable := false }
  inputSchema := fetch.inputSchema

/-- The error of a request that has failed: it can be tried again. -/
def upstreamError (code text : String) : ToolError F where
  cls := .upstreamError
  code
  retryable := true
  hint := text

/-- How much of the body is returned. -/
def maxBodyBytes : ℕ := 64 * 1024

/-- What a response is returned as. -/
def resultOf (statusCode : ℤ)
    (headers : { kvs : List (String × String) // (kvs.map Prod.fst).Nodup })
    (content : List ℕ) : ToolResult F :=
  ⟨[("status", .int statusCode),
    ("headers", .dict (headers.val.map fun kv => (kv.1, .str kv.2))),
    ("body", .str (Utf8.decodeReplace (content.take maxBodyBytes))),
    ("truncated", .bool (content.length > (content.take maxBodyBytes).length))], by
    have hmembers : Value.WfMembers (F := F)
        (headers.val.map fun kv => (kv.1, Value.str kv.2)) := by
      rw [Value.wfMembers_iff]
      intro kv hkv
      obtain ⟨h, -, rfl⟩ := List.mem_map.mp hkv
      trivial
    have hkeys : ((headers.val.map fun kv => (kv.1, Value.str (F := F) kv.2)).map
        Prod.fst).Nodup := by
      rw [List.map_map]
      exact headers.property
    exact ⟨by simp, trivial, ⟨hkeys, hmembers⟩, trivial, trivial, trivial⟩⟩

section Run

variable [UnicodeDb] [PyFloat F]

/-- The tool repeats the check of the host. -/
def checkHost (fetch : HTTPFetchTool F) (tenant : String) (args : BaseModel F) :
    Except (Exc F) Unit :=
  match UrlHost.hostname (pyStrValue (args.getattr "url")) with
  | .error typeName => .error (.other typeName)
  | .ok host => liftTool (fetch.allowlist.check tenant (host.getD ""))

/-- `HTTPFetchTool.run`, with the answer of the transport to its one
request. -/
def run (fetch : HTTPFetchTool F) (tenant : String) (args : BaseModel F)
    (transport : TransportOutcome) : Except (Exc F) (ToolResult F) :=
  match fetch.checkHost tenant args with
  | .error exc => .error exc
  | .ok _ =>
      match transport with
      | .response statusCode headers content => .ok (resultOf statusCode headers content)
      | .timeout text => .error (.tool (upstreamError "http_timeout" text))
      | .requestError text => .error (.tool (upstreamError "http_network_error" text))

/-- A run gets as far as its request. -/
def Sends (fetch : HTTPFetchTool F) (f : Flight F) : Bool :=
  (fetch.checkHost f.envelope.tenant f.args).isOk

/-- The outbound requests of a dispatch that has started the tool `n`
times. -/
def requests (fetch : HTTPFetchTool F) (f : Flight F) (n : ℕ) : ℕ :=
  if fetch.Sends f then n else 0

/-- The refusal of a host is final. -/
theorem not_retryable_of_checkHost {fetch : HTTPFetchTool F} {tenant : String}
    {args : BaseModel F} {e : ToolError F}
    (h : fetch.checkHost tenant args = .error (.tool e)) : e.retryable = false := by
  unfold checkHost at h
  split at h
  next => simp at h
  next host _ =>
      by_cases hallowed : fetch.allowlist.allowed tenant (host.getD "")
      · simp [HttpAllowlist.check, hallowed, liftTool, Except.mapError] at h
      · simp only [HttpAllowlist.check, hallowed, liftTool, Except.mapError,
          Bool.false_eq_true, if_false, Except.error.injEq, Exc.tool.injEq] at h
        rw [← h]
        rfl

/-- Only a request can fail in a way worth a retry. -/
theorem sends_of_retryable {fetch : HTTPFetchTool F} {f : Flight F}
    {transport : TransportOutcome} {e : ToolError F}
    (h : fetch.run f.envelope.tenant f.args transport = .error (.tool e))
    (hretryable : e.retryable = true) : fetch.Sends f = true := by
  cases hcheck : fetch.checkHost f.envelope.tenant f.args with
  | ok u => simp [Sends, hcheck, Except.isOk, Except.toBool]
  | error exc =>
      have hrun : fetch.run f.envelope.tenant f.args transport = .error exc := by
        unfold run
        rw [hcheck]
      obtain rfl : exc = .tool e := Except.error.inj (hrun.symm.trans h)
      rw [not_retryable_of_checkHost hcheck] at hretryable
      cases hretryable

end Run

end HTTPFetchTool

/-- The dispatch is one of `http.fetch` with a method that writes.  The metadata
of the tool does not tell these from the others. -/
def Flight.IsWrite (f : Flight F) : Prop :=
  f.tool.metadata.name = "http.fetch" ∧
    ∃ method ∈ ["POST", "PUT", "PATCH", "DELETE"], f.args.getattr "method" = .str method

section Runs

variable [PyFloat F] [UnicodeDb]

namespace HTTPFetchTool

/-- The outcome of a run of `http.fetch` comes from an answer of the
transport. -/
def Fits (fetch : HTTPFetchTool F) (l : Ledger F) (e : Event F) (_ : Ledger F) : Prop :=
  ∀ i outcome now f a, e = .ran i outcome now →
    l.system.inFlight[i]? = some (f, .running a) → f.tool.metadata.name = "http.fetch" →
      ∃ transport, outcome = fetch.run f.envelope.tenant f.args transport

/-- One event of a server on which the tool is registered. -/
def Step (fetch : HTTPFetchTool F) (srv : AtlasServer F) :
    Ledger F → Event F → Ledger F → Prop :=
  Guarded (Ledger.Step srv) fetch.Fits

/-- No dispatch of a write has sent more than one request.  Every start of the
tool sends one. -/
def SentOnce (fetch : HTTPFetchTool F) (_ : Ledger F) (_ : Event F) (l' : Ledger F) : Prop :=
  ∀ d ∈ l'.dispatches, d.1.IsWrite → fetch.requests d.1 d.2 ≤ 1

/-- No dispatch of a write goes on after the wait before a retry.  It may have
been made to wait. -/
def NoWriteResumed (l : Ledger F) (e : Event F) (_ : Ledger F) : Prop :=
  ∀ i now f a, e = .woke i now → l.system.inFlight[i]? = some (f, .backoff a) → ¬ f.IsWrite

/-- The starts of a write that is not resumed, by where its dispatch waits. -/
def WritesOnce (fetch : HTTPFetchTool F) (f : Flight F) (n : ℕ) (next : Progress F) : Prop :=
  f.IsWrite → match next with
    | .suspended (.polling _) | .suspended (.starting _) => n = 0
    | .suspended (.running _) => n = 1
    | .suspended (.backoff _) => n = 1 ∧ fetch.Sends f = true
    | .suspended (.ending _ _) | .ended _ => n ≤ 1

variable {fetch : HTTPFetchTool F} {srv : AtlasServer F} {l l' : Ledger F} {e : Event F}

/-- Only an attempt that sent its request is tried again. -/
theorem sends_of_retries {f : Flight F} {a : Attempt} {transport : TransportOutcome}
    (h : retries srv f a
      (normalised f.envelope (fetch.run f.envelope.tenant f.args transport))) :
    fetch.Sends f = true := by
  rcases hrun : fetch.run f.envelope.tenant f.args transport with (e | _ | typeName) | r
  · rw [hrun] at h
    exact sends_of_retryable hrun h.2.1
  · rw [hrun] at h
    exact h.elim
  · rw [hrun] at h
    exact absurd h.2.1 (by simp [normaliseException, normaliseException.internalError])
  · rw [hrun] at h
    exact h.elim

/-- While no write is resumed, every write has been sent once at most. -/
theorem writesOnce_step (hl : l.Holds fetch.WritesOnce) (h : fetch.Step srv l e l')
    (hresumed : NoWriteResumed l e l') : l'.Holds fetch.WritesOnce := by
  apply hl.step h.1
  · intro f s _ _
    rcases runObserved_flow srv s f f.clock.now with
      ⟨waits, hnext⟩ | ⟨c, hnext⟩ | ⟨result, hnext⟩ <;> rw [hnext]
    · rfl
    · rfl
    · exact Nat.zero_le 1
  · intro i f n phase next hcount hgoes hwrite
    have hn := hcount hwrite
    have hflow := flows_of_goesOn hgoes
    cases phase with
    | polling waits =>
        obtain rfl : n = 0 := hn
        rcases hflow with ⟨waits, hnext⟩ | ⟨c, hnext⟩ | ⟨result, hnext⟩ <;> rw [hnext]
        · rfl
        · rfl
        · exact Nat.zero_le 1
    | starting c =>
        obtain rfl : n = 0 := hn
        rcases hflow with ⟨a, hnext⟩ | ⟨c, result, hnext⟩ <;> rw [hnext]
        · rfl
        · exact Nat.zero_le 1
    | running a =>
        obtain rfl : n = 1 := hn
        rcases hflow with ⟨outcome, now, rfl, hretry, hnext⟩ | ⟨c, result, hnext⟩ <;>
          rw [hnext]
        · refine ⟨rfl, ?_⟩
          obtain ⟨transport, rfl⟩ := h.2 i outcome now f a rfl hgoes.1 hwrite.1
          exact sends_of_retries hretry
        · exact le_refl 1
    | backoff a =>
        obtain rfl : n = 1 := hn.1
        rcases hflow with ⟨a', now, rfl, -⟩ | ⟨c, result, hnext⟩
        · exact absurd hwrite (hresumed i now f a rfl hgoes.1)
        · rw [hnext]
          exact le_refl 1
    | ending c result =>
        obtain ⟨result', hnext⟩ := hflow
        rw [hnext]
        exact hn

/-- Then no write has sent more than one request. -/
theorem sentOnce_of_writesOnce (hl : l.Holds fetch.WritesOnce) (e : Event F) :
    fetch.SentOnce l' e l := by
  intro d hd hwrite
  have hle : d.2 ≤ 1 := by
    refine Ledger.Holds.of_mem_dispatches (Q := fun f n => f.IsWrite → n ≤ 1)
      (hl.imp fun f n next h hf => ?_) hd hwrite
    have hn := h hf
    rcases next with (_ | _ | _ | _ | _) | _ <;> simp only at hn <;> omega
  unfold requests
  split
  · exact hle
  · exact Nat.zero_le 1

/-- A write that is resumed sends its request again. -/
theorem noWriteResumed_of_sentOnce (hl : l.Holds fetch.WritesOnce)
    (h : fetch.Step srv l e l') (honce : fetch.SentOnce l e l') : NoWriteResumed l e l' := by
  intro i now f a he hi hwrite
  subst he
  obtain ⟨n, hn⟩ := hl.counted hi
  obtain ⟨hone, hsends⟩ := hl.waiting _ (List.mem_of_getElem? hn) hwrite
  obtain rfl : n = 1 := hone
  have hmoved : l.system.moved srv (.woke i now) = some ⟨some i, f,
      .suspended (.running { a with attempt := a.attempt + 1 }), l.system.server⟩ :=
    System.moved_of_woke hi rfl
  have hagain := Ledger.waiting_of_moved h.1 hmoved rfl
  have htwice : (f, 2) ∈ l'.dispatches := by
    refine List.mem_append_left _ (List.mem_map.mpr ⟨_, hagain, ?_⟩)
    simp [Ledger.before, hn, Progress.starts]
  have hrequests := honce _ htwice hwrite
  simp [requests, hsends] at hrequests

/-- **One request for each write, unless it is resumed.**  From every state of
a server, no dispatch of a write in a run sends more than one outbound
request, whatever the transport answers, if and only if none goes on after the
wait before a retry. -/
theorem sent_once_iff (fetch : HTTPFetchTool F) (srv : AtlasServer F) (s : ServerState F)
    (events : List (Event F)) (l : Ledger F) :
    Run (Guarded (fetch.Step srv) fetch.SentOnce) (Ledger.ofState s) events l ↔
      Run (Guarded (fetch.Step srv) NoWriteResumed) (Ledger.ofState s) events l := by
  apply run_guarded_iff (I := fun l => l.Holds fetch.WritesOnce) (Ledger.holds_ofState s)
  · intro l e l' hl hstep honce
    exact writesOnce_step hl hstep (noWriteResumed_of_sentOnce hl hstep honce)
  · intro l e l' hl hstep
    constructor
    · exact noWriteResumed_of_sentOnce hl hstep
    · intro hresumed
      exact sentOnce_of_writesOnce (writesOnce_step hl hstep hresumed) e

end HTTPFetchTool

end Runs

/-- The fields of an order to be posted. -/
def orderFields : List (String × Value WholeFloat) :=
  [("url", .str "https://api.example.com/orders"), ("method", .str "POST"),
    ("headers", .none), ("body", .dict [("item", .int 7)]), ("timeout_s", .int 5)]

/-- The arguments of a request that places an order. -/
def orderArgs : BaseModel WholeFloat where
  dump := orderFields
  dumpJson := orderFields
  wf := by simp [orderFields, Value.Wf, Value.WfMembers]
  native := by simp [orderFields, Value.Native, Value.NativeMembers]

/-- A tool that may ask one host. -/
def orderFetch : HTTPFetchTool WholeFloat where
  allowlist := ⟨[("*", ["api.example.com"])]⟩
  inputSchema _ := .ok orderArgs

/-- A server with this tool, and nothing else. -/
def orderServer : AtlasServer WholeFloat where
  settings := {}
  registry := match ToolRegistry.empty.register orderFetch.tool with
    | .ok registry => registry
    | .error _ => .empty
  policy := { rules := [⟨"fetch", ["*"], ["http.fetch"], ["*"], .allow, none⟩] }
  httpAllowlist := orderFetch.allowlist

/-- Someone of the tenant, with the scope of the tool. -/
def orderContext : RequestContext :=
  { subject := "agent", tenant := "acme", scopes := ["tool:http:fetch"] }

/-- A call that places the order. -/
def orderEnvelope : ToolCallEnvelope WholeFloat :=
  orderContext.buildEnvelope "http.fetch" orderFields

/-- The answer to the order is lost, and the wait before the retry ends. -/
def orderLost : List (Event WholeFloat) :=
  [.dispatch orderContext orderEnvelope ⟨0, 0, ""⟩, .woke 0 0,
    .ran 0 (orderFetch.run "acme" orderArgs (.timeout "read timed out")) 5, .woke 0 6]

/-- Every dispatch in a run of such events posts the order. -/
theorem posts_order {events : List (Event WholeFloat)} {l : Ledger WholeFloat}
    (hevents : events ⊆ orderLost)
    (hrun : Run (Ledger.Step orderServer) (Ledger.ofState orderServer.initial) events l) :
    ∀ d ∈ l.dispatches, d.1.envelope = orderEnvelope ∧ d.1.args = orderArgs ∧
      d.1.tool = orderFetch.tool := by
  intro d hd
  obtain ⟨before, after, u, rfl, -, -, hadmitted⟩ :=
    Ledger.Holds.of_mem_dispatches (Ledger.arrived_of_run hrun) hd
  have hmem : Event.dispatch d.1.context d.1.envelope d.1.clock ∈ orderLost :=
    hevents (by simp)
  have henvelope : d.1.envelope = orderEnvelope := by
    simp only [orderLost, List.mem_cons, List.not_mem_nil, Event.dispatch.injEq, reduceCtorEq,
      or_false] at hmem
    exact hmem.2.1
  have hget : orderServer.registry.get orderEnvelope.tool = .ok orderFetch.tool := rfl
  have htool : d.1.tool = orderFetch.tool := by
    have hregistered := hadmitted.registered
    rw [henvelope, hget] at hregistered
    exact (Except.ok.inj hregistered).symm
  have hargs : d.1.args = orderArgs := by
    have hvalidated := hadmitted.validated
    rw [htool, Tool.validate] at hvalidated
    split at hvalidated
    · cases hvalidated
    · exact (Except.ok.inj hvalidated).symm
  exact ⟨henvelope, hargs, htool⟩

/-- The order is posted twice. -/
theorem order_sent_twice :
    ∃ l, Run (orderFetch.Step orderServer) (Ledger.ofState orderServer.initial) orderLost l ∧
      ∃ d ∈ l.dispatches, d.1.IsWrite ∧ orderFetch.requests d.1 d.2 = 2 := by
  obtain ⟨l, hl, htwo⟩ : ∃ l ∈ exec (Ledger.step orderServer)
      (Ledger.ofState orderServer.initial) orderLost,
      l.dispatches.map Prod.snd = [2] := by decide +kernel
  have hrun := Run.of_exec hl
  refine ⟨l, hrun.guarded ?_, ?_⟩
  · intro e l₁ l₂ hdid _ i outcome now f a he hi _
    obtain ⟨before, after, hevents, hbefore⟩ := hdid
    subst he
    have hsub : before ⊆ orderLost := by
      rw [hevents]
      exact List.subset_append_left _ _
    have hmem : Event.ran i outcome now ∈ orderLost := by
      rw [hevents]
      simp
    have houtcome : outcome = orderFetch.run "acme" orderArgs (.timeout "read timed out") := by
      simp only [orderLost, List.mem_cons, List.not_mem_nil, Event.ran.injEq, reduceCtorEq,
        or_false, false_or] at hmem
      exact hmem.2.1
    obtain ⟨n, hn⟩ := (Ledger.arrived_of_run hbefore).counted hi
    have hd : (f, n) ∈ l₁.dispatches :=
      List.mem_append_left _ (List.mem_map.mpr ⟨_, List.mem_of_getElem? hn, rfl⟩)
    obtain ⟨henvelope, hargs, -⟩ := posts_order hsub hbefore _ hd
    exact ⟨_, houtcome.trans (by simp only at henvelope hargs; rw [henvelope, hargs]; rfl)⟩
  · obtain ⟨d, hd⟩ : ∃ d, l.dispatches = [d] ∧ d.2 = 2 := by
      cases hds : l.dispatches with
      | nil => simp [hds] at htwo
      | cons d ds =>
          cases ds with
          | nil => exact ⟨d, rfl, by simpa [hds] using htwo⟩
          | cons d' ds => simp [hds] at htwo
    have hmem : d ∈ l.dispatches := by
      rw [hd.1]
      exact List.mem_singleton_self d
    obtain ⟨henvelope, hargs, htool⟩ := posts_order (List.Subset.refl _) hrun d hmem
    refine ⟨d, hmem, ⟨by rw [htool]; rfl, "POST", by simp, by rw [hargs]; rfl⟩, ?_⟩
    have hsends : orderFetch.Sends d.1 = true := by
      simp only [HTTPFetchTool.Sends, henvelope, hargs]
      decide +kernel
    rw [HTTPFetchTool.requests, hsends, hd.2]
    rfl

end Server
