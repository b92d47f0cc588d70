import AtlasMcp.GuardedRuns
import AtlasMcp.PostgresQuery
import AtlasMcp.SqlSession

/-!
# The tenant of a pooled connection

`AsyncpgBackend.fetch` sets `app.tenant_id` for the transaction and then sends the
statement of the caller.  Row-level security compares the tenant of each row with that
setting.  No transaction block is open in between, so the statement runs in a transaction
in which the setting no longer holds.

`fetch_isolated_iff` says when the statement runs for its tenant all the same: exactly if
the connection has that tenant as a value for the session, which only a statement or the
configuration of the database can have left there.
-/

namespace Server

open PyJson PyText Errors GuardedRuns SqlSession

section Fetches

variable {F : Type} [UnicodeDb]

/-- A call of `fetch`; the statement is one that the guard accepts. -/
structure FetchCall (F : Type) [UnicodeDb] where
  tenant : String
  input : PostgresQueryInput F
  accepted : ∃ value, SelectGuard.mustBeSelect value = .ok input.sql

/-- The text of the query. -/
def FetchCall.text (call : FetchCall F) : String :=
  call.input.sql ++ " LIMIT " ++ String.ofList (intText call.input.maxRows)

/-- What the database does in one call of `fetch`: it may refuse the setting,
and it runs the query, with all that this sets, or fails it.  A statement that
begins with SELECT or WITH is no transaction command.  Back in the pool the
connection is reset in some way. -/
structure Database (F : Type) [UnicodeDb] where
  set : String → Session → Option (BackendFailure F)
  query : FetchCall F → Session → Except (BackendFailure F) (List (PyDict F) × Session)
  reset : (String → Option String) → String → Option String
  query_inBlock : ∀ call s rows t, query call s = .ok (rows, t) → t.inBlock = s.inBlock

namespace AsyncpgBackend

/-- What comes of a call: its outcome, the session in which the statement runs
if it does, and the connection afterwards. -/
structure Fetched (F : Type) where
  outcome : Except (BackendFailure F) (List (PyDict F))
  ranIn : Option Session
  after : Session

/-- `fetch`, on a connection that the pool hands out. -/
def fetch (db : Database F) (call : FetchCall F) (conn : Session) : Fetched F :=
  match db.set call.tenant conn with
  | some failure => ⟨.error failure, none, conn.settle⟩
  | none =>
      let conn := conn.call (Session.setLocal "app.tenant_id" call.tenant)
      let answer := db.query call conn
      ⟨answer.map Prod.fst, some conn, conn.call fun _ => answer.toOption.map Prod.snd⟩

/-- One fetch on the connection, after which the pool has it back.  The pool
resets the settings as the database says. -/
def Step (conn : Session) (f : FetchCall F × Database F) (next : Session) : Prop :=
  next = { (fetch f.2 f.1 conn).after with
    settings := f.2.reset (fetch f.2 f.1 conn).after.settings }

/-- The statement runs, if it does, in a session whose tenant is that of the
caller. -/
def Isolated (conn : Session) (f : FetchCall F × Database F) : Prop :=
  ∀ session, (fetch f.2 f.1 conn).ranIn = some session →
    session.current "app.tenant_id" = some f.1.tenant

/-- The database refuses the setting, or the connection has the tenant of the
caller as a value for the session. -/
def FindsTenant (conn : Session) (f : FetchCall F × Database F) : Prop :=
  f.2.set f.1.tenant conn = none → conn.settings "app.tenant_id" = some f.1.tenant

/-- On a connection without an open transaction the statement runs as if
nothing had been set. -/
theorem ranIn_of_idle {db : Database F} {call : FetchCall F} {conn : Session}
    (h : conn.Idle) (hset : db.set call.tenant conn = none) :
    (fetch db call conn).ranIn = some conn := by
  simp only [fetch, hset, Session.call_setLocal h]

/-- A fetch leaves no transaction open. -/
theorem idle_step {conn next : Session} {f : FetchCall F × Database F} (h : conn.Idle)
    (hstep : Step conn f next) : next.Idle := by
  have hafter : (fetch f.2 f.1 conn).after.Idle := by
    unfold fetch
    cases f.2.set f.1.tenant conn with
    | some failure => exact Session.idle_settle h.outside
    | none =>
        simp only [Session.call_setLocal h]
        refine Session.idle_call h fun t ht => ?_
        cases hquery : f.2.query f.1 conn with
        | error failure => simp [hquery, Except.toOption] at ht
        | ok answer =>
            obtain rfl : answer.2 = t := by simpa [hquery, Except.toOption] using ht
            exact f.2.query_inBlock f.1 conn answer.1 answer.2 hquery
  rw [hstep]
  exact ⟨hafter.outside, hafter.noLocals⟩

/-- Nor does any history of fetches. -/
theorem idle_of_run {start conn : Session} {history : List (FetchCall F × Database F)}
    (hstart : start.Idle) (hrun : Run Step start history conn) : conn.Idle :=
  hrun.invariant hstart fun _ _ _ h hstep => idle_step h hstep

/-- **When a fetch is for its tenant.**  After every history of fetches on a
connection, by any tenants, and whatever the database does in them: the next
fetch runs its statement in a session whose tenant is the caller's exactly if
it finds that tenant as a value for the session. -/
theorem fetch_isolated_iff {start conn : Session} {history : List (FetchCall F × Database F)}
    (hstart : start.Idle) (hrun : Run Step start history conn)
    (f : FetchCall F × Database F) : Isolated conn f ↔ FindsTenant conn f := by
  have hidle := idle_of_run hstart hrun
  cases hset : f.2.set f.1.tenant conn with
  | some failure => simp [Isolated, FindsTenant, fetch, hset]
  | none =>
      simp [Isolated, FindsTenant, ranIn_of_idle hidle hset, hset,
        Session.current_of_idle hidle]

/-- A fetch whose session says which tenant it is for finds its tenant. -/
theorem findsTenant_of_isolated {conn : Session} (h : conn.Idle)
    {f : FetchCall F × Database F} (hset : f.2.set f.1.tenant conn = none)
    (hisolated : Isolated conn f) : FindsTenant conn f := by
  simpa [Isolated, FindsTenant, ranIn_of_idle h hset, hset, Session.current_of_idle h]
    using hisolated

/-- So two tenants cannot both be served on a connection that comes back from
the pool with the same value each time. -/
theorem tenants_eq_of_isolated {conn : Session} (h : conn.Idle)
    {f g : FetchCall F × Database F} (hf : f.2.set f.1.tenant conn = none)
    (hg : g.2.set g.1.tenant conn = none) (hisolated : Isolated conn f ∧ Isolated conn g) :
    f.1.tenant = g.1.tenant := by
  have hfinds := findsTenant_of_isolated h hf hisolated.1 hf
  have hother := findsTenant_of_isolated h hg hisolated.2 hg
  exact Option.some.inj (hfinds.symm.trans hother)

end AsyncpgBackend

end Fetches

/-- A call that asks for the orders. -/
def ordersOf (tenant : String) : FetchCall WholeFloat where
  tenant
  input := { sql := "SELECT * FROM orders" }
  accepted := ⟨"SELECT * FROM orders", by
    rw [SelectGuard.mustBeSelect_ok_iff]
    decide +kernel⟩

/-- A database that takes the setting, finds no rows, and resets nothing. -/
def emptyDatabase : Database WholeFloat where
  set _ _ := none
  query _ session := .ok ([], session)
  reset settings := settings
  query_inBlock _ _ _ _ h := by
    obtain ⟨-, rfl⟩ := Prod.mk.inj (Except.ok.inj h)
    rfl

/-- A connection as it was opened. -/
def freshConnection : Session where
  settings _ := none

/-- The first statement on a new connection runs without a tenant. -/
theorem first_fetch_without_tenant :
    freshConnection.Idle ∧
      (AsyncpgBackend.fetch emptyDatabase (ordersOf "acme") freshConnection).ranIn =
        some freshConnection ∧
      freshConnection.current "app.tenant_id" = none ∧
      ¬ AsyncpgBackend.Isolated freshConnection (ordersOf "acme", emptyDatabase) := by
  have hidle : freshConnection.Idle := ⟨rfl, rfl⟩
  have hran : (AsyncpgBackend.fetch emptyDatabase (ordersOf "acme") freshConnection).ranIn =
      some freshConnection := AsyncpgBackend.ranIn_of_idle hidle rfl
  refine ⟨hidle, hran, rfl, fun hisolated => ?_⟩
  have hnone : freshConnection.current "app.tenant_id" = some "acme" :=
    hisolated freshConnection hran
  cases hnone

/-- One that a statement of `acme` has left with its tenant serves `acme`. -/
theorem left_tenant_served :
    let left : Session :=
      { settings := fun name => if name = "app.tenant_id" then "acme" else none }
    left.Idle ∧ (∃ conn, Run AsyncpgBackend.Step left [(ordersOf "globex", emptyDatabase)] conn ∧
      (AsyncpgBackend.Isolated conn (ordersOf "acme", emptyDatabase) ↔
        AsyncpgBackend.FindsTenant conn (ordersOf "acme", emptyDatabase)) ∧
      AsyncpgBackend.FindsTenant conn (ordersOf "acme", emptyDatabase)) := by
  intro left
  have hidle : left.Idle := ⟨rfl, rfl⟩
  have hrun : Run AsyncpgBackend.Step left [(ordersOf "globex", emptyDatabase)] left :=
    Run.snoc .nil rfl
  exact ⟨hidle, left, hrun, AsyncpgBackend.fetch_isolated_iff hidle hrun _, fun _ => rfl⟩

end Server
