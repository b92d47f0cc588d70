import Mathlib.Logic.Function.Basic

/-!
# Settings of a database session

A session of a database has settings, each with a value for the session and perhaps a
value for the current transaction only (`SET LOCAL`), which hides the other.  A command
that is sent outside a transaction block is a transaction of its own: when it has run, or
failed, what it set for the transaction is gone.

So a local setting made by a command of its own changes nothing (`call_setLocal`), and
what the next command finds is the value for the session (`current_of_idle`).
-/

namespace SqlSession

/-- `settings` holds the values for the session, `locals` those for the
current transaction. -/
structure Session where
  settings : String → Option String
  locals : String → Option String := fun _ => none
  inBlock : Bool := false

namespace Session

/-- `current_setting(name, true)`. -/
def current (s : Session) (name : String) : Option String :=
  (s.locals name).or (s.settings name)

/-- No transaction is open, so that nothing is set for one either. -/
structure Idle (s : Session) : Prop where
  outside : s.inBlock = false
  noLocals : s.locals = fun _ => none

/-- The end of a command: outside a block it ends the transaction. -/
def settle (s : Session) : Session :=
  if s.inBlock then s else { s with locals := fun _ => none }

/-- Send a command that runs as `f`, or fails and is rolled back. -/
def call (f : Session → Option Session) (s : Session) : Session :=
  ((f s).getD s).settle

/-- `SET LOCAL name = value`. -/
def setLocal (name value : String) (s : Session) : Option Session :=
  some { s with locals := Function.update s.locals name (some value) }

/-- What a transaction has set is gone after it, so a session outside of one
is idle once it has settled. -/
theorem idle_settle {s : Session} (h : s.inBlock = false) : s.settle.Idle := by
  obtain ⟨settings, locals, inBlock⟩ := s
  obtain rfl : inBlock = false := h
  exact ⟨rfl, rfl⟩

/-- A command that neither opens nor closes a block leaves no transaction
open. -/
theorem idle_call {f : Session → Option Session} {s : Session} (h : s.Idle)
    (hf : ∀ t, f s = some t → t.inBlock = s.inBlock) : (call f s).Idle := by
  apply idle_settle
  cases hs : f s with
  | none => exact h.outside
  | some t => exact (hf t hs).trans h.outside

/-- **A local setting outside a block is gone when the command ends.** -/
theorem call_setLocal {s : Session} (h : s.Idle) (name value : String) :
    call (setLocal name value) s = s := by
  obtain ⟨settings, locals, inBlock⟩ := s
  obtain ⟨rfl, rfl⟩ : inBlock = false ∧ locals = fun _ => none := ⟨h.outside, h.noLocals⟩
  rfl

/-- Outside a transaction the value is that of the session. -/
theorem current_of_idle {s : Session} (h : s.Idle) (name : String) :
    s.current name = s.settings name := by
  simp [current, h.noLocals]

end Session

end SqlSession
