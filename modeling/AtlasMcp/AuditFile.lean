import AtlasMcp.AuditTrail
import AtlasMcp.JsonLines

/-!
# The audit file

The audit log is a file of one JSON text a line.  `record` appends to it, `read_all` reads it
as a whole, and `query` looks in what is read for a tenant and a tool.

`query_of_run` says that after any run of the server the file answers with what was recorded,
in order, and with nothing else.  `read_of_cut` is about a file whose last record was not
written to its end.
-/

namespace Server

open PyJson PyText Errors GuardedRuns

variable {F : Type} [PyFloat F]

namespace AuditLogger

/-- The file after `record`; there is none before the first. -/
def record (F : Type) [PyFloat F] (file : Option (List Char)) (e : AuditEvent) :
    Option (List Char) :=
  some (file.getD [] ++ terminated (e.line F).toList)

/-- `[json.loads(line) for line in fh if line.strip()]`; `none` is a
`JSONDecodeError`. -/
def readLines (ls : List (List Char)) : Option (List (Value F)) :=
  (ls.filter fun line => strip line ≠ []).mapM fun line => loads (String.ofList line)

/-- `read_all()`. -/
def readAll : Option (List Char) → Option (List (Value F))
  | none => some []
  | some text => readLines (lines (universalNewlines text))

/-- `event[key] == text`; `none` is a `KeyError` or a `TypeError`. -/
def fieldIs (key text : String) : Value F → Option Bool
  | .dict kvs => (dictGet kvs key).map fun
    | .str s => s = text
    | _ => false
  | _ => none

/-- `[e for e in events if e[key] == text]`. -/
def select (key text : String) : List (Value F) → Option (List (Value F))
  | [] => some []
  | e :: es => do
      let found ← fieldIs key text e
      let rest ← select key text es
      return if found then e :: rest else rest

/-- `query(tenant=.., tool=..)`. -/
def query (file : Option (List Char)) (tenant tool : Option String) :
    Option (List (Value F)) := do
  let events ← readAll file
  let events ← tenant.elim (some events) fun tenant => select "tenant" tenant events
  tool.elim (some events) fun tool => select "tool" tool events

end AuditLogger

namespace AuditEvent

/-- The dictionary of an event is well formed: no key occurs twice in it. -/
theorem wf_toDict (e : AuditEvent) : (e.toDict (F := F)).Wf := by
  rcases e with ⟨ts, _ | traceId, tenant, caller, _ | delegator, tool, argsHash,
    durationMs, status, _ | errorCode⟩ <;>
  simp [toDict, optStr, Value.Wf, Value.WfMembers]

/-- The dictionary of an event is JSON, because its fields are. -/
theorem native_toDict (e : AuditEvent) : (e.toDict (F := F)).Native := by
  rcases e with ⟨ts, _ | traceId, tenant, caller, _ | delegator, tool, argsHash,
    durationMs, status, _ | errorCode⟩ <;>
  simp [toDict, optStr, Value.Native, Value.NativeMembers]

@[simp]
theorem toList_line (e : AuditEvent) : (e.line F).toList = encode (e.toDict (F := F)) :=
  String.toList_ofList

/-- A line has no control character in it, so no line end either. -/
theorem printable_line (e : AuditEvent) : Printable (e.line F).toList := by
  rw [toList_line]
  exact printable_encode _

/-- A line is read back as the event that it was written for. -/
theorem loads_terminated (e : AuditEvent) :
    loads (String.ofList (terminated (e.line F).toList)) = some (e.toDict (F := F)) := by
  rw [toList_line, PyJson.loads_terminated e.wf_toDict, Value.jsonify_of_native _ e.native_toDict]

/-- A line begins with a brace, and so is not blank. -/
theorem line_eq_cons (e : AuditEvent) : ∃ cs, (e.line F).toList = '{' :: cs := by
  rw [toList_line, toDict, encode]
  exact ⟨_, rfl⟩

/-- What a query asks for. -/
def Asked (tenant tool : Option String) (e : AuditEvent) : Bool :=
  tool.all (e.tool = ·) && tenant.all (e.tenant = ·)

end AuditEvent

namespace AuditLogger

/-- The text of a file that holds events. -/
def text (F : Type) [PyFloat F] (events : List AuditEvent) : List Char :=
  events.flatMap fun e => terminated (e.line F).toList

/-! ## Reading -/

theorem strip_brace (cs : List Char) : strip ('{' :: cs) ≠ [] := by
  intro h
  have hspace : isSpace '{' = false := by decide
  rw [strip, List.dropWhile_cons, hspace] at h
  have hall := List.rdropWhile_eq_nil_iff.mp h
  exact absurd (hall '{' (by simp)) (by simp [hspace])

/-- A line that begins with a brace is read, not skipped. -/
theorem readLines_brace {l : List Char} (h : ∃ cs, l = '{' :: cs) (ls : List (List Char)) :
    readLines (F := F) (l :: ls) =
      (loads (String.ofList l)).bind fun v => (readLines ls).map (v :: ·) := by
  obtain ⟨cs, rfl⟩ := h
  rw [readLines, List.filter_cons_of_pos (by simpa using strip_brace cs), List.mapM_cons]
  cases loads (F := F) (String.ofList ('{' :: cs)) with
  | none => rfl
  | some v => simp [readLines, Option.map_eq_bind]

@[simp]
theorem text_nil : text F [] = [] := rfl

/-- A file is the line of its first event, and the file of the others. -/
theorem text_cons (e : AuditEvent) (events : List AuditEvent) :
    text F (e :: events) = terminated (e.line F).toList ++ text F events :=
  List.flatMap_cons

/-- A record at the front of a file is read first. -/
theorem readAll_line (e : AuditEvent) (rest : List Char) :
    readAll (F := F) (some (terminated (e.line F).toList ++ rest)) =
      (readAll (some rest)).map (e.toDict :: ·) := by
  obtain ⟨cs, hcs⟩ := e.line_eq_cons (F := F)
  rw [readAll, universalNewlines_terminated (e.printable_line (F := F)),
    lines_terminated (e.printable_line (F := F)),
    readLines_brace ⟨cs ++ ['\n'], by rw [hcs]; rfl⟩, e.loads_terminated]
  rfl

/-- The file is read back as the events that it was written for, in their
order. -/
theorem readAll_text (events : List AuditEvent) :
    readAll (some (text F events)) = some (events.map (AuditEvent.toDict (F := F))) := by
  induction events with
  | nil => rfl
  | cons e events ih =>
      rw [text_cons, readAll_line, ih]
      rfl

/-- Recording writes the text of the events after what is in the file. -/
theorem foldl_record (events : List AuditEvent) (cs : List Char) :
    events.foldl (record F) (some cs) = some (cs ++ text F events) := by
  induction events generalizing cs with
  | nil => simp
  | cons e events ih =>
      rw [List.foldl_cons, record, ih, Option.getD_some, text_cons, List.append_assoc]

/-- The events that were recorded one after the other, in a file that did not
exist, are read back in their order. -/
theorem readAll_foldl_record (events : List AuditEvent) :
    readAll (events.foldl (record F) none) =
      some (events.map (AuditEvent.toDict (F := F))) := by
  cases events with
  | nil => rfl
  | cons e events =>
      have hfile := foldl_record (F := F) (e :: events) []
      have hrecord : record F none e = record F (some []) e := rfl
      rw [List.foldl_cons, hrecord, ← List.foldl_cons, hfile, List.nil_append,
        readAll_text]

/-- The filter for a tenant looks at the tenant of an event. -/
theorem fieldIs_tenant (e : AuditEvent) (tenant : String) :
    fieldIs "tenant" tenant (e.toDict (F := F)) = some (decide (e.tenant = tenant)) := rfl

/-- The filter for a tool looks at the tool of an event. -/
theorem fieldIs_tool (e : AuditEvent) (tool : String) :
    fieldIs "tool" tool (e.toDict (F := F)) = some (decide (e.tool = tool)) := rfl

/-- Filtering the records of a file is filtering its events. -/
theorem select_map {key text : String} {p : AuditEvent → Bool}
    (h : ∀ e, fieldIs key text (e.toDict (F := F)) = some (p e)) (events : List AuditEvent) :
    select key text (events.map AuditEvent.toDict) =
      some ((events.filter p).map (AuditEvent.toDict (F := F))) := by
  induction events with
  | nil => rfl
  | cons e events ih =>
      rw [List.map_cons, select, h, ih, List.filter_cons]
      cases p e <;> rfl

/-- **A query is answered with the events it asks for**, in the order of the
file. -/
theorem query_of_readAll {file : Option (List Char)} {events : List AuditEvent}
    (h : readAll file = some (events.map (AuditEvent.toDict (F := F))))
    (tenant tool : Option String) :
    query file tenant tool =
      some ((events.filter (AuditEvent.Asked tenant tool)).map (AuditEvent.toDict (F := F))) := by
  have htenant : ∀ es : List AuditEvent,
      (tenant.elim (some (es.map (AuditEvent.toDict (F := F)))) fun name =>
        select "tenant" name (es.map AuditEvent.toDict)) =
      some ((es.filter fun e => tenant.all (e.tenant = ·)).map AuditEvent.toDict) := by
    intro es
    cases tenant with
    | none => simp
    | some name => simpa using select_map (fun e => fieldIs_tenant e name) es
  have htool : ∀ es : List AuditEvent,
      (tool.elim (some (es.map (AuditEvent.toDict (F := F)))) fun name =>
        select "tool" name (es.map AuditEvent.toDict)) =
      some ((es.filter fun e => tool.all (e.tool = ·)).map AuditEvent.toDict) := by
    intro es
    cases tool with
    | none => simp
    | some name => simpa using select_map (fun e => fieldIs_tool e name) es
  simp only [query, h, Option.bind_eq_bind, Option.bind_some, htenant, htool,
    List.filter_filter]
  rfl

/-! ## A record that was not written to its end -/

/-- The first `n` records are whole, the break of the last line perhaps
missing. -/
def WholeLines (F : Type) [PyFloat F] (events : List AuditEvent) (n : ℕ)
    (cs : List Char) : Prop :=
  n ≤ events.length ∧ (cs = text F (events.take n) ∨ terminated cs = text F (events.take n))

/-- What is written of one line only. -/
theorem readAll_part (e : AuditEvent) {cs rest : List Char}
    (h : cs ++ rest = (e.line F).toList) (hne : cs ≠ []) :
    readAll (F := F) (some cs) = (loads (String.ofList cs)).map fun v => [v] := by
  obtain ⟨tail, htail⟩ := e.line_eq_cons (F := F)
  have hprintable : Printable cs := by
    have hall := e.printable_line (F := F)
    rw [← h] at hall
    exact (printable_append.mp hall).1
  have hbrace : ∃ u, cs = '{' :: u := by
    cases cs with
    | nil => exact absurd rfl hne
    | cons c u =>
        rw [htail] at h
        exact ⟨u, by rw [(List.cons.inj h).1]⟩
  have hsame : universalNewlines cs = cs := by
    have happend := universalNewlines_append hprintable []
    rwa [universalNewlines, List.append_nil] at happend
  rw [readAll, hsame, lines_unended hprintable hne, readLines_brace hbrace]
  cases loads (F := F) (String.ofList cs) <;> rfl

/-- After the line of the first event the rest has one whole line less. -/
theorem wholeLines_cons {e : AuditEvent} {events : List AuditEvent} {n : ℕ} {cs : List Char} :
    WholeLines F (e :: events) (n + 1) (terminated (e.line F).toList ++ cs) ↔
      WholeLines F events n cs := by
  rw [WholeLines, WholeLines, List.take_succ_cons, text_cons, List.length_cons,
    Nat.add_le_add_iff_right, List.append_cancel_left_eq]
  have happend : terminated (terminated (e.line F).toList ++ cs) =
      terminated (e.line F).toList ++ terminated cs := by
    rw [terminated, List.append_assoc]
    rfl
  rw [happend, List.append_cancel_left_eq]

/-- A text that is not empty is not the text of no line. -/
theorem not_wholeLines_zero {events : List AuditEvent} {cs : List Char} (h : cs ≠ []) :
    ¬ WholeLines F events 0 cs := by
  intro hwhole
  rcases hwhole.2 with hcs | hcs
  · exact h hcs
  · exact absurd hcs (by simp [terminated])

/-- What is shorter than a line is not made of whole lines. -/
theorem not_wholeLines_part {e : AuditEvent} {events : List AuditEvent} {cs : List Char}
    (hne : cs ≠ []) (hlt : cs.length < (e.line F).toList.length) (n : ℕ) :
    ¬ WholeLines F (e :: events) n cs := by
  cases n with
  | zero => exact not_wholeLines_zero hne
  | succ n =>
      intro hwhole
      have hlength : ∀ ds, ds = text F ((e :: events).take (n + 1)) →
          (e.line F).toList.length < ds.length := by
        intro ds hds
        rw [hds, List.take_succ_cons, text_cons, terminated, List.length_append,
          List.length_append, List.length_singleton]
        omega
      rcases hwhole.2 with hcs | hcs
      · have := hlength _ hcs
        omega
      · have hended := hlength _ hcs
        rw [terminated, List.length_append, List.length_singleton] at hended
        omega

/-- **A file that was cut short, at any point, is read as the records that are
whole, or not at all.**  What is read is never anything else than was
recorded. -/
theorem read_of_cut (events : List AuditEvent) (cs : List Char) (h : cs <+: text F events) :
    (∃ n, WholeLines F events n cs ∧
      readAll (some cs) = some ((events.take n).map (AuditEvent.toDict (F := F)))) ∨
    (∀ n, ¬ WholeLines F events n cs) ∧ readAll (F := F) (some cs) = none := by
  induction events generalizing cs with
  | nil =>
      obtain rfl := List.prefix_nil.mp h
      exact Or.inl ⟨0, ⟨le_refl _, Or.inl rfl⟩, rfl⟩
  | cons e events ih =>
      rw [text_cons] at h
      have hline := List.prefix_append (terminated (e.line F).toList) (text F events)
      rcases le_or_gt (terminated (e.line F).toList).length cs.length with hle | hlt
      · -- the first line is whole, and the rest is cut
        obtain ⟨rest, rfl⟩ := List.prefix_of_prefix_length_le hline h hle
        rw [readAll_line]
        rcases ih rest ((List.prefix_append_right_inj _).mp h) with
          ⟨n, hwhole, hread⟩ | ⟨hnone, hread⟩
        · exact Or.inl ⟨n + 1, wholeLines_cons.mpr hwhole, by rw [hread]; rfl⟩
        · refine Or.inr ⟨fun n => ?_, by rw [hread]; rfl⟩
          cases n with
          | zero => exact not_wholeLines_zero (by simp [terminated])
          | succ n => exact fun hwhole => hnone n (wholeLines_cons.mp hwhole)
      · -- the cut is in the first line
        have hpart : cs <+: (e.line F).toList := by
          have hcs := List.prefix_of_prefix_length_le h hline hlt.le
          rcases List.prefix_concat_iff.mp hcs with rfl | hcs
          · exact absurd hlt (lt_irrefl _)
          · exact hcs
        obtain ⟨rest, hrest⟩ := hpart
        by_cases hne : cs = []
        · subst hne
          exact Or.inl ⟨0, ⟨Nat.zero_le _, Or.inl rfl⟩, rfl⟩
        · rw [readAll_part e hrest hne]
          by_cases hnil : rest = []
          · rw [hnil, List.append_nil] at hrest
            refine Or.inl ⟨1, ⟨by simp, Or.inr ?_⟩, ?_⟩
            · rw [List.take_succ_cons, text_cons, hrest]
              simp
            · rw [hrest, String.ofList_toList, e.loads_line]
              simp
          · refine Or.inr ⟨not_wholeLines_part hne ?_, ?_⟩
            · rw [← hrest, List.length_append]
              have hpos := List.length_pos_of_ne_nil hnil
              omega
            · have htext : cs ++ rest = encode (e.toDict (F := F)) := by
                rw [hrest, AuditEvent.toList_line]
              rw [loads_torn e.wf_toDict htext hne hnil]
              rfl

end AuditLogger

/-- The record of a ping. -/
def pingEvent : AuditEvent where
  ts := "2026-01-01T00:00:00+00:00"
  traceId := none
  tenant := "acme"
  caller := "ops"
  delegator := none
  tool := "server.ping"
  argsHash := "sha256:"
  durationMs := 1000
  status := "ok"
  errorCode := none

/-- The first characters of it. -/
def cutPing : List Char := (pingEvent.line WholeFloat).toList.take 30

/-- They are not read. -/
theorem cut_ping_not_read : AuditLogger.readAll (F := WholeFloat) (some cutPing) = none := by
  have hcut : cutPing <+: AuditLogger.text WholeFloat [pingEvent] := by
    rw [AuditLogger.text_cons]
    exact (List.take_prefix _ _).trans ((List.prefix_append _ _).trans (List.prefix_append _ _))
  rcases AuditLogger.read_of_cut [pingEvent] cutPing hcut with ⟨n, hwhole, -⟩ | ⟨-, hread⟩
  · have hlt : cutPing.length < (pingEvent.line WholeFloat).toList.length := by decide +kernel
    exact absurd hwhole (AuditLogger.not_wholeLines_part (by decide +kernel) hlt n)
  · exact hread

namespace Trail

variable [UnicodeDb]

/-- A trail with the file of its log: each event that is logged is
recorded. -/
def filedStep (srv : AtlasServer F) (x : Trail F × Option (List Char))
    (e : Event F × String) : Option (Trail F × Option (List Char)) :=
  (x.1.step srv e).map fun u =>
    (u, ((u.log.drop x.1.log.length).map Prod.snd).foldl (AuditLogger.record F) x.2)

/-- The system takes its step, and appends the line of it to the file, if it
has one. -/
def FiledStep (srv : AtlasServer F) (x : Trail F × Option (List Char))
    (e : Event F × String) (y : Trail F × Option (List Char)) : Prop :=
  filedStep srv x e = some y

variable {srv : AtlasServer F} {t : Trail F}

/-- **The file answers for the whole run.**  Whatever the server does, a query
of the audit file is answered with exactly the events of the log that it asks
for, after those recorded earlier, in order and field for field; and the log
has each dispatch at most once, and tells of it who called with which
arguments. -/
theorem query_of_run (s : ServerState F) (earlier : List AuditEvent)
    {events : List (Event F × String)} {file : Option (List Char)}
    (h : Run (FiledStep srv) (ofState s, earlier.foldl (AuditLogger.record F) none) events
      (t, file)) (tenant tool : Option String) :
    AuditLogger.query file tenant tool =
        some (((earlier ++ t.log.map Prod.snd).filter (AuditEvent.Asked tenant tool)).map
          (AuditEvent.toDict (F := F))) ∧
      (t.log.map Prod.fst).Nodup ∧ ∀ y ∈ t.log, ∃ x ∈ t.ended, x.1 = y.1 ∧ y.2.Tells x.2 := by
  have hinv : t.Accurate ∧
      file = (earlier ++ t.log.map Prod.snd).foldl (AuditLogger.record F) none := by
    apply h.invariant (I := fun x : Trail F × Option (List Char) => x.1.Accurate ∧
      x.2 = (earlier ++ x.1.log.map Prod.snd).foldl (AuditLogger.record F) none)
    · refine ⟨⟨⟨rfl, ?_, ?_, ?_, ?_⟩, ?_, ?_⟩, ?_⟩ <;> simp [ofState]
    · intro x e y hx hstep
      obtain ⟨u, hu, rfl⟩ := Option.map_eq_some_iff.mp hstep
      obtain ⟨logged, ended, hlog, -⟩ := log_step hx.1.numbered hu
      refine ⟨hx.1.step hu, ?_⟩
      dsimp only
      rw [hlog, List.drop_left, List.map_append, ← List.append_assoc, List.foldl_append, ← hx.2]
  have hread : AuditLogger.readAll file =
      some ((earlier ++ t.log.map Prod.snd).map (AuditEvent.toDict (F := F))) := by
    rw [hinv.2]
    exact AuditLogger.readAll_foldl_record _
  exact ⟨AuditLogger.query_of_readAll hread tenant tool, hinv.1.nodup, hinv.1.tells⟩

end Trail

/-- A ping is found under its tenant, and not under another. -/
theorem ping_found_in_file : ∃ (t : Trail WholeFloat) (file : Option (List Char))
    (event : AuditEvent),
    Run (Trail.FiledStep pingServer) (Trail.ofState pingServer.initial, none) pingedOnTrail
        (t, file) ∧
      AuditLogger.query (F := WholeFloat) file (some "acme") none = some [event.toDict] ∧
      event.status = "ok" ∧
      AuditLogger.query (F := WholeFloat) file (some "globex") none = some [] := by
  obtain ⟨⟨t, file⟩, ht, hlog⟩ :
      ∃ x ∈ exec (Trail.filedStep pingServer) (Trail.ofState pingServer.initial, none)
        pingedOnTrail,
        x.1.log.map (fun y => (y.2.tenant, y.2.status)) = [("acme", "ok")] := by
    decide +kernel
  obtain ⟨⟨n, event⟩, hlog, hevent⟩ := List.map_eq_singleton_iff.mp hlog
  obtain ⟨htenant, hstatus⟩ := Prod.mk.inj hevent
  dsimp only at htenant hstatus hlog
  have hrun : Run (Trail.FiledStep pingServer) (Trail.ofState pingServer.initial, none)
      pingedOnTrail (t, file) := Run.of_exec ht
  have hquery := fun tenant =>
    (Trail.query_of_run pingServer.initial [] hrun (some tenant) none).1
  refine ⟨t, file, event, hrun, ?_, hstatus, ?_⟩
  · rw [hquery, hlog]
    simp [AuditEvent.Asked, htenant]
  · rw [hquery, hlog]
    simp [AuditEvent.Asked, htenant]

end Server
