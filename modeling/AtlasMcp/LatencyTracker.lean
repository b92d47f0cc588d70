import AtlasMcp.ErrorFramework

/-!
# Latency estimates and call timeouts

`LatencyTracker` keeps the last durations of each tool; `timeoutFor` turns their 95th
percentile into the timeout of a call.  The server starts no turn budget, so the
timeout depends on the tracker alone.
-/

namespace Reliability

variable {F : Type}

/-- The last durations of each tool.  The oldest duration comes first. -/
structure LatencyTracker where
  window : ℕ := 500
  samples : AList (fun _ : String => List ℚ) := ∅

namespace LatencyTracker

/-- `LatencyTracker.record`: the new duration goes to the end, and the oldest
ones go where there are more than the window has room for. -/
def record (t : LatencyTracker) (tool : String) (durationS : ℚ) : LatencyTracker :=
  let old := (t.samples.lookup tool).getD []
  let new := old ++ [durationS]
  { t with samples := t.samples.insert tool (new.drop (new.length - t.window)) }

def p95 (t : LatencyTracker) (tool : String) : ℚ :=
  match t.samples.lookup tool with
  | none => 5
  | some samples =>
      if samples.length < 20 then 5
      else
        let ordered := samples.insertionSort (· ≤ ·)
        let idx := samples.length * 95 / 100
        ordered.getD (min idx (ordered.length - 1)) 0

/-- `ATBA.timeout_for` outside a turn. -/
def timeoutFor (t : LatencyTracker) (tool : String) : ℚ :=
  max (1 / 2) (t.p95 tool * (3 / 2))

end LatencyTracker

end Reliability
