import Prebuilt.Proofs.Log.Specification

/-!
# The least level as a gate

No filter names a topic twice, whatever calls have made it
(`nodup_named_ofCalls`), and neither does that of a logger, whatever it
was asked for (`nodup_named_performAll`). Its least level is therefore
that of a topic, and of one that no other entry hides.

Until a `setLevel` moves it, the threshold of a logger is this least
level, so the gate is exact: it refuses a level without asking the filter
only if the filter admits that level for no topic (`gate_exact`).
-/

namespace Prebuilt.Log

namespace Filter

theorem nodup_named_ofCalls (calls : List Call) : (ofCalls calls).named.Nodup := by
  have hcalls : ∀ {f : Filter}, f.named.Nodup → (calls.foldl perform f).named.Nodup := by
    induction calls with
    | nil => exact id
    | cons call rest ih =>
        intro f hf
        cases call with
        | setDefault level => exact ih hf
        | parse spec => exact ih (nodup_named_parse f spec)
  exact hcalls List.nodup_nil

end Filter

namespace Logger

/-! ## The filter of a logger -/

theorem nodup_named_filterFor (settings : Settings) : (filterFor settings).named.Nodup := by
  unfold filterFor
  dsimp only
  split
  · exact List.nodup_nil
  · exact Filter.nodup_named_parse _ _

theorem filter_configure (around : Surroundings) (settings : Settings) (out : Outlets) :
    (configure around settings out).1.filter = filterFor settings := by
  unfold configure
  dsimp only
  split
  · rfl
  · split <;> rfl

/-- One case for each request: `configure` and `setFilter` make a filter,
and the others leave its names alone. -/
theorem nodup_named_perform (around : Surroundings) {logger : Logger}
    (h : logger.filter.named.Nodup) (out : Outlets) (request : Request) :
    (perform around logger out request).1.filter.named.Nodup := by
  cases request with
  | configure settings =>
      show (configure around settings out).1.filter.named.Nodup
      rw [filter_configure]
      exact nodup_named_filterFor settings
  | setLevel level => exact h
  | setFilter spec => exact Filter.nodup_named_parse logger.filter spec
  | keepInMemory => exact h
  | dropSinks => exact h
  | flush => exact h
  | log r =>
      simp only [perform, log]
      split <;> exact h
  | write r => exact h

theorem nodup_named_performAll (around : Surroundings) (requests : List Request) :
    ∀ {logger : Logger}, logger.filter.named.Nodup → ∀ out : Outlets,
      (performAll around logger out requests).1.filter.named.Nodup := by
  induction requests with
  | nil => exact fun h _ => h
  | cons request rest ih => exact fun h out => ih (nodup_named_perform around h out request) _

/-! ## The gate -/

/-- The gate lets through just the levels that some topic is shown at. -/
def GateExact (logger : Logger) : Prop :=
  ∀ level, logger.threshold ≤ level ↔ ∃ topic, logger.filter.admits level topic = true

theorem gateExact_of_gated {logger : Logger} (hnamed : logger.filter.named.Nodup)
    (h : Gated logger none) : logger.GateExact := by
  intro level
  rw [show logger.threshold = logger.filter.minLevel from h]
  exact Filter.minLevel_le_iff_exists_admits hnamed

/-- The gate stays exact for as long as nothing cuts. -/
theorem gateExact_performAll (around : Surroundings) (start : Level) (sinks : List Sink)
    (out : Outlets) {requests : List Request} (h : lastCut requests = none) :
    (performAll around (atLevel start sinks) out requests).1.GateExact := by
  have hnamed : (atLevel start sinks).filter.named.Nodup := List.nodup_nil
  have hgated := gated_performAll around requests (gated_atLevel start sinks) out
  rw [show requests.foldl cutAfter none = none from h] at hgated
  exact gateExact_of_gated (nodup_named_performAll around requests hnamed out) hgated

theorem lastCut_concat (requests : List Request) (request : Request) :
    lastCut (requests ++ [request]) = cutAfter (lastCut requests) request := by
  rw [lastCut, List.foldl_append]
  rfl

/-- A level is not below the least level of a filter exactly if the
filter admits it for some topic, whatever calls have made the filter. The
threshold of a logger is exact in this sense once a history has ended in
`configure` or `setFilter`, so that what it refuses then is admitted for
no topic at all. -/
theorem gate_exact (around : Surroundings) (start : Level) (sinks : List Sink) (out : Outlets)
    (requests : List Request) (calls : List Filter.Call) (level : Level) :
    ((Filter.ofCalls calls).minLevel ≤ level ↔
      ∃ topic, (Filter.ofCalls calls).admits level topic = true) ∧
    (∀ settings,
      (performAll around (atLevel start sinks) out (requests ++ [.configure settings])).1.GateExact) ∧
    ∀ spec,
      (performAll around (atLevel start sinks) out (requests ++ [.setFilter spec])).1.GateExact := by
  refine ⟨Filter.minLevel_le_iff_exists_admits (Filter.nodup_named_ofCalls calls),
    fun settings => ?_, fun spec => ?_⟩
  · exact gateExact_performAll around start sinks out (lastCut_concat requests _)
  · exact gateExact_performAll around start sinks out (lastCut_concat requests _)

end Logger

end Prebuilt.Log
