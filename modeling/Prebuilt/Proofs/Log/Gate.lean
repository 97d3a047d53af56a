import Mathlib.Data.Fintype.EquivFin
import Prebuilt.Log.Logger

/-!
# The gate in front of the filter

A logger keeps a threshold beside its filter, so that most records are
refused without a look at the topics. After `configure` and `setFilter`
the threshold is the filter's least level, and the gate refuses nothing
that the filter admits (`minLevel_le_of_admits`), while a level that it
lets through is admitted for some topic (`minLevel_le_iff_exists_admits`).
`setLevel` moves the threshold to the new default level alone: a topic
whose own level lies below is then cut off although the filter still
admits it.

`Gated` is the invariant that a history of requests keeps: it says which
of the two the last request about levels was. From it,
`shouldLog_eq_admits_iff` tells exactly when gate and filter agree.
-/

namespace Prebuilt.Log

namespace Filter

/-! ## The least level -/

theorem foldl_least_le_iff {level : Level} (overrides : List (Bytes × Level)) (least : Level) :
    overrides.foldl (fun least o => if o.2 < least then o.2 else least) least ≤ level
      ↔ least ≤ level ∨ ∃ o ∈ overrides, o.2 ≤ level := by
  induction overrides generalizing least with
  | nil => simp
  | cons o rest ih =>
      have hleast : (if o.2 < least then o.2 else least) ≤ level ↔
          least ≤ level ∨ o.2 ≤ level := by
        by_cases hlt : o.2 < least
        · rw [if_pos hlt]
          exact ⟨Or.inr, fun h => h.elim (Int.le_trans (Int.le_of_lt hlt)) id⟩
        · rw [if_neg hlt]
          exact ⟨Or.inl, fun h => h.elim id (Int.le_trans (Int.not_lt.mp hlt))⟩
      rw [List.foldl_cons, ih, hleast, or_assoc]
      simp only [List.mem_cons, exists_eq_or_imp]

theorem minLevel_le_iff {f : Filter} {level : Level} :
    f.minLevel ≤ level ↔ f.default ≤ level ∨ ∃ o ∈ f.overrides, o.2 ≤ level :=
  foldl_least_le_iff f.overrides f.default

theorem mem_of_levelIn {name : Bytes} {level : Level} :
    ∀ {overrides : List (Bytes × Level)}, levelIn name overrides = some level →
      (name, level) ∈ overrides
  | [], h => by simp [levelIn] at h
  | (k, l) :: rest, h => by
      rw [levelIn] at h
      by_cases hk : k = name
      · rw [if_pos hk] at h
        obtain rfl := Option.some.inj h
        exact hk ▸ List.mem_cons_self ..
      · rw [if_neg hk] at h
        exact List.mem_cons_of_mem _ (mem_of_levelIn h)

theorem admits_iff {f : Filter} {level : Level} {topic : Bytes} :
    f.admits level topic = true ↔ f.threshold topic ≤ level := by
  rw [admits, decide_eq_true_eq]

/-- What is shown of a topic tells its least level. -/
theorem admits_eq_iff {f g : Filter} {topic : Bytes} :
    (∀ level, f.admits level topic = g.admits level topic)
      ↔ f.threshold topic = g.threshold topic := by
  constructor
  · intro h
    refine Int.le_antisymm (admits_iff.mp ?_) (admits_iff.mp ?_)
    · exact (h _).trans (admits_iff.mpr (Int.le_refl _))
    · exact (h _).symm.trans (admits_iff.mpr (Int.le_refl _))
  · intro h level
    rw [admits, admits, h]

/-- No topic is shown below the least level. -/
theorem minLevel_le_of_admits {f : Filter} {level : Level} {topic : Bytes}
    (h : f.admits level topic = true) : f.minLevel ≤ level := by
  rw [admits_iff, threshold] at h
  refine minLevel_le_iff.mpr ?_
  cases hown : levelIn topic f.overrides with
  | none =>
      rw [hown] at h
      exact Or.inl h
  | some own =>
      rw [hown] at h
      exact Or.inr ⟨(topic, own), mem_of_levelIn hown, h⟩

/-- The topics that have a level of their own. -/
def named (f : Filter) : List Bytes := f.overrides.map Prod.fst

theorem threshold_of_notMem_named {f : Filter} {topic : Bytes} (h : topic ∉ f.named) :
    f.threshold topic = f.default := by
  have hnone : levelIn topic f.overrides = none := by
    rw [Option.eq_none_iff_forall_ne_some]
    exact fun level hlevel => h (List.mem_map_of_mem (mem_of_levelIn hlevel))
  rw [threshold, hnone, Option.getD_none]

/-- There is always a topic left that nobody has named. -/
theorem exists_topic_notMem (topics : List Bytes) : ∃ topic, topic ∉ topics := by
  obtain ⟨topic, htopic⟩ := Infinite.exists_notMem_finset topics.toFinset
  exact ⟨topic, fun hmem => htopic (List.mem_toFinset.mpr hmem)⟩

theorem levelIn_of_mem {name : Bytes} {level : Level} {overrides : List (Bytes × Level)}
    (hnodup : (overrides.map Prod.fst).Nodup) (h : (name, level) ∈ overrides) :
    levelIn name overrides = some level := by
  induction overrides with
  | nil => cases h
  | cons o rest ih =>
      obtain ⟨hnew, hrest⟩ := List.nodup_cons.mp hnodup
      rw [levelIn]
      rcases List.mem_cons.mp h with rfl | h
      · rw [if_pos rfl]
      · have hne : o.1 ≠ name := fun heq => hnew (heq ▸ List.mem_map_of_mem h)
        rw [if_neg hne, ih hrest h]

theorem nodup_named_override {f : Filter} (h : f.named.Nodup) (name : Bytes) (level : Level) :
    (f.override name level).named.Nodup := by
  refine List.nodup_cons.mpr ⟨fun hmem => ?_, ?_⟩
  · obtain ⟨o, ho, heq⟩ := List.mem_map.mp hmem
    exact of_decide_eq_true (List.mem_filter.mp ho).2 heq
  · exact h.sublist (List.filter_sublist.map Prod.fst)

theorem nodup_named_foldl_apply (cs : List Clause) {f : Filter} (h : f.named.Nodup) :
    (cs.foldl apply f).named.Nodup := by
  induction cs generalizing f with
  | nil => exact h
  | cons clause rest ih =>
      cases clause with
      | all level => exact ih h
      | topic name level => exact ih (nodup_named_override h name level)

theorem nodup_named_parse (f : Filter) (spec : Bytes) : (f.parse spec).named.Nodup :=
  nodup_named_foldl_apply (clauses spec) List.nodup_nil

/-- The least level is that of a topic: of a named one, or of any that
is not. -/
theorem minLevel_le_iff_exists_admits {f : Filter} (hnamed : f.named.Nodup) {level : Level} :
    f.minLevel ≤ level ↔ ∃ topic, f.admits level topic = true := by
  constructor
  · intro h
    rcases minLevel_le_iff.mp h with hdefault | ⟨⟨name, own⟩, hmem, hown⟩
    · obtain ⟨topic, htopic⟩ := exists_topic_notMem f.named
      exact ⟨topic, admits_iff.mpr ((threshold_of_notMem_named htopic).trans_le hdefault)⟩
    · refine ⟨name, admits_iff.mpr ?_⟩
      rwa [threshold, levelIn_of_mem hnamed hmem]
  · rintro ⟨topic, h⟩
    exact minLevel_le_of_admits h

theorem minLevel_eq_of_admits_eq {f g : Filter} (hf : f.named.Nodup) (hg : g.named.Nodup)
    (h : ∀ level topic, f.admits level topic = g.admits level topic) :
    f.minLevel = g.minLevel := by
  have hiff : ∀ {level : Level}, f.minLevel ≤ level ↔ g.minLevel ≤ level := by
    intro level
    rw [minLevel_le_iff_exists_admits hf, minLevel_le_iff_exists_admits hg]
    exact exists_congr fun topic => by rw [h]
  exact Int.le_antisymm (hiff.mpr (Int.le_refl _)) (hiff.mp (Int.le_refl _))

end Filter

namespace Logger

/-! ## Histories of requests -/

def performAll (around : Surroundings) :
    Logger → Outlets → List Request → Logger × Outlets
  | logger, out, [] => (logger, out)
  | logger, out, request :: rest =>
      let (logger, out) := perform around logger out request
      performAll around logger out rest

/-- The level that `setLevel` has put before the filter, as long as no
later request has set the filter. -/
def cutAfter (cut : Option Level) : Request → Option Level
  | .setLevel level => some level
  | .configure _ => none
  | .setFilter _ => none
  | .keepInMemory => cut
  | .dropSinks => cut
  | .flush => cut
  | .log _ => cut
  | .write _ => cut

def lastCut (requests : List Request) : Option Level := requests.foldl cutAfter none

/-! ## What the threshold stands for -/

/-- The threshold sums up the filter, or it is the default level that
`setLevel` has set. -/
def Gated (logger : Logger) : Option Level → Prop
  | none => logger.threshold = logger.filter.minLevel
  | some cut => logger.threshold = cut ∧ logger.filter.default = cut

theorem gated_atLevel (level : Level) (sinks : List Sink) :
    Gated (atLevel level sinks) none := rfl

theorem gated_configure (around : Surroundings) (settings : Settings) (out : Outlets) :
    Gated (configure around settings out).1 none := by
  unfold configure
  by_cases hfile : settings.logFile = []
  · simp only [hfile, if_true]
    rfl
  · simp only [hfile, if_false]
    split <;> rfl

theorem gated_of_eq {logger next : Logger} {cut : Option Level}
    (hthreshold : next.threshold = logger.threshold) (hfilter : next.filter = logger.filter)
    (h : Gated logger cut) : Gated next cut := by
  cases cut <;> simpa only [Gated, hthreshold, hfilter] using h

/-- One case for each request: `configure` and `setFilter` sum up the
filter anew, `setLevel` cuts, and the others leave both fields alone. -/
theorem gated_perform (around : Surroundings) {logger : Logger} {cut : Option Level}
    (h : Gated logger cut) (out : Outlets) (request : Request) :
    Gated (perform around logger out request).1 (cutAfter cut request) := by
  cases request with
  | configure settings => exact gated_configure around settings out
  | setLevel level => exact ⟨rfl, rfl⟩
  | setFilter spec => exact (rfl : _ = _)
  | keepInMemory => exact gated_of_eq rfl rfl h
  | dropSinks => exact gated_of_eq rfl rfl h
  | flush => exact gated_of_eq rfl rfl h
  | log r =>
      simp only [perform, cutAfter, log]
      split
      · exact gated_of_eq rfl rfl h
      · exact h
  | write r => exact gated_of_eq rfl rfl h

theorem gated_performAll (around : Surroundings) (requests : List Request) :
    ∀ {logger : Logger} {cut : Option Level}, Gated logger cut → ∀ out : Outlets,
      Gated (performAll around logger out requests).1 (requests.foldl cutAfter cut) := by
  induction requests with
  | nil => exact fun h _ => h
  | cons request rest ih => exact fun h out => ih (gated_perform around h out request) _

/-! ## Gate and filter -/

theorem shouldLog_iff {logger : Logger} {level : Level} {topic : Bytes} :
    logger.shouldLog level topic = true
      ↔ logger.threshold ≤ level ∧ logger.filter.admits level topic = true := by
  rw [shouldLog, Bool.and_eq_true, decide_eq_true_eq]

/-- Gate and filter disagree only on what the filter admits and the
threshold refuses. -/
theorem shouldLog_eq_iff {logger : Logger} {level : Level} {topic : Bytes} :
    logger.shouldLog level topic = logger.filter.admits level topic
      ↔ (logger.filter.admits level topic = true → logger.threshold ≤ level) := by
  constructor
  · intro heq hadmits
    exact (shouldLog_iff.mp (heq.trans hadmits)).1
  · intro hgate
    cases hadmits : logger.filter.admits level topic with
    | true => exact shouldLog_iff.mpr ⟨hgate hadmits, hadmits⟩
    | false => rw [shouldLog, hadmits, Bool.and_false]

/-- With a cut in force the filter admits a level below it only by the
topic's own level. -/
theorem admits_below_iff {logger : Logger} {cut level : Level} {topic : Bytes}
    (h : Gated logger (some cut)) (hlevel : level < cut) :
    logger.filter.admits level topic = true
      ↔ ∃ own, Filter.levelIn topic logger.filter.overrides = some own ∧ own ≤ level := by
  obtain ⟨-, hdefault⟩ := h
  rw [Filter.admits_iff, Filter.threshold]
  cases hown : Filter.levelIn topic logger.filter.overrides with
  | none =>
      rw [Option.getD_none, hdefault]
      simp only [reduceCtorEq, false_and, exists_false, iff_false, Int.not_le]
      exact hlevel
  | some own => simp

/-- After any history the gate lets through exactly what the filter
admits, except after a `setLevel` that no later request about the filter
has overtaken: there it cuts off the topics whose own level lies below
the level set. -/
theorem shouldLog_eq_admits_iff (around : Surroundings) (start : Level) (sinks : List Sink)
    (out : Outlets) (requests : List Request) (level : Level) (topic : Bytes) :
    let logger := (performAll around (atLevel start sinks) out requests).1
    logger.shouldLog level topic = logger.filter.admits level topic
      ↔ ∀ cut, lastCut requests = some cut → level < cut →
          ∀ own, Filter.levelIn topic logger.filter.overrides = some own → level < own := by
  intro logger
  have hgated : Gated logger (lastCut requests) :=
    gated_performAll around requests (gated_atLevel start sinks) out
  rw [shouldLog_eq_iff]
  constructor
  · intro hgate cut hcut hlevel own hown
    rw [hcut] at hgated
    refine Int.not_le.mp fun hle => ?_
    have hadmits := (admits_below_iff hgated hlevel).mpr ⟨own, hown, hle⟩
    have hthreshold := hgate hadmits
    rw [hgated.1] at hthreshold
    exact Int.not_lt.mpr hthreshold hlevel
  · intro hown hadmits
    cases hcut : lastCut requests with
    | none =>
        rw [hcut] at hgated
        exact (show logger.threshold = _ from hgated) ▸ Filter.minLevel_le_of_admits hadmits
    | some cut =>
        rw [hcut] at hgated
        rw [hgated.1]
        refine Int.not_lt.mp fun hlt => ?_
        obtain ⟨own, hin, hle⟩ := (admits_below_iff hgated hlt).mp hadmits
        exact Int.not_lt.mpr hle (hown cut hcut hlt own hin)

/-- `build` is to be shown from `trace` on, but `setLevel` cuts it off. -/
theorem shouldLog_ne_admits_after_setLevel :
    let around : Surroundings := ⟨[], false, Layout.plain []⟩
    let logger := (performAll around (atLevel Level.info []) ⟨FileTree.empty [], [], []⟩
      [.setFilter "build=trace", .setLevel Level.warn]).1
    logger.filter.admits Level.trace "build" = true
      ∧ logger.shouldLog Level.trace "build" = false := by
  decide

end Logger

end Prebuilt.Log
