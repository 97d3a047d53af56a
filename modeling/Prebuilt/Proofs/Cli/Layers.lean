import Prebuilt.Proofs.Cli.Scan
import Prebuilt.Proofs.Cli.Verdict
import Prebuilt.Proofs.Log.Reach

/-!
# The layers of a configuration

A command works with the built-in configuration, changed by the manifest
and then by the overrides: each field has the value of the last override
that gives it one, and otherwise what is below. Overrides of different
fields, the choice of the manifest, log options and the command do not
interfere, so only the order within each of these kinds counts
(`handed_layers`).
-/

namespace Prebuilt

namespace Config

/-! ## Overrides -/

theorem override?_eq_some_iff {arg value : Bytes} {f : Field} :
    override? arg = some (f, value) ↔ arg.after? f.option = some value := by
  have hsound : ∀ {g : Field} {w : Bytes}, override? arg = some (g, w) →
      arg.after? g.option = some w := by
    intro g w h
    obtain ⟨g', -, hg'⟩ := List.exists_of_findSome?_eq_some h
    obtain ⟨w', hw', heq⟩ := Option.map_eq_some_iff.mp hg'
    obtain ⟨rfl, rfl⟩ := Prod.mk.inj heq
    exact hw'
  refine ⟨hsound, fun h => ?_⟩
  have hsome : (override? arg).isSome := by
    refine List.findSome?_isSome_iff.mpr ⟨f, by cases f <;> decide, ?_⟩
    rw [h]
    rfl
  obtain ⟨⟨g, w⟩, hgw⟩ := Option.isSome_iff_exists.mp hsome
  have hg := hsound hgw
  by_cases hfg : g = f
  · subst hfg
    rw [hgw, Option.some.inj (hg.symm.trans h)]
  · have hapart : ¬ f.option <+: g.option ∧ ¬ g.option <+: f.option := by
      revert hfg
      cases f <;> cases g <;> decide
    rw [Bytes.after?_eq_none h hapart.1 hapart.2] at hg
    cases hg

/-- An argument that is no override gives no field a value. -/
theorem after?_eq_none_of_override? {arg : Bytes} (h : override? arg = none) (f : Field) :
    arg.after? f.option = none := by
  rw [Option.eq_none_iff_forall_ne_some]
  intro value hvalue
  rw [override?_eq_some_iff.mpr hvalue] at h
  cases h

/-- An override gives just its field a value. -/
theorem after?_of_override? {arg value : Bytes} {f : Field} (h : override? arg = some (f, value))
    (g : Field) : arg.after? g.option = if g = f then some value else none := by
  by_cases hgf : g = f
  · rw [if_pos hgf, hgf, override?_eq_some_iff.mp h]
  · rw [if_neg hgf, Option.eq_none_iff_forall_ne_some]
    intro value' hvalue'
    rw [override?_eq_some_iff.mpr hvalue'] at h
    exact hgf (Prod.mk.inj (Option.some.inj h)).1

/-- The configuration with these values for the fields that the command
line can replace. -/
def withFields (c : Config) (value : Field → Bytes) : Config :=
  { c with
    source := value .source
    outDir := value .outDir
    archive := value .archive
    toolchain :=
      { c.toolchain with
        compiler := value .compiler
        archiver := value .archiver
        march := value .march
        mabi := value .mabi } }

theorem withFields_get (c : Config) : c.withFields (·.get c) = c := rfl

theorem withFields_set (c : Config) (f : Field) (v : Bytes) (value : Field → Bytes) :
    (f.set c v).withFields value = c.withFields value := by
  cases f <;> rfl

end Config

namespace Cli

open Config (Field)

/-- What an argument gives a field. To `stage`, the output directory is
not a field. -/
def fieldIn (command : Command) (f : Field) (arg : Bytes) : Option Bytes :=
  if command = .stage ∧ f = .outDir then none else arg.after? f.option

/-- What an argument gives as the directory to stage into. -/
def stageDirIn (command : Command) (arg : Bytes) : Option Path :=
  if command = .stage then arg.after? Field.outDir.option else none

/-- The plan after an argument that may be an override. -/
def Plan.add (command : Command) (plan : Plan) (arg : Bytes) : Plan :=
  match Config.override? arg with
  | none => plan
  | some (f, value) =>
      if command = .stage ∧ f = .outDir then { plan with stageDir := value }
      else { plan with config := f.set plan.config value }

namespace Plan

variable {command : Command} {plan plan' : Plan}

theorem applyOverride_eq (command : Command) (plan : Plan) (arg : Bytes) :
    plan.applyOverride command arg =
      if (Config.override? arg).isSome then .ok (plan.add command arg)
      else .error (.unknownOption arg) := by
  unfold applyOverride Config.applyOverride? add
  cases hoverride : Config.override? arg with
  | none =>
      rw [Config.after?_eq_none_of_override? hoverride]
      cases command <;> rfl
  | some given =>
      obtain ⟨f, value⟩ := given
      rw [Config.after?_of_override? hoverride]
      cases command <;> cases f <;> rfl

theorem applyOverrides_eq_ok_iff {args : List Bytes} :
    plan.applyOverrides command args = .ok plan' ↔
      (∀ arg ∈ args, (Config.override? arg).isSome) ∧ args.foldl (add command) plan = plan' := by
  induction args generalizing plan with
  | nil => simp [applyOverrides]
  | cons arg rest ih =>
      rw [applyOverrides, applyOverride_eq]
      by_cases harg : (Config.override? arg).isSome
      · simp [harg, ih]
      · simp [harg]

theorem get_add (f : Field) (plan : Plan) (arg : Bytes) :
    f.get (plan.add command arg).config = (fieldIn command f arg).getD (f.get plan.config) := by
  unfold add fieldIn
  cases hoverride : Config.override? arg with
  | none => simp [Config.after?_eq_none_of_override? hoverride]
  | some given =>
      obtain ⟨g, value⟩ := given
      rw [Config.after?_of_override? hoverride]
      by_cases hdir : command = .stage ∧ g = .outDir
      · obtain ⟨rfl, rfl⟩ := hdir
        by_cases hf : f = .outDir <;> simp [hf]
      · by_cases hf : f = g
        · subst hf
          simp [hdir, Config.Field.get_set]
        · simp [hdir, hf, Config.Field.get_set]

theorem stageDir_add (plan : Plan) (arg : Bytes) :
    (plan.add command arg).stageDir = (stageDirIn command arg).getD plan.stageDir := by
  unfold add stageDirIn
  cases hoverride : Config.override? arg with
  | none => simp [Config.after?_eq_none_of_override? hoverride]
  | some given =>
      obtain ⟨g, value⟩ := given
      rw [Config.after?_of_override? hoverride]
      by_cases hstage : command = .stage
      · by_cases hg : g = .outDir
        · simp [hstage, hg]
        · simp [hstage, hg, Ne.symm hg]
      · simp [hstage]

theorem withFields_add (plan : Plan) (arg : Bytes) (value : Field → Bytes) :
    (plan.add command arg).config.withFields value = plan.config.withFields value := by
  unfold add
  split
  · rfl
  · split
    · rfl
    · exact Config.withFields_set ..

/-- Overrides leave everything else as it is. -/
theorem withFields_foldl_add (plan : Plan) (args : List Bytes) (value : Field → Bytes) :
    (args.foldl (add command) plan).config.withFields value = plan.config.withFields value := by
  induction args generalizing plan with
  | nil => rfl
  | cons arg rest ih => exact (ih _).trans (withFields_add plan arg value)

end Plan

/-! ## The whole command line -/

/-- The value that the arguments give a field. -/
def given (command : Command) (args : List Bytes) (f : Field) : Option Bytes :=
  if command = .stage ∧ f = .outDir then none else lastGiven f.option args

/-- The directory to stage into that the arguments give. -/
def stageDirOf (command : Command) (args : List Bytes) : Path :=
  if command = .stage then (lastGiven Field.outDir.option args).getD [] else []

/-- The base configuration under the fields that the arguments give. -/
def Plan.layered (command : Command) (args : List Bytes) (base : Config) : Plan where
  config := base.withFields fun f => (given command args f).getD (f.get base)
  stageDir := stageDirOf command args

variable {command : Command} {plan : Plan} {files : FileTree} {args : List Bytes}

theorem filterMap_fieldIn (command : Command) (args : List Bytes) (f : Field) :
    ((overridesIn args).filterMap (fieldIn command f)).getLast? = given command args f := by
  rw [overridesIn, List.filterMap_filterMap]
  unfold fieldIn given
  split
  · simp
  · simp only [Argument.override?_ofText_bind]
    rfl

theorem filterMap_stageDirIn (command : Command) (args : List Bytes) :
    ((overridesIn args).filterMap (stageDirIn command)).getLast?.getD []
      = stageDirOf command args := by
  rw [overridesIn, List.filterMap_filterMap]
  unfold stageDirIn stageDirOf
  split
  · simp only [Argument.override?_ofText_bind]
    rfl
  · rw [List.filterMap_eq_nil_iff.mpr fun _ _ => Option.bind_fun_none _]
    rfl

/-- Applied one after the other, the overrides make the layered plan. -/
theorem foldl_add (command : Command) (args : List Bytes) (base : Config) :
    (overridesIn args).foldl (Plan.add command) ⟨base, []⟩ = .layered command args base := by
  have hfield : ∀ f : Field,
      f.get ((overridesIn args).foldl (Plan.add command) ⟨base, []⟩).config
        = (given command args f).getD (f.get base) := by
    intro f
    rw [foldl_last (fun plan : Plan => f.get plan.config) (Plan.get_add f),
      filterMap_fieldIn]
  have hstage : ((overridesIn args).foldl (Plan.add command) ⟨base, []⟩).stageDir
      = stageDirOf command args := by
    rw [foldl_last Plan.stageDir Plan.stageDir_add, filterMap_stageDirIn]
  have hconfig : ((overridesIn args).foldl (Plan.add command) ⟨base, []⟩).config
      = base.withFields fun f => (given command args f).getD (f.get base) := by
    rw [← Config.withFields_get ((overridesIn args).foldl (Plan.add command) ⟨base, []⟩).config,
      Plan.withFields_foldl_add]
    simp only [hfield]
  rw [Plan.layered, ← hconfig, ← hstage]

theorem configure_eq_ok_iff {request : Request} :
    (configure files command request).1 = .ok plan ↔
      ∃ base, (baseConfig files request).1 = .ok base ∧
        Plan.applyOverrides command ⟨base, []⟩ request.overrides = .ok plan ∧
        plan.config.Valid := by
  unfold configure
  cases baseConfig files request with
  | mk base events =>
      cases base with
      | error refusal => simp
      | ok base =>
          cases happly : Plan.applyOverrides command ⟨base, []⟩ request.overrides with
          | error refusal => simp [happly]
          | ok plan' =>
              simp only [happly, Except.ok.injEq, exists_eq_left']
              constructor
              · intro h
                split at h
                · cases h
                · rename_i hvalid
                  obtain rfl := Except.ok.inj h
                  exact ⟨rfl, hvalid⟩
              · rintro ⟨rfl, hvalid⟩
                rw [show plan'.config.problem? = none from hvalid]

theorem verdict_proceed_eq_handed_iff {request : Request} :
    (Scan.proceed request).verdict files = .handed command plan ↔
      request.command.getD .build = command ∧ (configure files command request).1 = .ok plan := by
  rw [Scan.verdict]
  constructor
  · intro h
    cases hplan : (configure files (request.command.getD .build) request).1 with
    | error refusal =>
        rw [hplan] at h
        cases h
    | ok plan' =>
        rw [hplan] at h
        obtain ⟨rfl, rfl⟩ := Verdict.handed.inj h
        exact ⟨rfl, hplan⟩
  · rintro ⟨rfl, hplan⟩
    rw [hplan]

/-- What it takes for a command to be carried out, and which it is and
with which plan. -/
theorem verdict_eq_handed_iff :
    (scan args).2.verdict files = .handed command plan ↔
      (Sensible none args ∧ ∀ arg ∈ overridesIn args, (Config.override? arg).isSome) ∧
      (commandIn args).getD .build = command ∧
      ∃ base, (baseConfig files (Request.extend {} args)).1 = .ok base ∧
        Plan.layered command args base = plan ∧ plan.config.Valid := by
  have hplan : (configure files command (Request.extend {} args)).1 = .ok plan ↔
      (∀ arg ∈ overridesIn args, (Config.override? arg).isSome) ∧
      ∃ base, (baseConfig files (Request.extend {} args)).1 = .ok base ∧
        Plan.layered command args base = plan ∧ plan.config.Valid := by
    have hoverrides : (Request.extend {} args).overrides = overridesIn args := rfl
    simp only [configure_eq_ok_iff, hoverrides, Plan.applyOverrides_eq_ok_iff, foldl_add]
    constructor
    · rintro ⟨base, hbase, ⟨hknown, hlayered⟩, hvalid⟩
      exact ⟨hknown, base, hbase, hlayered, hvalid⟩
    · rintro ⟨hknown, base, hbase, hlayered, hvalid⟩
      exact ⟨base, hbase, ⟨hknown, hlayered⟩, hvalid⟩
  constructor
  · intro h
    cases hasked : scan args with
    | mk echo asked =>
        rw [hasked] at h
        cases asked with
        | proceed request =>
            obtain ⟨hsensible, -, rfl⟩ := scan_eq_proceed_iff.mp hasked
            obtain ⟨hcommand, hconfigured⟩ := verdict_proceed_eq_handed_iff.mp h
            obtain ⟨hknown, hbase⟩ := hplan.mp hconfigured
            exact ⟨⟨hsensible, hknown⟩, hcommand, hbase⟩
        | _ => cases h
  · rintro ⟨⟨hsensible, hknown⟩, hcommand, hbase⟩
    rw [scan_eq_proceed_iff.mpr ⟨hsensible, rfl, rfl⟩]
    exact verdict_proceed_eq_handed_iff.mpr ⟨hcommand, hplan.mpr ⟨hknown, hbase⟩⟩

/-! ## The base configuration -/

/-- The manifest that is read: the last one that is named, or else the
default one if it is there. -/
def manifestOf (files : FileTree) (args : List Bytes) : Option Path :=
  let named := (lastGiven manifestOption args).getD []
  if named ≠ [] then some named
  else if files.pathExists defaultManifest then some defaultManifest
  else none

/-- The configuration is what the manifest makes of the built-in one. If
it is read without being there, it is the log file and still empty. -/
def BaseOf (files : FileTree) (args : List Bytes) (base : Config) : Prop :=
  match manifestOf files args with
  | none => base = {}
  | some path => (Manifest.read ((files.read? path).getD []) {}).config = some base

theorem load_eq_ok_iff {path : Path} {base : Config} :
    (Manifest.load files path).1 = .ok base ↔
      ∃ text, files.read? path = some text ∧ (Manifest.read text {}).config = some base := by
  unfold Manifest.load
  cases files.read? path with
  | none => simp
  | some text =>
      cases hconfig : (Manifest.read text {}).config with
      | none => simp [hconfig]
      | some config => simp [hconfig]

theorem read_nil : (Manifest.read [] {}).config = some {} := by
  have hitems : Manifest.items [] (Manifest.Reader.ofText []).cursor.skipSpace
      = ⟨[], none, ⟨[], 1⟩⟩ := by
    rw [Manifest.items]
    rfl
  rw [Manifest.read, Manifest.Reader.read, hitems]
  rfl

/-- Whether the log file was there or has just been made does not matter. -/
theorem baseOf_of_baseConfig {files' : FileTree} {base : Config}
    (hread : ∀ p, files'.read? p = files.read? p ∨
      files.read? p = none ∧ files'.read? p = some [])
    (h : (baseConfig files' (Request.extend {} args)).1 = .ok base) : BaseOf files args base := by
  have htext : ∀ {path text}, files'.read? path = some text →
      (files.read? path).getD [] = text := by
    intro path text hpath
    rcases hread path with hsame | ⟨hnone, hempty⟩
    · rw [← hsame, hpath, Option.getD_some]
    · rw [hnone]
      exact Option.some.inj (hempty.symm.trans hpath)
  have hloaded : ∀ path, (Manifest.load files' path).1.mapError Refusal.manifest = .ok base →
      (Manifest.read ((files.read? path).getD []) {}).config = some base := by
    intro path hpath
    cases hload : (Manifest.load files' path).1 with
    | error fault =>
        rw [hload] at hpath
        cases hpath
    | ok config =>
        rw [hload] at hpath
        obtain rfl : config = base := Except.ok.inj hpath
        obtain ⟨text, hfound, hbase⟩ := load_eq_ok_iff.mp hload
        rw [htext hfound, hbase]
  rw [baseConfig, manifestFor, Request.manifest_extend] at h
  rw [BaseOf, manifestOf]
  dsimp only at h ⊢
  by_cases hnamed : (lastGiven manifestOption args).getD [] ≠ []
  · rw [if_pos hnamed] at h ⊢
    exact hloaded _ h
  rw [if_neg hnamed] at h ⊢
  by_cases hthere : files.pathExists defaultManifest
  · have hthere' : files'.pathExists defaultManifest = true := by
      rw [← FileTree.isSome_read?] at hthere ⊢
      rcases hread defaultManifest with hsame | ⟨hnone, -⟩
      · rw [hsame, hthere]
      · rw [hnone] at hthere
        cases hthere
    rw [if_pos hthere'] at h
    rw [if_pos hthere]
    exact hloaded _ h
  · rw [if_neg hthere]
    by_cases hmade : files'.pathExists defaultManifest
    · rw [if_pos hmade] at h
      have hbase := hloaded _ h
      have hnone : files.read? defaultManifest = none := by
        rw [← Option.not_isSome_iff_eq_none, FileTree.isSome_read?]
        exact hthere
      rw [hnone] at hbase
      exact Option.some.inj (hbase.symm.trans read_nil)
    · rw [if_neg hmade] at h
      exact (Except.ok.inj h).symm

/-! ## Order -/

/-- The arguments in another order. Those of one kind follow each other as
before: what gives one field its value, what names a manifest, and what
is for the logger. -/
structure Rearranged (args args' : List Bytes) : Prop where
  perm : args.Perm args'
  fields : ∀ f : Field, (args'.filter fun arg => (arg.after? f.option).isSome)
    = args.filter fun arg => (arg.after? f.option).isSome
  manifests : (args'.filter fun arg => (arg.after? manifestOption).isSome)
    = args.filter fun arg => (arg.after? manifestOption).isSome
  logOptions : args'.filter Log.isLogOption = args.filter Log.isLogOption

namespace Rearranged

variable {args' : List Bytes}

theorem lastGiven_eq {option : Bytes}
    (h : (args'.filter fun arg => (arg.after? option).isSome)
      = args.filter fun arg => (arg.after? option).isSome) :
    lastGiven option args' = lastGiven option args := by
  rw [lastGiven, lastGiven, ← filterMap_filter_isSome, h, filterMap_filter_isSome]

theorem settingsFor_eq (h : Rearranged args args') (env : Environment) :
    Log.settingsFor env args' = Log.settingsFor env args := by
  rw [← Log.settingsFor_filter, h.logOptions, Log.settingsFor_filter]

theorem wordsIn_perm (h : Rearranged args args') : (wordsIn args').Perm (wordsIn args) :=
  h.perm.symm.filterMap _

theorem layered_eq (h : Rearranged args args') (command : Command) (base : Config) :
    Plan.layered command args' base = .layered command args base := by
  unfold Plan.layered given stageDirOf
  simp only [lastGiven_eq (h.fields _)]

theorem wordsIn_eq {asked : Option Command} (h : Rearranged args args')
    (hsensible : Sensible asked args) : wordsIn args' = wordsIn args := by
  rcases hsensible.words with hnone | ⟨-, c, hc⟩
  · rw [hnone]
    exact List.perm_nil.mp (hnone ▸ h.wordsIn_perm)
  · rw [hc]
    exact List.perm_singleton.mp (hc ▸ h.wordsIn_perm)

theorem sensible {asked : Option Command} (h : Rearranged args args')
    (hsensible : Sensible asked args) : Sensible asked args' :=
  ⟨fun arg harg => hsensible.goesOn arg (h.perm.mem_iff.mpr harg),
    h.wordsIn_eq hsensible ▸ hsensible.words⟩

theorem baseConfig_eq (h : Rearranged args args') (files : FileTree) :
    baseConfig files (Request.extend {} args') = baseConfig files (Request.extend {} args) := by
  unfold baseConfig manifestFor
  rw [Request.manifest_extend, Request.manifest_extend, lastGiven_eq h.manifests]

/-- Arguments that are read to the end are so in any order. -/
theorem scan_eq (h : Rearranged args args') (hsensible : Sensible none args) :
    scan args' = ((scan args).1, .proceed (Request.extend {} args')) := by
  have hecho : echoIn args' = (scan args).1 := by
    rw [scan_eq_proceed_iff.mpr ⟨hsensible, rfl, rfl⟩]
    exact h.perm.symm.any_eq
  exact scan_eq_proceed_iff.mpr ⟨h.sensible hsensible, hecho, rfl⟩

theorem verdict_eq (h : Rearranged args args')
    (hhanded : (scan args).2.verdict files = .handed command plan) :
    (scan args').2.verdict files = .handed command plan := by
  obtain ⟨⟨hsensible, hknown⟩, hcommand, base, hbase, hplan, hvalid⟩ :=
    verdict_eq_handed_iff.mp hhanded
  refine verdict_eq_handed_iff.mpr ⟨⟨h.sensible hsensible, fun arg harg => ?_⟩, ?_, base, ?_, ?_⟩
  · exact hknown arg ((h.perm.filterMap _).mem_iff.mpr harg)
  · rw [commandIn, h.wordsIn_eq hsensible]
    exact hcommand
  · rw [h.baseConfig_eq]
    exact hbase
  · exact ⟨(h.layered_eq command base).trans hplan, hvalid⟩

theorem told_eq (h : Rearranged args args') (hsensible : Sensible none args) (files : FileTree) :
    (scan args').2.told files = (scan args).2.told files := by
  rw [h.scan_eq hsensible, scan_eq_proceed_iff.mpr ⟨hsensible, rfl, rfl⟩]
  show (baseConfig files _).2 = (baseConfig files _).2
  rw [h.baseConfig_eq]

end Rearranged

/-! ## Runs -/

/-- A command is carried out with the last value that the arguments give
each field, and otherwise with the base configuration. To `stage`, the
output directory is not a field, but the directory to stage into. So the
arguments can be rearranged: what comes to the command is the same, and
so is the whole run. -/
theorem handed_layers (machine : Machine) (files : FileTree) (args : List Bytes)
    (command : Command) (plan : Plan)
    (h : machine.verdict files args = .handed command plan) :
    machine.execution files args
        = (runCommand machine.surroundings.environment machine.tools command plan
            (machine.prepared files args)).after
          ((scan args).2.told (machine.prepared files args)) ∧
    command = (commandIn args).getD .build ∧
    (∃ base, BaseOf files args base ∧ plan.config.Valid ∧
      plan.config = base.withFields (fun f => (given command args f).getD (f.get base)) ∧
      plan.stageDir = stageDirOf command args) ∧
    ∀ args', Rearranged args args' →
      machine.verdict files args' = .handed command plan ∧
      run machine files args' = run machine files args := by
  obtain ⟨⟨hsensible, -⟩, hcommand, base, hbase, hlayered, hvalid⟩ := verdict_eq_handed_iff.mp h
  have hread : ∀ p, (machine.prepared files args).read? p = files.read? p ∨
      files.read? p = none ∧ (machine.prepared files args).read? p = some [] :=
    Log.Logger.read?_configure _ _ _
  refine ⟨Scan.execute_of_handed h, hcommand.symm, ⟨base, baseOf_of_baseConfig hread hbase,
    hvalid, ?_, ?_⟩, fun args' hargs => ?_⟩
  · rw [← hlayered]
    rfl
  · rw [← hlayered]
    rfl
  · have hopened : machine.opened files args' = machine.opened files args := by
      rw [Machine.opened, Machine.opened, hargs.settingsFor_eq]
    have hprepared : machine.prepared files args' = machine.prepared files args := by
      rw [Machine.prepared, Machine.prepared, hopened]
    have hverdict : machine.verdict files args' = .handed command plan := by
      rw [Machine.verdict, hprepared]
      exact hargs.verdict_eq h
    have hexecution : machine.execution files args' = machine.execution files args := by
      rw [Machine.execution, Scan.execute_of_handed hverdict, Machine.execution,
        Scan.execute_of_handed h, hprepared, hargs.told_eq hsensible]
    have hecho : (scan args').1 = (scan args).1 := by
      rw [hargs.scan_eq hsensible]
    refine ⟨hverdict, ?_⟩
    rw [run_eq, run_eq]
    unfold Machine.console
    rw [hexecution, hecho, hopened]

/-- A tree with a manifest. -/
def manifestTree : FileTree where
  entries := [(["a.toml"], .file "[blob]\nsource = \"a.S\"\nout_dir = \"lib\"\n" false)]
  distinct := by decide
  workingDirectory := []
  emptied := []

theorem handed_layers_stage :
    let args : List Bytes :=
      ["--out-dir=x", "--source=b.S", "--manifest=a.toml", "stage", "--source=c.S", "--out-dir=y"]
    let args' : List Bytes :=
      ["stage", "--source=b.S", "--source=c.S", "--out-dir=x", "--out-dir=y", "--manifest=a.toml"]
    let config : Config := { source := Bytes.ofString "c.S", outDir := Bytes.ofString "lib" }
    bareMachine.verdict manifestTree args = .handed .stage ⟨config, Bytes.ofString "y"⟩ ∧
      run bareMachine manifestTree args' = run bareMachine manifestTree args := by
  intro args args' config
  have h : bareMachine.verdict manifestTree args = .handed .stage ⟨config, Bytes.ofString "y"⟩ := by
    decide +kernel
  obtain ⟨-, -, -, hrearranged⟩ := handed_layers bareMachine manifestTree args _ _ h
  have hargs : Rearranged args args' :=
    ⟨by decide, fun f => by cases f <;> decide, by decide, by decide⟩
  exact ⟨h, (hrearranged args' hargs).2⟩

end Cli

end Prebuilt
