import Prebuilt.Cli.Arguments
import Prebuilt.Proofs.Options

/-!
# What the arguments ask for

An argument that begins with the text of an option that no other option
resembles is read as that option (`Argument.ofText_of_plain`). Arguments
are read through to the end if none asks for help or the version and at
most one is a word, that of a command (`Sensible`); the request then
holds the command, the last manifest and all overrides, each collected
without regard to the others (`scanFrom_eq_proceed_iff`).
-/

namespace Prebuilt.Cli

/-! ## One argument -/

/-- The option is a long one that begins no argument with a meaning of
its own, and no log option begins with it or begins it. -/
structure Plain (option : Bytes) : Prop where
  long : Bytes.ofString "--" <+: option
  wholes : ∀ text ∈ ["--help", "-h", "--version", "-V", "-q", "--quiet", "--verbose"],
    ¬ option <+: Bytes.ofString text
  logOptions : ∀ text ∈ ["--log-level=", "--log-filter=", "--log-file=", "--log-format="],
    ¬ option <+: Bytes.ofString text ∧ ¬ Bytes.ofString text <+: option

instance (option : Bytes) : Decidable (Plain option) :=
  decidable_of_iff (Bytes.ofString "--" <+: option ∧
      (∀ text ∈ ["--help", "-h", "--version", "-V", "-q", "--quiet", "--verbose"],
        ¬ option <+: Bytes.ofString text) ∧
      ∀ text ∈ ["--log-level=", "--log-filter=", "--log-file=", "--log-format="],
        ¬ option <+: Bytes.ofString text ∧ ¬ Bytes.ofString text <+: option)
    ⟨fun ⟨h₁, h₂, h₃⟩ => ⟨h₁, h₂, h₃⟩, fun ⟨h₁, h₂, h₃⟩ => ⟨h₁, h₂, h₃⟩⟩

def manifestOption : Bytes := "--manifest="

theorem plain_manifestOption : Plain manifestOption := by decide

theorem plain_option (f : Config.Field) : Plain f.option := by
  cases f <;> decide

section Plain

variable {arg option value : Bytes}

theorem Plain.ne (h : Plain option) (hgiven : arg.after? option = some value) {text : String}
    (htext : text ∈ ["--help", "-h", "--version", "-V", "-q", "--quiet", "--verbose"]) :
    arg ≠ Bytes.ofString text := by
  rintro rfl
  exact h.wholes text htext ⟨value, (Bytes.after?_eq_some_iff.mp hgiven).symm⟩

theorem Plain.verbosityCount (h : Plain option) (hgiven : arg.after? option = some value) :
    Log.verbosityCount arg = 0 :=
  Log.verbosityCount_of_value hgiven h.long

theorem Plain.isLogOption (h : Plain option) (hgiven : arg.after? option = some value) :
    Log.isLogOption arg = false := by
  have hnone : ∀ text ∈ ["--log-level=", "--log-filter=", "--log-file=", "--log-format="],
      arg.after? (Bytes.ofString text) = none := fun text htext =>
    Bytes.after?_eq_none hgiven (h.logOptions text htext).1 (h.logOptions text htext).2
  simp only [List.forall_mem_cons] at hnone
  obtain ⟨hlevel, hfilter, hfile, hformat, -⟩ := hnone
  have hq : arg ≠ "-q" := h.ne hgiven (by decide)
  have hquiet : arg ≠ "--quiet" := h.ne hgiven (by decide)
  have hverbose : arg ≠ "--verbose" := h.ne hgiven (by decide)
  simp [Log.isLogOption, Log.valueOptions, hlevel, hfilter, hfile, hformat, hq, hquiet, hverbose,
    h.verbosityCount hgiven]

/-- What is left to tell apart are the manifest and the overrides. -/
theorem Argument.ofText_of_plain (h : Plain option) (hgiven : arg.after? option = some value) :
    ofText arg =
      match arg.after? manifestOption with
      | some path => .manifest path
      | none => .override arg := by
  have hhelp : arg ≠ "--help" := h.ne hgiven (by decide)
  have hh : arg ≠ "-h" := h.ne hgiven (by decide)
  have hversion : arg ≠ "--version" := h.ne hgiven (by decide)
  have hv : arg ≠ "-V" := h.ne hgiven (by decide)
  have hdash : arg.head? = some '-'.toUInt8 := by
    obtain ⟨rest, rfl⟩ := h.long
    rw [Bytes.after?_eq_some_iff.mp hgiven]
    rfl
  rw [ofText, if_neg (not_or.mpr ⟨hhelp, hh⟩), if_neg (not_or.mpr ⟨hversion, hv⟩),
    h.isLogOption hgiven, if_neg Bool.false_ne_true, if_pos hdash]
  rfl

end Plain

namespace Argument

variable {arg : Bytes}

/-- What an argument is, and why. -/
theorem ofText_cases (arg : Bytes) :
    ofText arg = .help ∨ ofText arg = .version ∨
    (ofText arg = .logOption ∧ Log.isLogOption arg = true) ∨
    (∃ path, ofText arg = .manifest path ∧ arg.after? manifestOption = some path) ∨
    (ofText arg = .override arg ∧ arg.head? = some '-'.toUInt8) ∨
    (ofText arg = .word arg ∧ arg.head? ≠ some '-'.toUInt8) := by
  unfold ofText
  by_cases hhelp : arg = "--help" ∨ arg = "-h"
  · exact .inl (if_pos hhelp)
  by_cases hversion : arg = "--version" ∨ arg = "-V"
  · exact .inr (.inl ((if_neg hhelp).trans (if_pos hversion)))
  rw [if_neg hhelp, if_neg hversion]
  refine .inr (.inr ?_)
  by_cases hlog : Log.isLogOption arg = true
  · exact .inl ⟨if_pos hlog, hlog⟩
  rw [if_neg hlog]
  refine .inr ?_
  cases hgiven : arg.after? "--manifest=" with
  | some path => exact .inl ⟨path, rfl, hgiven⟩
  | none =>
      refine .inr ?_
      by_cases hdash : arg.head? = some '-'.toUInt8
      · exact .inl ⟨if_pos hdash, hdash⟩
      · exact .inr ⟨if_neg hdash, hdash⟩

theorem ofText_eq_manifest_iff {path : Path} :
    ofText arg = .manifest path ↔ arg.after? manifestOption = some path := by
  constructor
  · intro h
    rcases ofText_cases arg with h' | h' | ⟨h', -⟩ | ⟨path', h', hgiven⟩ | ⟨h', -⟩ | ⟨h', -⟩
    case inr.inr.inr.inl =>
      obtain rfl := Argument.manifest.inj (h'.symm.trans h)
      exact hgiven
    all_goals cases h'.symm.trans h
  · intro h
    rw [ofText_of_plain plain_manifestOption h, h]

theorem ofText_eq_logOption_iff : ofText arg = .logOption ↔ Log.isLogOption arg = true := by
  constructor
  · intro h
    rcases ofText_cases arg with h' | h' | ⟨-, hlog⟩ | ⟨_, h', -⟩ | ⟨h', -⟩ | ⟨h', -⟩
    case inr.inr.inl => exact hlog
    all_goals cases h'.symm.trans h
  · intro h
    have hhelp : ¬ (arg = "--help" ∨ arg = "-h") := by
      rintro (rfl | rfl) <;> exact absurd h (by decide)
    have hversion : ¬ (arg = "--version" ∨ arg = "-V") := by
      rintro (rfl | rfl) <;> exact absurd h (by decide)
    rw [ofText, if_neg hhelp, if_neg hversion, if_pos h]

theorem eq_of_ofText_eq_override {text : Bytes} (h : ofText arg = .override text) :
    text = arg := by
  rcases ofText_cases arg with h' | h' | ⟨h', -⟩ | ⟨_, h', -⟩ | ⟨h', -⟩ | ⟨h', -⟩
  case inr.inr.inr.inr.inl => exact Argument.override.inj (h.symm.trans h')
  all_goals cases h'.symm.trans h

/-- A word has no dash in front. -/
theorem head?_ne_of_ofText_eq_word {text : Bytes} (h : ofText arg = .word text) :
    arg.head? ≠ some '-'.toUInt8 := by
  rcases ofText_cases arg with h' | h' | ⟨h', -⟩ | ⟨_, h', -⟩ | ⟨h', -⟩ | ⟨-, hdash⟩
  case inr.inr.inr.inr.inr => exact hdash
  all_goals cases h'.symm.trans h

/-- The manifest that the argument names. -/
def manifest? : Argument → Option Path
  | .manifest path => some path
  | _ => none

def override? : Argument → Option Bytes
  | .override text => some text
  | _ => none

def word? : Argument → Option Bytes
  | .word text => some text
  | _ => none

theorem manifest?_ofText (arg : Bytes) :
    (ofText arg).manifest? = arg.after? manifestOption := by
  refine Option.ext fun path => ?_
  rw [← ofText_eq_manifest_iff]
  cases ofText arg <;> simp [manifest?]

/-- An argument that gives a field its value is an override. -/
theorem override?_ofText_bind (arg : Bytes) (f : Config.Field) :
    (ofText arg).override?.bind (Bytes.after? · f.option) = arg.after? f.option := by
  cases hgiven : arg.after? f.option with
  | some value =>
      have hmanifest : arg.after? manifestOption = none :=
        Bytes.after?_eq_none hgiven (by cases f <;> decide) (by cases f <;> decide)
      rw [ofText_of_plain (plain_option f) hgiven, hmanifest]
      exact hgiven
  | none =>
      cases hoverride : ofText arg with
      | override text =>
          rw [eq_of_ofText_eq_override hoverride]
          exact hgiven
      | _ => rfl

end Argument

theorem Command.ofWord?_eq_some_iff {text : Bytes} {command : Command} :
    ofWord? text = some command ↔ command.word = text := by
  constructor
  · intro h
    simpa using List.find?_some h
  · rintro rfl
    cases command <;> decide

theorem Command.word_injective {c c' : Command} (h : c.word = c'.word) : c = c' := by
  rw [← Option.some_inj, ← ofWord?_eq_some_iff.mpr h, ofWord?_eq_some_iff]

/-! ## All arguments -/

/-- The words among the arguments. -/
def wordsIn (args : List Bytes) : List Bytes :=
  args.filterMap fun arg => (Argument.ofText arg).word?

/-- The overrides among the arguments, known or not. -/
def overridesIn (args : List Bytes) : List Bytes :=
  args.filterMap fun arg => (Argument.ofText arg).override?

/-- The command that the arguments name. -/
def commandIn (args : List Bytes) : Option Command := (wordsIn args).head?.bind Command.ofWord?

/-- Some log option asks for commands to be echoed. -/
def echoIn (args : List Bytes) : Bool :=
  args.any fun arg => Argument.ofText arg = .logOption && asksForEcho arg

/-- Nothing stops the reading of the arguments, whatever command was
named before them. -/
structure Sensible (command : Option Command) (args : List Bytes) : Prop where
  goesOn : ∀ arg ∈ args, Argument.ofText arg ≠ .help ∧ Argument.ofText arg ≠ .version
  words : wordsIn args = [] ∨ command = none ∧ ∃ c : Command, wordsIn args = [c.word]

/-- The request once it is known what the arguments ask for. -/
def Request.extend (request : Request) (args : List Bytes) : Request where
  command := request.command.or (commandIn args)
  manifest := (args.filterMap fun arg => (Argument.ofText arg).manifest?).getLast?.getD
    request.manifest
  overrides := request.overrides ++ overridesIn args

/-- The request after one more argument that is no word. -/
def Request.add (request : Request) : Argument → Request
  | .manifest path => { request with manifest := path }
  | .override text => { request with overrides := request.overrides ++ [text] }
  | _ => request

theorem Request.manifest_extend (request : Request) (args : List Bytes) :
    (request.extend args).manifest = (lastGiven manifestOption args).getD request.manifest := by
  simp only [extend, lastGiven, Argument.manifest?_ofText]

section Scan

variable {arg : Bytes} {rest : List Bytes} {command : Option Command}

theorem sensible_nil : Sensible command [] := ⟨List.forall_mem_nil _, .inl rfl⟩

theorem extend_nil (request : Request) : request.extend [] = request := by
  simp [Request.extend, commandIn, wordsIn, overridesIn]

theorem extend_cons (request : Request) (hword : (Argument.ofText arg).word? = none) :
    request.extend (arg :: rest) = (request.add (Argument.ofText arg)).extend rest := by
  have hwords : wordsIn (arg :: rest) = wordsIn rest := List.filterMap_cons_none hword
  simp only [Request.extend, commandIn, hwords, overridesIn, List.filterMap_cons]
  cases Argument.ofText arg <;>
    simp [Request.add, Argument.manifest?, Argument.override?, List.getLast?_cons]

theorem extend_cons_word {request : Request} {c : Command} (hnone : request.command = none)
    (harg : Argument.ofText arg = .word c.word) :
    request.extend (arg :: rest) = { request with command := some c }.extend rest := by
  have hwords : wordsIn (arg :: rest) = c.word :: wordsIn rest :=
    List.filterMap_cons_some (by rw [harg]; rfl)
  have hword : Command.ofWord? c.word = some c := Command.ofWord?_eq_some_iff.mpr rfl
  simp [Request.extend, commandIn, hwords, hword, hnone, overridesIn, harg, Argument.manifest?,
    Argument.override?]

theorem echoIn_cons :
    echoIn (arg :: rest)
      = ((Argument.ofText arg = .logOption && asksForEcho arg) || echoIn rest) := rfl

theorem sensible_cons_iff (hword : (Argument.ofText arg).word? = none) :
    Sensible command (arg :: rest) ↔
      (Argument.ofText arg ≠ .help ∧ Argument.ofText arg ≠ .version) ∧ Sensible command rest := by
  have hwords : wordsIn (arg :: rest) = wordsIn rest := List.filterMap_cons_none hword
  constructor
  · rintro ⟨hgoes, hword⟩
    obtain ⟨harg, hrest⟩ := List.forall_mem_cons.mp hgoes
    exact ⟨harg, hrest, hwords ▸ hword⟩
  · rintro ⟨harg, hrest, hword⟩
    exact ⟨List.forall_mem_cons.mpr ⟨harg, hrest⟩, hwords ▸ hword⟩

/-- A word has to be a command, and there has to be no other one. -/
theorem sensible_cons_word_iff {text : Bytes} (harg : Argument.ofText arg = .word text) :
    Sensible command (arg :: rest) ↔
      command = none ∧ ∃ c : Command, c.word = text ∧ Sensible (some c) rest := by
  have hwords : wordsIn (arg :: rest) = text :: wordsIn rest :=
    List.filterMap_cons_some (by rw [harg]; rfl)
  have hgoes : ∀ a : Argument, a = .word text → a ≠ .help ∧ a ≠ .version := by
    rintro a rfl
    exact ⟨nofun, nofun⟩
  constructor
  · rintro ⟨hall, hnone | ⟨hnone, c, hc⟩⟩
    · rw [hwords] at hnone
      cases hnone
    · obtain ⟨rfl, hrest⟩ := List.cons.inj (hwords.symm.trans hc)
      exact ⟨hnone, c, rfl, (List.forall_mem_cons.mp hall).2, .inl hrest⟩
  · rintro ⟨hnone, c, rfl, hall, hrest | ⟨hsome, -⟩⟩
    · exact ⟨List.forall_mem_cons.mpr ⟨hgoes _ harg, hall⟩, .inr ⟨hnone, c, by rw [hwords, hrest]⟩⟩
    · cases hsome

/-- Reading comes to the end exactly if nothing stops it, and then every
part of the request is collected on its own. -/
theorem scanFrom_eq_proceed_iff {request request' : Request} {echo echo' : Bool}
    {args : List Bytes} :
    scanFrom request echo args = (echo', .proceed request') ↔
      Sensible request.command args ∧ (echo || echoIn args) = echo' ∧
        request.extend args = request' := by
  induction args generalizing request echo with
  | nil => simp [scanFrom, sensible_nil, extend_nil, echoIn]
  | cons arg rest ih =>
      rw [scanFrom]
      cases harg : Argument.ofText arg with
      | help =>
          refine iff_of_false (fun h => nomatch (Prod.mk.inj h).2) fun h => ?_
          exact (h.1.goesOn arg (List.mem_cons_self ..)).1 harg
      | version =>
          refine iff_of_false (fun h => nomatch (Prod.mk.inj h).2) fun h => ?_
          exact (h.1.goesOn arg (List.mem_cons_self ..)).2 harg
      | logOption =>
          rw [ih, sensible_cons_iff (by rw [harg]; rfl), extend_cons _ (by rw [harg]; rfl),
            echoIn_cons, harg]
          simp [Request.add, Bool.or_assoc]
      | manifest path =>
          rw [ih, sensible_cons_iff (by rw [harg]; rfl), extend_cons _ (by rw [harg]; rfl),
            echoIn_cons, harg]
          simp [Request.add]
      | override text =>
          rw [ih, sensible_cons_iff (by rw [harg]; rfl), extend_cons _ (by rw [harg]; rfl),
            echoIn_cons, harg]
          simp [Request.add]
      | word text =>
          have hecho : echoIn (arg :: rest) = echoIn rest := by
            rw [echoIn_cons, harg]
            rfl
          rw [sensible_cons_word_iff harg, hecho]
          dsimp only
          cases hcommand : request.command with
          | some command =>
              refine iff_of_false (fun h => ?_) fun h => Option.some_ne_none command h.1.1
              cases (Prod.mk.inj h).2
          | none =>
              cases htext : Command.ofWord? text with
              | none =>
                  refine iff_of_false (fun h => nomatch (Prod.mk.inj h).2) ?_
                  rintro ⟨⟨-, c, hc, -⟩, -⟩
                  rw [Command.ofWord?_eq_some_iff.mpr hc] at htext
                  cases htext
              | some command =>
                  have hword : command.word = text := Command.ofWord?_eq_some_iff.mp htext
                  rw [ih, extend_cons_word hcommand (harg.trans (congrArg _ hword.symm))]
                  refine and_congr_left fun _ => ⟨fun h => ⟨rfl, command, hword, h⟩, ?_⟩
                  rintro ⟨-, c, hc, h⟩
                  obtain rfl : c = command := Command.word_injective (hc.trans hword.symm)
                  exact h

theorem scan_eq_proceed_iff {echo : Bool} {request : Request} {args : List Bytes} :
    scan args = (echo, .proceed request) ↔
      Sensible none args ∧ echoIn args = echo ∧ Request.extend {} args = request :=
  scanFrom_eq_proceed_iff

end Scan

end Prebuilt.Cli
