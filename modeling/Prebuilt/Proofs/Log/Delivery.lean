import Prebuilt.Proofs.Log.LogFile

/-!
# Every record reaches every sink once

A sink is due the records that are sent while it is there: from the
request that installs it to the next one that drops the sinks, or sets
the logger up anew. `shares` lists the sinks of a run, each with the
records due to it, and `deliver_exactly_once` says that a run does what
they ask. What comes to the outlets is the shares of all sinks, each in
its own order (`Interleaved`), and nothing else but warnings about log
files that cannot be opened. A log file holds its share line by line
after what it held before.

A sink changes while it is written to, as a file sink has a buffer.
`Sink.drained` is what stays the same, so the shares name it.
-/

namespace Prebuilt

open FileTree

/-! ## Lists taken together -/

/-- The second is made of all lists of the first, each taken from its
head on. -/
inductive Interleaved {α : Type} : List (List α) → List α → Prop
  | nil {lists : List (List α)} (h : ∀ l ∈ lists, l = []) : Interleaved lists []
  | cons {front back : List (List α)} {a : α} {l merged : List α}
      (h : Interleaved (front ++ l :: back) merged) :
      Interleaved (front ++ (a :: l) :: back) (a :: merged)

namespace Interleaved

variable {α ι : Type} {lists : List (List α)} {merged : List α}

theorem append_left {empties : List (List α)} (hempty : ∀ l ∈ empties, l = [])
    (h : Interleaved lists merged) : Interleaved (empties ++ lists) merged := by
  induction h with
  | nil hnil => exact .nil (List.forall_mem_append.mpr ⟨hempty, hnil⟩)
  | cons _ ih =>
      rw [← List.append_assoc] at ih ⊢
      exact .cons ih

theorem concat_append {last : List α} (first : List α)
    (h : Interleaved (lists ++ [last]) merged) :
    Interleaved (lists ++ [first ++ last]) (first ++ merged) := by
  induction first with
  | nil => exact h
  | cons a first ih => exact .cons ih

/-- One element for each list of a row. -/
theorem heads (row : List ι) (head : ι → α) (tail : ι → List α) {back : List (List α)} :
    ∀ front : List (List α), Interleaved (front ++ (row.map tail ++ back)) merged →
      Interleaved (front ++ (row.map (fun i => head i :: tail i) ++ back))
        (row.map head ++ merged) := by
  induction row with
  | nil => exact fun _ h => h
  | cons i row ih =>
      intro front h
      refine .cons ?_
      have hrest := ih (front ++ [tail i]) (by rwa [List.append_assoc])
      rwa [List.append_assoc] at hrest

end Interleaved

namespace Log

namespace Logger

/-! ## What a run sends -/

/-- The sinks stay. -/
def Request.keepsSinks : Request → Bool
  | .configure _ => false
  | .setLevel _ => true
  | .setFilter _ => true
  | .keepInMemory => true
  | .dropSinks => false
  | .flush => true
  | .log _ => true
  | .write _ => true

/-- The record that a request sends to the sinks. A statement sends its
own if it is in the program and its level is shown for its topic. -/
def sent? (logger : Logger) : Request → Option Record
  | .log r =>
      if leastStatement ≤ r.level ∧ logger.shouldLog r.level r.topic = true then some r else none
  | .write r => some r
  | .configure _ => none
  | .setLevel _ => none
  | .setFilter _ => none
  | .keepInMemory => none
  | .dropSinks => none
  | .flush => none

/-- The records that a run sends. -/
def logged (around : Surroundings) : Logger → Outlets → List Request → List Record
  | _, _, [] => []
  | logger, out, request :: rest =>
      let next := perform around logger out request
      (logger.sent? request).toList ++ logged around next.1 next.2 rest

/-- The records due to a sink that is there already. -/
def due (around : Surroundings) (logger : Logger) (out : Outlets) (requests : List Request) :
    List Record :=
  logged around logger out (requests.takeWhile Request.keepsSinks)

/-- The console that settings ask for. -/
def consoles (around : Surroundings) (settings : Settings) : List Sink :=
  if settings.console then
    [(Sink.openConsole around.interactive around.environment settings.colours).withFormat
      settings.format]
  else []

/-- The log file that settings ask for, if it can be opened. -/
def logFiles (settings : Settings) (out : Outlets) : List Sink :=
  match out.files.openFile settings.logFile with
  | .ok (files, l) =>
      if settings.logFile = [] then [] else [.file ⟨files.handle l, []⟩ settings.format]
  | .error _ => []

/-- The sinks that a request installs. -/
def installed (around : Surroundings) (out : Outlets) : Request → List Sink
  | .configure settings => consoles around settings ++ logFiles settings out
  | .keepInMemory => [.memory]
  | .setLevel _ => []
  | .setFilter _ => []
  | .dropSinks => []
  | .flush => []
  | .log _ => []
  | .write _ => []

/-- The shares of the sinks that a run installs. -/
def laterShares (around : Surroundings) :
    Logger → Outlets → List Request → List (Sink × List Record)
  | _, _, [] => []
  | logger, out, request :: rest =>
      let next := perform around logger out request
      ((installed around out request).map Sink.drained).map (·, due around next.1 next.2 rest)
        ++ laterShares around next.1 next.2 rest

/-- Every sink of a run, with the records due to it. -/
def shares (around : Surroundings) (logger : Logger) (out : Outlets) (requests : List Request) :
    List (Sink × List Record) :=
  (logger.sinks.map Sink.drained).map (·, due around logger out requests)
    ++ laterShares around logger out requests

/-- What is said about a log file that cannot be opened. -/
def warning? (out : Outlets) : Request → Option Bytes
  | .configure settings =>
      if settings.logFile = [] ∨ (out.files.openFile settings.logFile).isOk then none
      else some ("warning: could not open log file: " ++ settings.logFile ++ "\n")
  | .setLevel _ => none
  | .setFilter _ => none
  | .keepInMemory => none
  | .dropSinks => none
  | .flush => none
  | .log _ => none
  | .write _ => none

def warnings (around : Surroundings) : Logger → Outlets → List Request → List Bytes
  | _, _, [] => []
  | logger, out, request :: rest =>
      let next := perform around logger out request
      (warning? out request).toList ++ warnings around next.1 next.2 rest

/-! ## What a request does -/

/-- What a request does: it sends a record, or it leaves the outlets alone
and at most adds sinks, or it is one of the three that flush the sinks. -/
inductive Does (around : Surroundings) (logger : Logger) (out : Outlets) : Request → Prop
  | sends {request : Request} {r : Record} (hsent : logger.sent? request = some r)
      (hkeeps : request.keepsSinks = true) (hnew : installed around out request = [])
      (hquiet : warning? out request = none)
      (hperform : perform around logger out request = logger.write around.layout r out) :
      Does around logger out request
  | adds {request : Request} (hsent : logger.sent? request = none)
      (hkeeps : request.keepsSinks = true)
      (hnew : ∀ sink ∈ installed around out request, sink.isFile = false)
      (hquiet : warning? out request = none) (hout : (perform around logger out request).2 = out)
      (hsinks : (perform around logger out request).1.sinks
        = logger.sinks ++ installed around out request) : Does around logger out request
  | flush : Does around logger out .flush
  | dropSinks : Does around logger out .dropSinks
  | configure (settings : Settings) : Does around logger out (.configure settings)

theorem does (around : Surroundings) (logger : Logger) (out : Outlets) (request : Request) :
    Does around logger out request := by
  cases request with
  | configure settings => exact .configure settings
  | setLevel level => exact .adds rfl rfl (List.forall_mem_nil _) rfl rfl (List.append_nil _).symm
  | setFilter spec => exact .adds rfl rfl (List.forall_mem_nil _) rfl rfl (List.append_nil _).symm
  | keepInMemory => exact .adds rfl rfl (List.forall_mem_singleton.mpr rfl) rfl rfl rfl
  | dropSinks => exact .dropSinks
  | flush => exact .flush
  | write r => exact .sends rfl rfl rfl rfl rfl
  | log r =>
      have hlog : perform around logger out (.log r) = logger.log around.layout r out := rfl
      by_cases h : leastStatement ≤ r.level ∧ logger.shouldLog r.level r.topic = true
      · refine .sends (if_pos h) rfl rfl rfl ?_
        rw [hlog, log, h.2, decide_eq_true h.1, Bool.and_self, if_pos rfl]
      · have hrefused : perform around logger out (.log r) = (logger, out) := by
          rw [hlog, log, if_neg]
          rwa [Bool.and_eq_true, decide_eq_true_eq]
        refine .adds (if_neg h) rfl (List.forall_mem_nil _) rfl ?_ ?_
        · rw [hrefused]
        · rw [hrefused]
          exact (List.append_nil _).symm

theorem isFile_consoles (around : Surroundings) (settings : Settings) :
    ∀ sink ∈ consoles around settings, sink.isFile = false := by
  intro sink hmem
  unfold consoles at hmem
  split at hmem
  · rw [List.mem_singleton.mp hmem]
    rfl
  · cases hmem

theorem configure_opened (around : Surroundings) {settings : Settings} (out : Outlets)
    (hfile : settings.logFile ≠ []) {files : FileTree} {l : Location}
    (hok : out.files.openFile settings.logFile = .ok (files, l)) :
    (configure around settings out).1.sinks
        = consoles around settings ++ [.file ⟨files.handle l, []⟩ settings.format] ∧
      (configure around settings out).2 = { out with files := files } := by
  rw [configure, if_neg hfile, Sink.openFile, hok]
  exact ⟨rfl, rfl⟩

/-- Either the log file is opened (`configure_opened`), or there is at
most a warning about it. -/
theorem configure_cases (around : Surroundings) (settings : Settings) (out : Outlets) :
    (∃ files l, settings.logFile ≠ [] ∧ out.files.openFile settings.logFile = .ok (files, l)) ∨
      (logFiles settings out = [] ∧
        (configure around settings out).1.sinks = consoles around settings ∧
        (configure around settings out).2 = { out with
          stderr := out.stderr ++ (warning? out (.configure settings)).toList.flatten }) := by
  by_cases hfile : settings.logFile = []
  · have hnone : logFiles settings out = [] := by
      unfold logFiles
      split
      · exact if_pos hfile
      · rfl
    rw [configure, if_pos hfile, warning?, if_pos (Or.inl hfile)]
    exact Or.inr ⟨hnone, rfl, by rw [Option.toList_none, List.flatten_nil, List.append_nil]⟩
  · cases hopen : out.files.openFile settings.logFile with
    | ok opened => exact Or.inl ⟨opened.1, opened.2, hfile, rfl⟩
    | error fault =>
        have hwarning : warning? out (.configure settings)
            = some ("warning: could not open log file: " ++ settings.logFile ++ "\n") := by
          rw [warning?, hopen, if_neg]
          exact fun h => h.elim hfile Bool.false_ne_true
        rw [configure, if_neg hfile, Sink.openFile, logFiles, hopen, hwarning,
          Option.toList_some, List.flatten_cons, List.flatten_nil, List.append_nil]
        exact Or.inr ⟨rfl, rfl, rfl⟩

theorem sinks_configure (around : Surroundings) (settings : Settings) (out : Outlets) :
    (configure around settings out).1.sinks = installed around out (.configure settings) := by
  rw [installed]
  rcases configure_cases around settings out with ⟨files, l, hfile, hok⟩ | ⟨hnone, hsinks, -⟩
  · rw [(configure_opened around out hfile hok).1, logFiles, hok]
    dsimp only
    rw [if_neg hfile]
  · rw [hsinks, hnone, List.append_nil]

/-- The sinks after a request, but for what they hold back: those that it
keeps, and those that it installs. -/
theorem drained_perform (around : Surroundings) (logger : Logger) (out : Outlets)
    (request : Request) :
    (perform around logger out request).1.sinks.map Sink.drained
      = (if request.keepsSinks then logger.sinks.map Sink.drained else [])
        ++ (installed around out request).map Sink.drained := by
  cases does around logger out request with
  | @sends _ r _ hkeeps hnew _ hperform =>
      rw [hperform, hnew, if_pos hkeeps, List.map_nil, List.append_nil]
      exact drained_eachSink (Sink.tame_write around.layout r) logger.sinks out
  | adds _ hkeeps _ _ _ hsinks => rw [hsinks, if_pos hkeeps, List.map_append]
  | flush =>
      exact (drained_eachSink Sink.tame_flush logger.sinks out).trans (List.append_nil _).symm
  | dropSinks => rfl
  | configure settings =>
      exact congrArg (List.map Sink.drained) (sinks_configure around settings out)

/-! ## The log file -/

/-- Setting up a logger does nothing to the files that are open, and the
sinks of the new logger are open. -/
theorem open_configure (around : Surroundings) (settings : Settings) (out : Outlets) :
    (∀ {handle content x}, out.files.opened? handle = some (content, x) →
        (configure around settings out).2.files.opened? handle = some (content, x)) ∧
      ∀ sink ∈ (configure around settings out).1.sinks,
        sink.Open (configure around settings out).2.files := by
  have hconsoles : ∀ files, ∀ sink ∈ consoles around settings, sink.Open files :=
    fun _ sink hmem => Sink.open_of_isFile (isFile_consoles around settings sink hmem)
  rcases configure_cases around settings out with ⟨files, l, hfile, hok⟩ | ⟨-, hsinks, hout⟩
  · obtain ⟨hsinks, hout⟩ := configure_opened around out hfile hok
    have hnone : ∀ sink ∈ ([] : List Sink), sink.Open out.files := List.forall_mem_nil _
    obtain ⟨x, hopened⟩ := opened?_reopened hnone hok
    rw [hsinks, hout]
    refine ⟨opened?_openFile hok, List.forall_mem_append.mpr ⟨hconsoles _, ?_⟩⟩
    exact List.forall_mem_singleton.mpr (Option.isSome_of_eq_some hopened)
  · rw [hsinks, hout]
    exact ⟨id, hconsoles _⟩

/-- Open sinks stay open, and new ones are open. -/
theorem open_perform (around : Surroundings) {logger : Logger} {out : Outlets}
    (h : ∀ sink ∈ logger.sinks, sink.Open out.files) (request : Request) :
    ∀ sink ∈ (perform around logger out request).1.sinks,
      sink.Open (perform around logger out request).2.files := by
  cases does around logger out request with
  | @sends _ r _ _ _ _ hperform =>
      rw [hperform]
      exact open_eachSink (Sink.tame_write around.layout r) h
  | adds _ _ hnew _ hout hsinks =>
      rw [hout, hsinks]
      exact List.forall_mem_append.mpr ⟨h, fun sink hmem => Sink.open_of_isFile (hnew sink hmem)⟩
  | flush => exact open_eachSink Sink.tame_flush h
  | dropSinks => exact List.forall_mem_nil _
  | configure settings =>
      exact fun sink hmem => ((open_configure around settings out).2 sink hmem).stays
        (staysOpen_eachSink Sink.tame_flush logger.sinks _)

theorem open_performAll (around : Surroundings) (requests : List Request) :
    ∀ {logger : Logger} {out : Outlets}, (∀ sink ∈ logger.sinks, sink.Open out.files) →
      ∀ sink ∈ (performAll around logger out requests).1.sinks,
        sink.Open (performAll around logger out requests).2.files := by
  induction requests with
  | nil => exact id
  | cons request rest ih => exact fun h => ih (open_perform around h request)

variable {handle : Handle} {format : Format} {text : Bytes}

/-- The lines of records in a log file. -/
def fileLines (layout : Layout) (format : Format) (records : List Record) : Bytes :=
  records.flatMap (Record.render layout false format)

/-- Settings with a log file leave the logger with one, which begins with
what it held when the sinks before were closed. -/
theorem fills_configure (around : Surroundings) {logger : Logger} {out : Outlets}
    (hopen : ∀ sink ∈ logger.sinks, sink.Open out.files) {settings : Settings}
    (hfile : settings.logFile ≠ []) {files : FileTree} {l : Location}
    (hok : out.files.openFile settings.logFile = .ok (files, l)) :
    Fills (perform around logger out (.configure settings)).2.files (files.handle l)
      settings.format ((logger.close out).files.textAt l)
      (perform around logger out (.configure settings)).1.sinks := by
  obtain ⟨hsinks, hout⟩ := configure_opened around out hfile hok
  obtain ⟨x, hopened⟩ := opened?_reopened hopen hok
  have hafter : (perform around logger out (.configure settings)).2
      = logger.close { out with files := files } := congrArg logger.close hout
  refine ⟨consoles around settings, _, [], hsinks, isFile_consoles around settings,
    List.forall_mem_nil _, [], _, x, rfl, ?_, List.append_nil _⟩
  rw [hafter]
  exact hopened

theorem fills_perform (around : Surroundings) {logger : Logger} {out : Outlets}
    (h : Fills out.files handle format text logger.sinks) {request : Request}
    (hkeeps : request.keepsSinks = true) :
    Fills (perform around logger out request).2.files handle format
      (text ++ fileLines around.layout format (logger.sent? request).toList)
      (perform around logger out request).1.sinks := by
  cases does around logger out request with
  | @sends _ r hsent _ _ _ hperform =>
      rw [hperform, hsent, fileLines, Option.toList_some, List.flatMap_singleton]
      exact h.write around.layout r
  | adds hsent _ hnew _ hout hsinks =>
      obtain ⟨front, sink, back, hsplit, hfront, hback, hsink⟩ := h
      rw [hsent, hout, hsinks, hsplit, fileLines, Option.toList_none, List.flatMap_nil,
        List.append_nil, List.append_assoc]
      exact ⟨front, sink, _, rfl, hfront, List.forall_mem_append.mpr ⟨hback, hnew⟩, hsink⟩
  | flush =>
      rw [sent?, fileLines, Option.toList_none, List.flatMap_nil, List.append_nil]
      exact h.flush.1
  | dropSinks => cases hkeeps
  | configure settings => cases hkeeps

/-- As long as the sinks stay, the log file gets the line of every record
that is sent. -/
theorem fills_performAll (around : Surroundings) (requests : List Request)
    (hkeeps : ∀ request ∈ requests, request.keepsSinks = true) :
    ∀ {logger : Logger} {out : Outlets} {text : Bytes},
      Fills out.files handle format text logger.sinks →
      Fills (performAll around logger out requests).2.files handle format
        (text ++ fileLines around.layout format (logged around logger out requests))
        (performAll around logger out requests).1.sinks := by
  induction requests with
  | nil => exact fun h => by rwa [logged, fileLines, List.flatMap_nil, List.append_nil]
  | cons request rest ih =>
      intro logger out text h
      obtain ⟨hrequest, hrest⟩ := List.forall_mem_cons.mp hkeeps
      rw [logged, fileLines, List.flatMap_append, ← List.append_assoc]
      exact ih hrest (fills_perform around h hrequest)

/-- A request that flushes the sinks, or drops them, brings all lines into
the file. -/
theorem opened?_perform (around : Surroundings) {logger : Logger} {out : Outlets}
    (h : Fills out.files handle format text logger.sinks) {request : Request}
    (hflushes : request = .flush ∨ request.keepsSinks = false) :
    ∃ x, (perform around logger out request).2.files.opened? handle = some (text, x) := by
  rcases hflushes with rfl | hdrops
  · exact h.flush.2
  · cases does around logger out request with
    | sends _ hkeeps => exact absurd (hdrops.symm.trans hkeeps) Bool.false_ne_true
    | adds _ hkeeps => exact absurd (hdrops.symm.trans hkeeps) Bool.false_ne_true
    | flush => exact h.flush.2
    | dropSinks => exact h.flush.2
    | configure settings => exact (h.mono (open_configure around settings out).1).flush.2

theorem performAll_append (around : Surroundings) (front back : List Request) :
    ∀ (logger : Logger) (out : Outlets),
      performAll around logger out (front ++ back)
        = performAll around (performAll around logger out front).1
            (performAll around logger out front).2 back := by
  induction front with
  | nil => exact fun _ _ => rfl
  | cons request rest ih => exact fun _ _ => ih _ _

theorem due_cons (around : Surroundings) (logger : Logger) (out : Outlets) (request : Request)
    (rest : List Request) :
    due around logger out (request :: rest)
      = if request.keepsSinks then (logger.sent? request).toList
          ++ due around (perform around logger out request).1
            (perform around logger out request).2 rest
        else [] := by
  unfold due
  rw [List.takeWhile_cons]
  split <;> rfl

theorem due_concat (around : Surroundings) {requests : List Request}
    (hkeeps : ∀ request ∈ requests, request.keepsSinks = true) {last : Request}
    (hflushes : last = .flush ∨ last.keepsSinks = false) :
    ∀ (logger : Logger) (out : Outlets),
      due around logger out (requests ++ [last]) = logged around logger out requests := by
  induction requests with
  | nil =>
      intro logger out
      rw [due, List.nil_append]
      rcases hflushes with rfl | hdrops
      · rfl
      · rw [List.takeWhile_cons, hdrops]
        rfl
  | cons request rest ih =>
      intro logger out
      obtain ⟨hrequest, hrest⟩ := List.forall_mem_cons.mp hkeeps
      rw [List.cons_append, due_cons, if_pos hrequest, ih hrest, logged]

/-- A log file holds its share when its sink has been flushed. -/
theorem lookup_logFile (around : Surroundings) {logger : Logger} {out : Outlets}
    (hopen : ∀ sink ∈ logger.sinks, sink.Open out.files) {settings : Settings}
    (hfile : settings.logFile ≠ []) {files : FileTree} {l : Location}
    (hok : out.files.openFile settings.logFile = .ok (files, l)) {during : List Request}
    (hkeeps : ∀ request ∈ during, request.keepsSinks = true) {last : Request}
    (hflushes : last = .flush ∨ last.keepsSinks = false) :
    let opened := perform around logger out (.configure settings)
    ∃ x, (performAll around opened.1 opened.2 (during ++ [last])).2.files.lookup l
      = some (.file ((logger.close out).files.textAt l
          ++ fileLines around.layout settings.format
            (due around opened.1 opened.2 (during ++ [last]))) x) := by
  intro opened
  have hfills := fills_performAll around during hkeeps (fills_configure around hopen hfile hok)
  obtain ⟨x, hlast⟩ := opened?_perform around hfills hflushes
  refine ⟨x, ?_⟩
  rw [performAll_append, due_concat around hkeeps hflushes]
  exact (opened?_eq_some_iff.mp hlast).1

/-! ## What comes to the outlets -/

end Logger

/-- What comes to the outlets. -/
inductive Arrival where
  /-- A record, for a sink. -/
  | record (sink : Sink) (record : Record)
  | warning (text : Bytes)

namespace Arrival

/-- A record that goes to memory. -/
def kept? : Arrival → Option Record
  | .record .memory r => some r
  | .record (.console ..) _ => none
  | .record (.file ..) _ => none
  | .warning _ => none

/-- What is printed on the error stream. -/
def printed? (layout : Layout) : Arrival → Option Bytes
  | .record (.console colours format) r => some (r.render layout colours format)
  | .record .memory _ => none
  | .record (.file ..) _ => none
  | .warning text => some text

end Arrival

/-- Memory and the error stream have got exactly this, in this order. -/
structure Outlets.Gains (layout : Layout) (arrivals : List Arrival) (out out' : Outlets) :
    Prop where
  memory : out'.memory = out.memory ++ arrivals.filterMap Arrival.kept?
  stderr : out'.stderr = out.stderr ++ (arrivals.filterMap (Arrival.printed? layout)).flatten

namespace Outlets.Gains

variable {layout : Layout} {out out' out'' : Outlets} {arrivals more : List Arrival}

theorem of_eq (hmemory : out'.memory = out.memory) (hstderr : out'.stderr = out.stderr) :
    Gains layout [] out out' :=
  ⟨hmemory.trans (List.append_nil _).symm, hstderr.trans (List.append_nil _).symm⟩

theorem trans (h : Gains layout arrivals out out') (h' : Gains layout more out' out'') :
    Gains layout (arrivals ++ more) out out'' := by
  constructor
  · rw [h'.memory, h.memory, List.filterMap_append, List.append_assoc]
  · rw [h'.stderr, h.stderr, List.filterMap_append, List.flatten_append, List.append_assoc]

end Outlets.Gains

open Outlets (Gains)

namespace Sink

theorem gains_flush (layout : Layout) (sink : Sink) (out : Outlets) :
    Gains layout [] out (sink.flush out).2 := by
  cases sink <;> exact .of_eq rfl rfl

theorem gains_write (layout : Layout) (r : Record) (sink : Sink) (out : Outlets) :
    Gains layout [.record sink.drained r] out (sink.write layout r out).2 := by
  cases sink with
  | console colours format =>
      exact ⟨(List.append_nil _).symm, congrArg _ (List.append_nil _).symm⟩
  | memory => exact ⟨rfl, (List.append_nil _).symm⟩
  | file buffer format =>
      rw [write_file]
      split
      · exact ⟨(List.append_nil _).symm, (List.append_nil _).symm⟩
      · exact ⟨(List.append_nil _).symm, (List.append_nil _).symm⟩

end Sink

namespace Logger

theorem gains_eachSink {layout : Layout} {act : Sink → Outlets → Sink × Outlets}
    {arrivals : Sink → List Arrival}
    (hact : ∀ sink out, Gains layout (arrivals sink) out (act sink out).2) (sinks : List Sink)
    (out : Outlets) : Gains layout (sinks.flatMap arrivals) out (eachSink act sinks out).2 := by
  induction sinks generalizing out with
  | nil => exact .of_eq rfl rfl
  | cons sink rest ih => exact (hact sink out).trans (ih (act sink out).2)

theorem gains_close (layout : Layout) (logger : Logger) (out : Outlets) :
    Gains layout [] out (logger.close out) := by
  have h := gains_eachSink (Sink.gains_flush layout) logger.sinks out
  rwa [List.flatMap_eq_nil_iff.mpr fun _ _ => rfl] at h

/-- What a request brings to the outlets. -/
def arrived (logger : Logger) (out : Outlets) (request : Request) : List Arrival :=
  (logger.sent? request).toList.flatMap
      (fun r => (logger.sinks.map Sink.drained).map (Arrival.record · r))
    ++ (warning? out request).toList.map .warning

def arrivals (around : Surroundings) : Logger → Outlets → List Request → List Arrival
  | _, _, [] => []
  | logger, out, request :: rest =>
      let next := perform around logger out request
      arrived logger out request ++ arrivals around next.1 next.2 rest

theorem gains_configure (around : Surroundings) (logger : Logger) (settings : Settings)
    (out : Outlets) :
    Gains around.layout (arrived logger out (.configure settings)) out
      (configure around settings out).2 := by
  rcases configure_cases around settings out with
    ⟨files, l, hfile, hok⟩ | ⟨-, -, hout⟩
  · have hquiet : warning? out (.configure settings) = none := by
      rw [warning?, hok]
      exact if_pos (Or.inr rfl)
    rw [arrived, hquiet, (configure_opened around out hfile hok).2]
    exact .of_eq rfl rfl
  · rw [arrived, hout]
    cases warning? out (.configure settings) with
    | none => exact ⟨(List.append_nil _).symm, rfl⟩
    | some text => exact ⟨(List.append_nil _).symm, rfl⟩

theorem gains_perform (around : Surroundings) (logger : Logger) (out : Outlets)
    (request : Request) :
    Gains around.layout (arrived logger out request) out (perform around logger out request).2 := by
  cases does around logger out request with
  | @sends _ r hsent _ _ hquiet hperform =>
      rw [arrived, hsent, hquiet, hperform, Option.toList_some, List.flatMap_singleton,
        Option.toList_none, List.map_nil, List.append_nil, List.map_map,
        ← List.flatMap_pure_eq_map]
      exact gains_eachSink (Sink.gains_write around.layout r) logger.sinks out
  | adds hsent _ _ hquiet hout _ =>
      rw [arrived, hsent, hquiet, hout]
      exact .of_eq rfl rfl
  | flush => exact gains_close around.layout logger out
  | dropSinks => exact gains_close around.layout logger out
  | configure settings =>
      have hclosed := (gains_configure around logger settings out).trans
        (gains_close around.layout logger _)
      rwa [List.append_nil] at hclosed

theorem gains_performAll (around : Surroundings) (requests : List Request) :
    ∀ (logger : Logger) (out : Outlets),
      Gains around.layout (arrivals around logger out requests) out
        (performAll around logger out requests).2 := by
  induction requests with
  | nil => exact fun _ _ => .of_eq rfl rfl
  | cons request rest ih =>
      exact fun logger out => (gains_perform around logger out request).trans (ih _ _)

/-! ## The shares, taken together -/

/-- A share as it comes to the outlets. -/
def arrivalsOf (share : Sink × List Record) : List Arrival := share.2.map (.record share.1)

/-- The shares that are left after a request. -/
theorem shares_perform (around : Surroundings) (logger : Logger) (out : Outlets)
    (request : Request) (rest : List Request) :
    let next := perform around logger out request
    shares around next.1 next.2 rest
      = (if request.keepsSinks then logger.sinks.map Sink.drained else []).map
          (·, due around next.1 next.2 rest)
        ++ laterShares around logger out (request :: rest) := by
  intro next
  rw [shares, drained_perform, List.map_append, List.append_assoc]
  rfl

theorem sent?_of_drops (logger : Logger) {request : Request} (h : request.keepsSinks = false) :
    logger.sent? request = none := by
  cases request <;> first | rfl | cases h

/-- What comes to the outlets is the shares of all sinks, and the warnings. -/
theorem interleaved_arrivals (around : Surroundings) (requests : List Request) :
    ∀ (logger : Logger) (out : Outlets),
      Interleaved ((shares around logger out requests).map arrivalsOf
          ++ [(warnings around logger out requests).map .warning])
        (arrivals around logger out requests) := by
  induction requests with
  | nil =>
      intro logger out
      refine .nil (List.forall_mem_append.mpr ⟨?_, List.forall_mem_singleton.mpr rfl⟩)
      intro l hmem
      obtain ⟨share, hshare, rfl⟩ := List.mem_map.mp hmem
      rw [shares, laterShares, List.append_nil] at hshare
      obtain ⟨sink, -, rfl⟩ := List.mem_map.mp hshare
      rfl
  | cons request rest ih =>
      intro logger out
      have hnext := ih (perform around logger out request).1 (perform around logger out request).2
      have hwarned := hnext.concat_append ((warning? out request).toList.map Arrival.warning)
      rw [shares_perform, List.map_append, List.append_assoc] at hwarned
      rw [shares, due_cons, List.map_append, List.append_assoc, arrivals, arrived,
        List.append_assoc, warnings, List.map_append]
      cases hkeeps : request.keepsSinks with
      | false =>
          rw [hkeeps] at hwarned
          rw [sent?_of_drops logger hkeeps]
          refine Interleaved.append_left ?_ hwarned
          intro l hmem
          obtain ⟨share, hshare, rfl⟩ := List.mem_map.mp hmem
          obtain ⟨sink, -, rfl⟩ := List.mem_map.mp hshare
          rfl
      | true =>
          rw [hkeeps] at hwarned
          cases logger.sent? request with
          | none => exact hwarned
          | some r =>
              rw [Option.toList_some, List.flatMap_singleton]
              rw [List.map_map] at hwarned ⊢
              exact hwarned.heads _ (Arrival.record · r) _ []

/-- Every record reaches every sink once. What memory and the error stream
get is the shares of all sinks taken together, each sink's in the order in
which they were sent, and the warnings. A log file that was opened by
`configure` holds, once its sink was flushed, what it held before, with
what the sinks before had held back for it, and then its share line by
line.

Sinks are open when they are installed and stay so (`open_performAll`);
the first ones of the run must be. -/
theorem deliver_exactly_once (around : Surroundings) {logger : Logger} {out : Outlets}
    (hopen : ∀ sink ∈ logger.sinks, sink.Open out.files) (requests : List Request) :
    let final := (performAll around logger out requests).2
    (∃ arrivals,
      Interleaved ((shares around logger out requests).map arrivalsOf
        ++ [(warnings around logger out requests).map .warning]) arrivals ∧
      Gains around.layout arrivals out final) ∧
    ∀ before settings during last,
      requests = before ++ .configure settings :: (during ++ [last]) →
      (∀ request ∈ during, request.keepsSinks = true) →
      (last = .flush ∨ last.keepsSinks = false) →
      let start := performAll around logger out before
      let opened := perform around start.1 start.2 (.configure settings)
      ∀ files l, settings.logFile ≠ [] →
        start.2.files.openFile settings.logFile = .ok (files, l) →
        ∃ x, final.files.lookup l
          = some (.file ((start.1.close start.2).files.textAt l
              ++ fileLines around.layout settings.format
                (due around opened.1 opened.2 (during ++ [last]))) x) := by
  intro final
  refine ⟨⟨arrivals around logger out requests, interleaved_arrivals around requests logger out,
    gains_performAll around requests logger out⟩, ?_⟩
  intro before settings during last hrequests hkeeps hflushes start opened files l hfile hok
  have hstart := open_performAll around before hopen
  obtain ⟨x, hlookup⟩ := lookup_logFile around hstart hfile hok hkeeps hflushes
  refine ⟨x, ?_⟩
  have hfinal : final = (performAll around opened.1 opened.2 (during ++ [last])).2 := by
    show (performAll around logger out requests).2 = _
    rw [hrequests, performAll_append]
    rfl
  rw [hfinal]
  exact hlookup

/-- A console first, then a log file, with two records for it. -/
theorem deliver_exactly_once_logFile :
    let around : Surroundings := ⟨[], false, Layout.plain []⟩
    let logger := atLevel Level.info [.console false .text, .memory]
    let out : Outlets := ⟨FileTree.empty [], [], []⟩
    let early : Record := ⟨Level.info, "build", "early", none, 0, 0⟩
    let shown : Record := ⟨Level.warn, "build", "shown", none, 0, 0⟩
    let hidden : Record := ⟨Level.debug, "build", "hidden", none, 0, 0⟩
    let settings : Settings := { logFile := "a.log" }
    let during : List Request := [.log shown, .log hidden, .keepInMemory, .write hidden]
    let opened := perform around (performAll around logger out [.log early]).1
      (performAll around logger out [.log early]).2 (.configure settings)
    (∀ sink ∈ logger.sinks, sink.Open out.files) ∧
      due around opened.1 opened.2 (during ++ [.flush]) = [shown, hidden] ∧
      ∃ x, (performAll around logger out (.log early :: .configure settings ::
          (during ++ [.flush]))).2.files.lookup ["a.log"]
        = some (.file (fileLines around.layout .text [shown, hidden]) x) := by
  intro around logger out early shown hidden settings during opened
  have hopen : ∀ sink ∈ logger.sinks, sink.Open out.files := by
    refine List.forall_mem_cons.mpr ⟨trivial, List.forall_mem_singleton.mpr trivial⟩
  have hdue : due around opened.1 opened.2 (during ++ [.flush]) = [shown, hidden] := by decide
  have hfile := (deliver_exactly_once around hopen (.log early :: .configure settings ::
    (during ++ [.flush]))).2 [.log early] settings during .flush rfl (by decide) (Or.inl rfl)
    _ ["a.log"] (by decide) rfl
  exact ⟨hopen, hdue, hfile⟩

/-- A logger that was set below `trace` answers that the level is shown, but
the statement is not in the program. -/
theorem shown_statement_not_sent :
    let around : Surroundings := ⟨[], false, Layout.plain []⟩
    let out : Outlets := ⟨FileTree.empty [], [], []⟩
    let r : Record := ⟨-1, "build", "x", none, 0, 0⟩
    let start := performAll around (atLevel Level.info [.memory]) out [.setLevel (-1)]
    start.1.shouldLog r.level r.topic = true ∧
      (performAll around start.1 start.2 [.log r]).2.memory = [] := by
  decide

end Logger

end Log

end Prebuilt
