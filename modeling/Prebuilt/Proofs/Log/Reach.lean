import Prebuilt.Console
import Prebuilt.Proofs.FileTree.Changes

/-!
# What a logger can reach

A logger writes to the error stream, to memory, and to the files that it
has opened. `Console.Within P t c` says that a console keeps to the
locations `P` in a tree that was `t` at first: its logger has opened no
other file, and nothing else has changed. Delivering an event keeps it
so, and so does opening the log file that settings name, if `P` is where
its path leads.
-/

namespace Prebuilt

open FileTree

variable {P : Location → Prop}

namespace Log

/-! ## Sinks -/

/-- The sink writes to none but these locations. -/
def Sink.Within (P : Location → Prop) : Sink → Prop
  | .file buffer _ => P buffer.handle.location
  | .console .. => True
  | .memory => True

/-- A sink and its outlets after it has acted. -/
structure Sink.Kept (P : Location → Prop) (files : FileTree) (after : Sink × Outlets) : Prop where
  sink : after.1.Within P
  files : ChangedOnly P files after.2.files

theorem Sink.kept_flush {sink : Sink} (h : sink.Within P) (out : Outlets) :
    Kept P out.files (sink.flush out) := by
  cases sink with
  | file buffer format => exact ⟨h, changedOnly_append _ h _⟩
  | console colours format => exact ⟨h, .refl _⟩
  | memory => exact ⟨h, .refl _⟩

theorem BufferedFile.handle_write (b : BufferedFile) (bytes : Bytes) (files : FileTree) :
    (b.write bytes files).1.handle = b.handle := by
  unfold write
  dsimp only
  split <;> rfl

theorem BufferedFile.changedOnly_write {b : BufferedFile} (h : P b.handle.location)
    (bytes : Bytes) (files : FileTree) : ChangedOnly P files (b.write bytes files).2 := by
  unfold write
  dsimp only
  split
  · exact changedOnly_append _ h _
  · exact .refl _

theorem Sink.kept_write {sink : Sink} (h : sink.Within P) (layout : Layout) (r : Record)
    (out : Outlets) : Kept P out.files (sink.write layout r out) := by
  cases sink with
  | console colours format => exact ⟨h, .refl _⟩
  | memory => exact ⟨h, .refl _⟩
  | file buffer format =>
      let lined := buffer.write (r.written layout false format) out.files
      let ended := lined.1.write "\n" lined.2
      have hlined : P lined.1.handle.location := by
        rw [BufferedFile.handle_write]
        exact h
      have hended : P ended.1.handle.location := by
        rw [BufferedFile.handle_write]
        exact hlined
      have hfiles : ChangedOnly P out.files ended.2 :=
        (BufferedFile.changedOnly_write h _ _).trans (BufferedFile.changedOnly_write hlined _ _)
      show Kept P out.files (if Level.error ≤ r.level then
        (Sink.file ended.1 format).flush { out with files := ended.2 }
        else (.file ended.1 format, { out with files := ended.2 }))
      split
      · have hwithin : (Sink.file ended.1 format).Within P := hended
        obtain ⟨hsink, hflushed⟩ := kept_flush hwithin { out with files := ended.2 }
        exact ⟨hsink, hfiles.trans hflushed⟩
      · exact ⟨hended, hfiles⟩

/-! ## Loggers -/

namespace Logger

/-- Sinks that act in turn keep to their locations if each of them does. -/
theorem within_eachSink {act : Sink → Outlets → Sink × Outlets}
    (hact : ∀ sink out, sink.Within P → Sink.Kept P out.files (act sink out)) :
    ∀ (sinks : List Sink) (out : Outlets), (∀ sink ∈ sinks, sink.Within P) →
      (∀ sink ∈ (eachSink act sinks out).1, sink.Within P) ∧
        ChangedOnly P out.files (eachSink act sinks out).2.files
  | [], out, _ => ⟨List.forall_mem_nil _, .refl _⟩
  | sink :: rest, out, h => by
      obtain ⟨hsink, hrest⟩ := List.forall_mem_cons.mp h
      obtain ⟨hacted, hfiles⟩ := hact sink out hsink
      obtain ⟨hothers, hmore⟩ := within_eachSink hact rest (act sink out).2 hrest
      exact ⟨List.forall_mem_cons.mpr ⟨hacted, hothers⟩, hfiles.trans hmore⟩

theorem within_log {logger : Logger} (h : ∀ sink ∈ logger.sinks, sink.Within P)
    (layout : Layout) (r : Record) (out : Outlets) :
    (∀ sink ∈ (logger.log layout r out).1.sinks, sink.Within P) ∧
      ChangedOnly P out.files (logger.log layout r out).2.files := by
  unfold log
  split
  · exact within_eachSink (fun sink out hsink => Sink.kept_write hsink layout r out)
      logger.sinks out h
  · exact ⟨h, .refl _⟩

theorem changedOnly_close {logger : Logger} (h : ∀ sink ∈ logger.sinks, sink.Within P)
    (out : Outlets) : ChangedOnly P out.files (logger.close out).files :=
  (within_eachSink (fun _ out hsink => Sink.kept_flush hsink out) logger.sinks out h).2

/-- Setting up a logger opens the log file, if there is one, and changes
nothing else. -/
theorem within_configure (around : Surroundings) (settings : Settings) (out : Outlets) :
    (∀ sink ∈ (configure around settings out).1.sinks,
        sink.Within fun k => out.files.resolve settings.logFile = .ok k) ∧
      ChangedOnly (fun k => out.files.resolve settings.logFile = .ok k) out.files
        (configure around settings out).2.files := by
  have hconsole : ∀ sink ∈ (if settings.console then
      [(Sink.openConsole around.interactive around.environment settings.colours).withFormat
        settings.format] else []),
      sink.Within fun k => out.files.resolve settings.logFile = .ok k := by
    intro sink hsink
    split at hsink
    · rw [List.mem_singleton.mp hsink]
      trivial
    · cases hsink
  unfold configure
  dsimp only
  split
  · exact ⟨hconsole, .refl _⟩
  · split
    · rename_i files sink hopen
      rw [Sink.openFile] at hopen
      split at hopen
      · cases hopen
      · rename_i opened location hopened
        obtain ⟨rfl, rfl⟩ := Prod.mk.inj (Option.some.inj hopen)
        obtain ⟨hlocation, hchanged⟩ := changedOnly_openFile hopened
        refine ⟨List.forall_mem_append.mpr ⟨hconsole, ?_⟩, hchanged⟩
        intro sink hsink
        rw [List.mem_singleton.mp hsink]
        exact hlocation
    · exact ⟨hconsole, .refl _⟩

/-- What can be read is the same after setting up a logger, but for the
log file if it was not there. -/
theorem read?_configure (around : Surroundings) (settings : Settings) (out : Outlets) (p : Path) :
    (configure around settings out).2.files.read? p = out.files.read? p ∨
      out.files.read? p = none ∧ (configure around settings out).2.files.read? p = some [] := by
  unfold configure
  dsimp only
  split
  · exact Or.inl rfl
  · split
    · rename_i files sink hopen
      rw [Sink.openFile] at hopen
      split at hopen
      · cases hopen
      · rename_i opened location hopened
        obtain ⟨rfl, -⟩ := Prod.mk.inj (Option.some.inj hopen)
        exact read?_openFile hopened p
    · exact Or.inl rfl

end Logger

end Log

/-! ## The console -/

namespace Console

/-- The console has kept to these locations. -/
structure Within (P : Location → Prop) (t : FileTree) (c : Console) : Prop where
  sinks : ∀ sink ∈ c.logger.sinks, sink.Within P
  files : ChangedOnly P t c.outlets.files

variable {t : FileTree} {c : Console} {layout : Log.Layout} {millis : Int} {echo : Bool}

theorem Within.log (h : Within P t c) (level : Log.Level) (topic message : Bytes) :
    Within P t (c.log layout millis level topic message) := by
  obtain ⟨hsinks, hfiles⟩ :=
    Log.Logger.within_log h.sinks layout (record millis level topic message) c.outlets
  exact ⟨hsinks, h.files.trans hfiles⟩

theorem Within.deliver (h : Within P t c) (event : Event) :
    Within P t (c.deliver layout millis echo event) := by
  cases event with
  | log level topic message => exact h.log level topic message
  | command line =>
      unfold Console.deliver
      dsimp only
      split
      · exact ⟨h.sinks, h.files⟩
      · exact h.log _ _ _
  | stdout text => exact ⟨h.sinks, h.files⟩
  | stderr text => exact ⟨h.sinks, h.files⟩

theorem Within.deliverAll (h : Within P t c) (events : List Event) :
    Within P t (c.deliverAll layout millis echo events) := by
  induction events generalizing c with
  | nil => exact h
  | cons event rest ih => exact ih (h.deliver event)

theorem Within.close (h : Within P t c) :
    ChangedOnly P t (c.logger.close c.outlets).files :=
  h.files.trans (Log.Logger.changedOnly_close h.sinks c.outlets)

/-! ## Standard output -/

/-- Only text for it comes to standard output. -/
theorem stdout_deliver {event : Event} (h : ∀ text, event ≠ .stdout text) :
    (c.deliver layout millis echo event).stdout = c.stdout := by
  cases event with
  | log level topic message => rfl
  | command line =>
      unfold deliver
      dsimp only
      split <;> rfl
  | stdout text => exact absurd rfl (h text)
  | stderr text => rfl

theorem stdout_deliverAll {events : List Event} (h : ∀ text, .stdout text ∉ events) :
    (c.deliverAll layout millis echo events).stdout = c.stdout := by
  induction events generalizing c with
  | nil => rfl
  | cons event rest ih =>
      have hevent : ∀ text, event ≠ .stdout text := by
        rintro text rfl
        exact h text (List.mem_cons_self ..)
      exact (ih fun text hmem => h text (List.mem_cons_of_mem _ hmem)).trans
        (stdout_deliver hevent)

end Console

end Prebuilt
