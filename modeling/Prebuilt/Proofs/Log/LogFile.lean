import Prebuilt.Proofs.Log.Gate
import Prebuilt.Proofs.Log.Reach

/-!
# What a log file ends up with

A file sink and its file share what was written: some of it is in the
file, the rest is still in the sink's buffer. `Sink.Holds` says that both
together are a given text, and `Logger.Fills` that a logger has one such
sink and no other that writes to a file. A record adds its rendered line
to the text (`Fills.write`), and flushing brings all of it into the file
(`Fills.flush`).

A logger removes no file, so what was open stays open while its sinks act
(`StaysOpen`). Therefore a log file may be opened before the sinks that
wrote to it are closed: it starts with all that they held
(`opened?_reopened`).
-/

namespace Prebuilt

/-! ## Open files -/

namespace FileTree

variable {t t' t'' : FileTree} {h : Handle} {l : Location} {p : Path} {content : Bytes} {x : Bool}

theorem opened?_eq_some_iff : t.opened? h = some (content, x)
    ↔ t.lookup h.location = some (.file content x) ∧ h = t.handle h.location := by
  unfold opened?
  split
  · rename_i content' x' hfile
    rw [hfile]
    by_cases hage : h = t.handle h.location
    · rw [if_pos hage]
      simp only [Option.some.injEq, Prod.mk.injEq, Entry.file.injEq, iff_true_intro hage, and_true]
    · rw [if_neg hage]
      exact ⟨nofun, fun hopen => absurd hopen.2 hage⟩
  · rename_i hnofile
    exact ⟨nofun, fun hopen => absurd hopen.1 (hnofile content x)⟩

theorem ne_root_of_opened? (hopen : t.opened? h = some (content, x)) : h.location ≠ [] := by
  intro hroot
  have hfile := (opened?_eq_some_iff.mp hopen).1
  rw [hroot] at hfile
  cases hfile

/-- What is added to an open file is added at its end. -/
theorem opened?_append (hopen : t.opened? h = some (content, x)) (more : Bytes) :
    (t.append h more).opened? h = some (content ++ more, x) := by
  rw [append, hopen]
  refine opened?_eq_some_iff.mpr ⟨?_, (opened?_eq_some_iff.mp hopen).2⟩
  rw [lookup_put t (ne_root_of_opened? hopen), if_pos rfl]

/-- Opening a file finds it, or makes it empty where nothing was. -/
theorem openFile_cases (hok : t.openFile p = .ok (t', l)) :
    t' = t ∧ (∃ content x, t.lookup l = some (.file content x)) ∨
      t.lookup l = none ∧ t' = t.put l (.file [] false) := by
  unfold openFile at hok
  split at hok
  · cases hok
  · split at hok
    · cases hok
    · rename_i hfile
      obtain ⟨rfl, rfl⟩ := Prod.mk.inj (Except.ok.inj hok)
      exact Or.inl ⟨rfl, _, _, hfile⟩
    · rename_i hfree
      obtain ⟨rfl, rfl⟩ := Prod.mk.inj (Except.ok.inj hok)
      exact Or.inr ⟨hfree, rfl⟩

/-- Opening a file does nothing to the files that were open before. -/
theorem opened?_openFile (hok : t.openFile p = .ok (t', l))
    (hopen : t.opened? h = some (content, x)) : t'.opened? h = some (content, x) := by
  rcases openFile_cases hok with ⟨rfl, -⟩ | ⟨hfree, rfl⟩
  · exact hopen
  · obtain ⟨hfile, hage⟩ := opened?_eq_some_iff.mp hopen
    have hne : h.location ≠ l := by
      rintro rfl
      rw [hfree] at hfile
      cases hfile
    exact opened?_eq_some_iff.mpr ⟨(lookup_put_of_ne t hne).trans hfile, hage⟩

/-- Every file is still there, and a handle to it is still good. -/
structure StaysOpen (t t' : FileTree) : Prop where
  emptied : t'.emptied = t.emptied
  file : ∀ {l content x}, t.lookup l = some (.file content x) →
    ∃ content', t'.lookup l = some (.file content' x)

namespace StaysOpen

theorem refl (t : FileTree) : StaysOpen t t := ⟨rfl, fun h => ⟨_, h⟩⟩

theorem trans (h : StaysOpen t t') (h' : StaysOpen t' t'') : StaysOpen t t'' := by
  refine ⟨h'.emptied.trans h.emptied, fun hfile => ?_⟩
  obtain ⟨content', hfile'⟩ := h.file hfile
  exact h'.file hfile'

theorem handle (hstays : StaysOpen t t') (l : Location) : t'.handle l = t.handle l := by
  rw [FileTree.handle, FileTree.handle, hstays.emptied]

theorem isSome_opened? (hstays : StaysOpen t t') (hopen : (t.opened? h).isSome) :
    (t'.opened? h).isSome := by
  obtain ⟨⟨content, x⟩, hopen⟩ := Option.isSome_iff_exists.mp hopen
  obtain ⟨hfile, hage⟩ := opened?_eq_some_iff.mp hopen
  obtain ⟨content', hfile'⟩ := hstays.file hfile
  have hopen' : t'.opened? h = some (content', x) :=
    opened?_eq_some_iff.mpr ⟨hfile', hage.trans (hstays.handle _).symm⟩
  rw [hopen', Option.isSome_some]

end StaysOpen

theorem staysOpen_append (t : FileTree) (h : Handle) (more : Bytes) :
    StaysOpen t (t.append h more) := by
  unfold append
  split
  · rename_i content x hopen
    refine ⟨rfl, fun {l old y} hfile => ?_⟩
    by_cases hl : l = h.location
    · subst hl
      rw [(opened?_eq_some_iff.mp hopen).1] at hfile
      cases hfile
      exact ⟨content ++ more, by rw [lookup_put t (ne_root_of_opened? hopen), if_pos rfl]⟩
    · exact ⟨old, (lookup_put_of_ne t hl).trans hfile⟩
  · exact .refl t

/-- The text of the file at a location, empty if there is none. -/
def textAt (t : FileTree) (l : Location) : Bytes :=
  match t.lookup l with
  | some (.file content _) => content
  | _ => []

end FileTree

open FileTree

namespace Log

/-! ## Sinks -/

namespace Sink

/-- The file that the sink writes to, if it does, is open. -/
def Open (files : FileTree) : Sink → Prop
  | .file buffer _ => (files.opened? buffer.handle).isSome
  | .console .. => True
  | .memory => True

def isFile : Sink → Bool
  | .file .. => true
  | .console .. => false
  | .memory => false

/-- The sink without what it holds back. It says where the sink writes
to and how, and acting does not change it. -/
def drained : Sink → Sink
  | .file buffer format => .file { buffer with pending := [] } format
  | .console colours format => .console colours format
  | .memory => .memory

theorem Open.stays {files files' : FileTree} {sink : Sink} (h : sink.Open files)
    (hstays : StaysOpen files files') : sink.Open files' := by
  cases sink with
  | file buffer format => exact hstays.isSome_opened? h
  | console colours format => trivial
  | memory => trivial

theorem open_of_isFile {files : FileTree} {sink : Sink} (h : sink.isFile = false) :
    sink.Open files := by
  cases sink with
  | file buffer format => cases h
  | console colours format => trivial
  | memory => trivial

theorem open_drained {files : FileTree} {sink : Sink} :
    sink.drained.Open files ↔ sink.Open files := by
  cases sink <;> exact Iff.rfl

/-- The sink writes to this file in this format, and the file together
with what the sink holds back is this text. -/
def Holds (files : FileTree) (handle : Handle) (format : Format) (text : Bytes)
    (sink : Sink) : Prop :=
  ∃ pending stored x, sink = .file ⟨handle, pending⟩ format ∧
    files.opened? handle = some (stored, x) ∧ stored ++ pending = text

variable {out : Outlets} {handle : Handle} {format : Format} {text : Bytes} {sink : Sink}

theorem Holds.flush (h : sink.Holds out.files handle format text) :
    (sink.flush out).1.Holds (sink.flush out).2.files handle format text ∧
      ∃ x, (sink.flush out).2.files.opened? handle = some (text, x) := by
  obtain ⟨pending, stored, x, rfl, hopen, rfl⟩ := h
  have hopen' : (out.files.append handle pending).opened? handle = some (stored ++ pending, x) :=
    opened?_append hopen pending
  exact ⟨⟨[], stored ++ pending, x, rfl, hopen', List.append_nil _⟩, x, hopen'⟩

/-- More bytes for a buffer are more bytes for what it shares with its file. -/
theorem holds_write_buffer {files : FileTree} {buffer : BufferedFile}
    (h : (Sink.file buffer format).Holds files handle format text) (bytes : Bytes) :
    (Sink.file (buffer.write bytes files).1 format).Holds (buffer.write bytes files).2 handle
      format (text ++ bytes) := by
  obtain ⟨pending, stored, x, hsink, hopen, rfl⟩ := h
  obtain ⟨rfl, -⟩ := Sink.file.inj hsink
  unfold BufferedFile.write
  dsimp only
  split
  · have hopen' := opened?_append hopen (pending ++ bytes)
    exact ⟨[], _, x, rfl, hopen', by simp only [List.append_nil, List.append_assoc]⟩
  · exact ⟨pending ++ bytes, stored, x, rfl, hopen, (List.append_assoc ..).symm⟩

/-- A buffer after a line and its end were written to it. -/
def lineWritten (buffer : BufferedFile) (line : Bytes) (files : FileTree) :
    BufferedFile × FileTree :=
  (buffer.write line files).1.write "\n" (buffer.write line files).2

theorem write_file (layout : Layout) (r : Record) (buffer : BufferedFile) (format : Format)
    (out : Outlets) :
    let ended := lineWritten buffer (r.written layout false format) out.files
    Sink.write layout r (.file buffer format) out
      = if Level.error ≤ r.level then
          (Sink.file ended.1 format).flush { out with files := ended.2 }
        else (.file ended.1 format, { out with files := ended.2 }) := rfl

theorem Holds.write (h : sink.Holds out.files handle format text) (layout : Layout) (r : Record) :
    (sink.write layout r out).1.Holds (sink.write layout r out).2.files handle format
      (text ++ r.render layout false format) := by
  obtain ⟨pending, -, -, rfl, -⟩ := id h
  let ended := lineWritten ⟨handle, pending⟩ (r.written layout false format) out.files
  let landed : Outlets := { out with files := ended.2 }
  have hended : (Sink.file ended.1 format).Holds landed.files handle format
      (text ++ r.render layout false format) := by
    rw [Record.render, ← List.append_assoc]
    exact holds_write_buffer (holds_write_buffer h _) "\n"
  rw [write_file]
  split
  · exact hended.flush.1
  · exact hended

/-- What a sink does when it writes or is flushed: it stays the sink it
was, removes no file, and touches no file unless it writes to one. -/
structure Tame (act : Sink → Outlets → Sink × Outlets) : Prop where
  drained : ∀ sink out, (act sink out).1.drained = sink.drained
  staysOpen : ∀ sink out, StaysOpen out.files (act sink out).2.files
  elsewhere : ∀ sink out, sink.isFile = false →
    (act sink out).1 = sink ∧ (act sink out).2.files = out.files

theorem tame_flush : Tame Sink.flush where
  drained sink _ := by cases sink <;> rfl
  staysOpen sink out := by
    cases sink with
    | file buffer format => exact staysOpen_append _ _ _
    | console colours format => exact .refl _
    | memory => exact .refl _
  elsewhere sink _ h := by
    cases sink with
    | file buffer format => cases h
    | console colours format => exact ⟨rfl, rfl⟩
    | memory => exact ⟨rfl, rfl⟩

theorem staysOpen_write_buffer (buffer : BufferedFile) (bytes : Bytes) (files : FileTree) :
    StaysOpen files (buffer.write bytes files).2 := by
  unfold BufferedFile.write
  dsimp only
  split
  · exact staysOpen_append _ _ _
  · exact .refl _

theorem tame_write (layout : Layout) (r : Record) : Tame (Sink.write layout r) where
  drained sink out := by
    cases sink with
    | file buffer format =>
        have hended : ∀ line, (Sink.file (lineWritten buffer line out.files).1 format).drained
            = (Sink.file buffer format).drained := by
          intro line
          rw [drained, drained, lineWritten, BufferedFile.handle_write, BufferedFile.handle_write]
        rw [write_file]
        split
        · exact (tame_flush.drained _ _).trans (hended _)
        · exact hended _
    | console colours format => rfl
    | memory => rfl
  staysOpen sink out := by
    cases sink with
    | file buffer format =>
        have hended : ∀ line, StaysOpen out.files (lineWritten buffer line out.files).2 :=
          fun line => (staysOpen_write_buffer buffer line _).trans
            (staysOpen_write_buffer _ "\n" _)
        rw [write_file]
        split
        · exact (hended _).trans (tame_flush.staysOpen _ { out with files := _ })
        · exact hended _
    | console colours format => exact .refl _
    | memory => exact .refl _
  elsewhere sink out h := by
    cases sink with
    | file buffer format => cases h
    | console colours format => exact ⟨rfl, rfl⟩
    | memory => exact ⟨rfl, rfl⟩

end Sink

/-! ## Loggers -/

namespace Logger

section EachSink

variable {act : Sink → Outlets → Sink × Outlets}

theorem eachSink_cons (act : Sink → Outlets → Sink × Outlets) (sink : Sink) (rest : List Sink)
    (out : Outlets) :
    eachSink act (sink :: rest) out
      = ((act sink out).1 :: (eachSink act rest (act sink out).2).1,
          (eachSink act rest (act sink out).2).2) := rfl

theorem eachSink_append (act : Sink → Outlets → Sink × Outlets) (front back : List Sink)
    (out : Outlets) :
    eachSink act (front ++ back) out
      = ((eachSink act front out).1 ++ (eachSink act back (eachSink act front out).2).1,
          (eachSink act back (eachSink act front out).2).2) := by
  induction front generalizing out with
  | nil => rfl
  | cons sink rest ih => rw [List.cons_append, eachSink_cons, ih, eachSink_cons, List.cons_append]

theorem drained_eachSink (hact : Sink.Tame act) (sinks : List Sink) (out : Outlets) :
    (eachSink act sinks out).1.map Sink.drained = sinks.map Sink.drained := by
  induction sinks generalizing out with
  | nil => rfl
  | cons sink rest ih => rw [eachSink_cons, List.map_cons, List.map_cons, hact.drained, ih]

theorem staysOpen_eachSink (hact : Sink.Tame act) (sinks : List Sink) (out : Outlets) :
    StaysOpen out.files (eachSink act sinks out).2.files := by
  induction sinks generalizing out with
  | nil => exact .refl _
  | cons sink rest ih => exact (hact.staysOpen sink out).trans (ih (act sink out).2)

theorem open_eachSink (hact : Sink.Tame act) {sinks : List Sink} {out : Outlets}
    (h : ∀ sink ∈ sinks, sink.Open out.files) :
    ∀ sink ∈ (eachSink act sinks out).1, sink.Open (eachSink act sinks out).2.files := by
  intro sink hmem
  have hdrained := List.mem_map_of_mem (f := Sink.drained) hmem
  rw [drained_eachSink hact] at hdrained
  obtain ⟨old, hold, hsame⟩ := List.mem_map.mp hdrained
  rw [← Sink.open_drained, ← hsame, Sink.open_drained]
  exact (h old hold).stays (staysOpen_eachSink hact sinks out)

/-- Sinks that write to no file leave the files alone. -/
theorem eachSink_elsewhere (hact : Sink.Tame act) :
    ∀ {sinks : List Sink} (out : Outlets), (∀ sink ∈ sinks, sink.isFile = false) →
      (eachSink act sinks out).1 = sinks ∧ (eachSink act sinks out).2.files = out.files
  | [], _, _ => ⟨rfl, rfl⟩
  | sink :: rest, out, h => by
      obtain ⟨hsink, hrest⟩ := List.forall_mem_cons.mp h
      obtain ⟨hsame, hfiles⟩ := hact.elsewhere sink out hsink
      obtain ⟨hothers, hmore⟩ := eachSink_elsewhere hact (act sink out).2 hrest
      exact ⟨congrArg₂ List.cons hsame hothers, hmore.trans hfiles⟩

end EachSink

/-! ## The one log file -/

/-- One of the sinks writes to a file. It is this file, in this format,
and what the file and the sink have together is this text. -/
def Fills (files : FileTree) (handle : Handle) (format : Format) (text : Bytes)
    (sinks : List Sink) : Prop :=
  ∃ front sink back, sinks = front ++ sink :: back ∧ (∀ other ∈ front, other.isFile = false) ∧
    (∀ other ∈ back, other.isFile = false) ∧ sink.Holds files handle format text

section Fills

variable {act : Sink → Outlets → Sink × Outlets} {sinks : List Sink} {out : Outlets}
  {handle : Handle} {format : Format} {text : Bytes}

theorem Fills.mono {files files' : FileTree} (h : Fills files handle format text sinks)
    (hopen : ∀ {stored x}, files.opened? handle = some (stored, x) →
      files'.opened? handle = some (stored, x)) : Fills files' handle format text sinks := by
  obtain ⟨front, sink, back, rfl, hfront, hback, pending, stored, x, hsink, hstored, htext⟩ := h
  exact ⟨front, sink, back, rfl, hfront, hback, pending, stored, x, hsink, hopen hstored, htext⟩

/-- Of sinks that act in turn, only the one that writes to the file counts. -/
theorem Fills.eachSink_eq (hact : Sink.Tame act) (h : Fills out.files handle format text sinks) :
    ∃ sink before front back, sink.Holds before.files handle format text ∧
      (eachSink act sinks out).1 = front ++ (act sink before).1 :: back ∧
      (∀ other ∈ front, other.isFile = false) ∧ (∀ other ∈ back, other.isFile = false) ∧
      (eachSink act sinks out).2.files = (act sink before).2.files := by
  obtain ⟨front, sink, back, rfl, hfront, hback, hsink⟩ := h
  obtain ⟨hsame, hfiles⟩ := eachSink_elsewhere hact out hfront
  obtain ⟨hothers, hmore⟩ :=
    eachSink_elsewhere hact (act sink (eachSink act front out).2).2 hback
  refine ⟨sink, (eachSink act front out).2, front, back, hfiles ▸ hsink, ?_, hfront, hback, ?_⟩
  · rw [eachSink_append, eachSink_cons, hsame, hothers]
  · rw [eachSink_append, eachSink_cons]
    exact hmore

/-- A record adds its line. -/
theorem Fills.write (h : Fills out.files handle format text sinks) (layout : Layout) (r : Record) :
    Fills (eachSink (Sink.write layout r) sinks out).2.files handle format
      (text ++ r.render layout false format) (eachSink (Sink.write layout r) sinks out).1 := by
  obtain ⟨sink, before, front, back, hsink, hsinks, hfront, hback, hfiles⟩ :=
    h.eachSink_eq (Sink.tame_write layout r)
  rw [hsinks, hfiles]
  exact ⟨front, _, back, rfl, hfront, hback, hsink.write layout r⟩

/-- Flushing adds nothing and brings everything into the file. -/
theorem Fills.flush (h : Fills out.files handle format text sinks) :
    Fills (eachSink Sink.flush sinks out).2.files handle format text
        (eachSink Sink.flush sinks out).1 ∧
      ∃ x, (eachSink Sink.flush sinks out).2.files.opened? handle = some (text, x) := by
  obtain ⟨sink, before, front, back, hsink, hsinks, hfront, hback, hfiles⟩ :=
    h.eachSink_eq Sink.tame_flush
  rw [hsinks, hfiles]
  exact ⟨⟨front, _, back, rfl, hfront, hback, hsink.flush.1⟩, hsink.flush.2⟩

end Fills

/-! ## Opening it again -/

/-- A file that is opened while sinks still write to it has the text, when
these are closed, that closing them gives it anyway. -/
theorem opened?_reopened {sinks : List Sink} {out : Outlets} {files : FileTree} {p : Path}
    {l : Location} (hopen : ∀ sink ∈ sinks, sink.Open out.files)
    (hok : out.files.openFile p = .ok (files, l)) :
    ∃ x, (eachSink Sink.flush sinks { out with files := files }).2.files.opened? (files.handle l)
      = some ((eachSink Sink.flush sinks out).2.files.textAt l, x) := by
  rcases openFile_cases hok with ⟨rfl, content, x, hfile⟩ | ⟨hfree, rfl⟩
  · have hstays := staysOpen_eachSink Sink.tame_flush sinks out
    obtain ⟨text, htext⟩ := hstays.file hfile
    refine ⟨x, opened?_eq_some_iff.mpr ⟨?_, (hstays.handle l).symm⟩⟩
    rw [textAt, htext]
    exact htext
  · -- None of the sinks writes to a file that was not there.
    have hwithin : ∀ sink ∈ sinks, sink.Within (· ≠ l) := by
      intro sink hmem
      have hsink := hopen sink hmem
      cases sink with
      | file buffer format =>
          rintro rfl
          obtain ⟨⟨content, x⟩, hopened⟩ := Option.isSome_iff_exists.mp hsink
          rw [(opened?_eq_some_iff.mp hopened).1] at hfree
          cases hfree
      | console colours format => trivial
      | memory => trivial
    have hkept : ∀ before : Outlets,
        (eachSink Sink.flush sinks before).2.files.lookup l = before.files.lookup l :=
      fun before => (within_eachSink (fun _ before hsink => Sink.kept_flush hsink before)
        sinks before hwithin).2.lookup l (fun hne => hne rfl)
    have hroot : l ≠ [] := by
      rintro rfl
      cases hfree
    let made : Outlets := { out with files := out.files.put l (.file [] false) }
    have hmade : made.files.lookup l = some (.file [] false) := by
      rw [lookup_put out.files hroot, if_pos rfl]
    have hstays := staysOpen_eachSink Sink.tame_flush sinks made
    refine ⟨false, opened?_eq_some_iff.mpr ⟨?_, (hstays.handle l).symm⟩⟩
    rw [textAt, hkept, hfree]
    exact (hkept made).trans hmade

end Logger

end Log

end Prebuilt
