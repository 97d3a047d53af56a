import Prebuilt.Proofs.Build.Freshness
import Prebuilt.Proofs.Build.Replay
import Prebuilt.Proofs.Command.Operands

/-!
# Building again

A build that follows a build makes the same once more, and one that
follows a clean step makes what it would have made without it
(`build_again`). Both come down to where the compiler is started: the
clean step of the second build removes just the archive that the first
one added, so that the tools find the same tree again.

The tools have to be orderly for this: they do the same on trees that
are the same, write nothing but the file they are asked for, and do not
succeed without it.
-/

namespace Prebuilt

open FileTree

/-! ## Orderly tools -/

/-- No path of the configuration holds a backslash, so the tools are
given the paths as they are. -/
structure Config.SlashOnly (c : Config) : Prop where
  source : '\\'.toUInt8 ∉ c.source
  outDir : '\\'.toUInt8 ∉ c.outDir
  object : '\\'.toUInt8 ∉ c.object
  archive : '\\'.toUInt8 ∉ c.archive

theorem Path.withForwardSlashes_join_of_notMem {dir name : Path} (hdir : '\\'.toUInt8 ∉ dir)
    (hname : '\\'.toUInt8 ∉ name) : (dir.join name).withForwardSlashes = dir.join name := by
  rw [withForwardSlashes_eq_iff]
  unfold join
  split
  · exact hname
  split
  · exact fun hmem => (List.mem_append.mp hmem).elim hdir hname
  · intro hmem
    rcases List.mem_append.mp hmem with hmem | hmem
    · exact hdir hmem
    · exact (List.mem_cons.mp hmem).elim (by decide) hname

namespace Config.SlashOnly

variable {c : Config}

theorem sourcePath (h : c.SlashOnly) : c.source.withForwardSlashes = c.source :=
  Path.withForwardSlashes_eq_iff.mpr h.source

theorem objectPath (h : c.SlashOnly) : c.objectPath.withForwardSlashes = c.objectPath :=
  Path.withForwardSlashes_join_of_notMem h.outDir h.object

theorem archivePath (h : c.SlashOnly) : c.archivePath.withForwardSlashes = c.archivePath :=
  Path.withForwardSlashes_join_of_notMem h.outDir h.archive

end Config.SlashOnly

namespace Build

/-- The tools do what their command lines ask for and nothing else. -/
structure Orderly (c : Config) (tools : Tools) : Prop where
  steady : tools.Steady
  /-- The compiler needs its source. -/
  source : ∀ t, t.isRegularFile c.source.withForwardSlashes = false →
    (tools.run (Command.assemble c) t).exitCode ≠ 0
  object : ∀ t, ChangedOnly (t.WrittenAt c.objectPath.withForwardSlashes) t
    (tools.run (Command.assemble c) t).files
  archive : ∀ t, ChangedOnly (t.WrittenAt c.archivePath.withForwardSlashes) t
    (tools.run (Command.archive c) t).files
  /-- The archiver does not succeed without leaving the archive. -/
  made : ∀ t, (tools.run (Command.archive c) t).exitCode = 0 →
    (tools.run (Command.archive c) t).files.isRegularFile c.archivePath.withForwardSlashes = true

/-! ## What a successful build makes -/

variable {s : Setup} {c : Config} {p : Progress} {t t' : FileTree}

/-- The tools have succeeded in making `t'` of `t`, and the object is
gone again. -/
structure Production (s : Setup) (t t' : FileTree) : Prop where
  compiled : (s.tools.run (Command.assemble s.config) t).exitCode = 0
  object : (s.tools.run (Command.assemble s.config) t).files.isRegularFile s.config.objectPath
    = true
  archived : (s.tools.run (Command.archive s.config)
    (s.tools.run (Command.assemble s.config) t).files).exitCode = 0
  cleaned : (s.tools.run (Command.archive s.config)
    (s.tools.run (Command.assemble s.config) t).files).files.remove s.config.objectPath = .ok t'

theorem produce_ends :
    (Step.produce s).Ends p fun r q => ∀ hash, r = .ok hash →
      p.files.isRegularFile s.config.source = true ∧
      ∃ t, ObjectCleared s.config.objectPath p.files t ∧ Production s t q.files := by
  unfold Step.produce
  refine Step.ends_bind.mpr (Step.compile_ends.imp ?_)
  rintro (e | _) q hcompile
  · exact nofun
  obtain ⟨⟨e, he⟩, -⟩ | ⟨hsource, t, hcleared, -, hfiles, hcompiled⟩ := hcompile
  · cases he
  refine Step.ends_bind.mpr (Step.archive_ends.imp ?_)
  rintro (e | _) q₁ harchive
  · exact nofun
  obtain ⟨⟨e, he⟩, -⟩ | ⟨hobject, -, hfiles₁, harchived⟩ := harchive
  · cases he
  refine Step.ends_bind.mpr (Step.cleanup_ends.imp ?_)
  rintro (e | _) q₂ ⟨-, hcleanup⟩
  · exact nofun
  refine Step.ends_hash.mpr fun _ _ => ?_
  have hcompiledTree : q.files = (s.tools.run (Command.assemble s.config) t).files := hfiles
  dsimp only at hcleanup
  rw [hfiles₁] at hcleanup
  rw [hcompiledTree] at hobject harchived hcleanup
  exact ⟨hsource, t, hcleared, hcompiled rfl, hobject, (harchived rfl).2, hcleanup⟩

/-- A tree without archives and without the object has had both of them
written and the object removed again: the archive was added to it. -/
theorem added_of_written_both {compiled archived : FileTree} (hc : c.Checked)
    (hext : Path.IsPlainExtension c.archiveExtension)
    (hnone : ¬ HoldsArchive t c.outDir c.archiveExtension)
    (hobject : t.pathExists c.objectPath = false)
    (hcompile : ChangedOnly (t.WrittenAt c.objectPath) t compiled)
    (hcompiled : compiled.isRegularFile c.objectPath = true)
    (harchive : ChangedOnly (compiled.WrittenAt c.archivePath) compiled archived)
    (harchived : archived.isRegularFile c.archivePath = true)
    (hcleaned : archived.remove c.objectPath = .ok t') :
    Added c.archivePath (c.archivePath.spot t.workingDirectory) t t' := by
  have hw := hcompile.workingDirectory
  have hw' := harchive.workingDirectory.trans hw
  have hobjectFree : t.isRegularFile c.objectPath = false := by
    rw [Bool.eq_false_iff, ne_eq, isRegularFile_eq_true_iff]
    rintro ⟨content, x, hstat⟩
    rw [pathExists_eq_true_iff.mpr ⟨_, hstat⟩] at hobject
    cases hobject
  have hadded := added_of_written hcompile hobjectFree hcompiled
  have hne := Config.spot_object_ne_archive hc (two_le_of_plain hext) t.workingDirectory
  have hway := Config.spot_object_notMem_way_archive hc hcompiled
  rw [hw] at hway
  have harchiveFree : compiled.isRegularFile c.archivePath = false := by
    have hstat : compiled.stat c.archivePath = t.stat c.archivePath := by
      refine hadded.only.stat_eq fun k hk heq => ?_
      rw [heq] at hk
      exact (List.mem_cons.mp hk).elim hne hway
    rw [isRegularFile, hstat]
    exact isRegularFile_archivePath_of_not_holdsArchive hc hext hnone
  have hadded' := added_of_written harchive harchiveFree harchived
  rw [hw] at hadded'
  obtain ⟨l, hl, -, rfl, -⟩ := remove_eq_ok_iff.mp hcleaned
  obtain ⟨-, -, rfl⟩ := resolve_eq_ok_iff.mp hl
  rw [hw']
  exact hadded.then_erase hadded' hne.symm (hw' ▸ hway)

/-- Of a tree without archives and without the object, the tools make
the same tree with the archive in it, and the source was there. -/
theorem Orderly.added {tools : Tools} (htools : Orderly c tools) (hpaths : c.SlashOnly)
    (hc : c.Checked) (hext : Path.IsPlainExtension c.archiveExtension)
    (hnone : ¬ HoldsArchive t c.outDir c.archiveExtension)
    (hobject : t.pathExists c.objectPath = false)
    (h : Production ⟨c, Probes.real, tools⟩ t t') :
    t.isRegularFile c.source = true ∧
      Added c.archivePath (c.archivePath.spot t.workingDirectory) t t' := by
  obtain ⟨-, hneeds, hwritesObject, hwritesArchive, hmakes⟩ := htools
  rw [hpaths.sourcePath] at hneeds
  rw [hpaths.objectPath] at hwritesObject
  rw [hpaths.archivePath] at hwritesArchive hmakes
  constructor
  · rw [← Bool.not_eq_false]
    exact fun hmissing => hneeds t hmissing h.compiled
  · exact added_of_written_both hc hext hnone hobject (hwritesObject t) h.object
      (hwritesArchive _) (hmakes _ h.archived) h.cleaned

/-! ## Cleaning once more -/

/-- Archives whose paths can be read are all removed. -/
theorem clean_ends_of_short {d : Location} {names : List Bytes}
    (hprobes : s.probes = Probes.real) (hout : s.config.outDir ≠ [])
    (h : Step.FilesIn p.files s.config.outDir d names)
    (hnames : Archive.namesAt p.files d s.config.archiveExtension = names)
    (hshort : ∀ n ∈ names, Step.Short s.config.outDir n) :
    (Step.clean s).Ends p fun r q => r = .ok (names.map s.config.outDir.join) ∧
      q.files = p.files.eraseAll (names.map (d ++ [·])) ∧ q.state = .cleaned ∧
      q.invocations = p.invocations := by
  refine (Step.clean_ends_of_directory hprobes hout (hnames ▸ h)).imp ?_
  rintro r q ⟨hinv, gone, rest, hswept, hend⟩
  have hall : gone ++ rest = names := hswept.names.symm.trans hnames
  have hrest : rest = [] := by
    cases rest with
    | nil => rfl
    | cons n more =>
        refine absurd (hshort n ?_) (hswept.long n more rfl)
        rw [← hall]
        exact List.mem_append.mpr (Or.inr (List.mem_cons_self ..))
  rw [hrest, List.append_nil] at hall
  cases r with
  | error e => exact absurd hrest hend
  | ok removed =>
      obtain ⟨-, hremoved, hstate⟩ := hend
      rw [hall] at hremoved
      refine ⟨congrArg _ hremoved, ?_, hstate, hinv⟩
      rw [hswept.files, hall]

/-- Where an archive was added that was the only one, the clean step
takes it away again. -/
theorem clean_ends_of_added {l : Location} (hprobes : s.probes = Probes.real)
    (hc : s.config.Checked) (hext : Path.IsPlainExtension s.config.archiveExtension)
    (hnone : ¬ HoldsArchive t s.config.outDir s.config.archiveExtension)
    (h : Added s.config.archivePath l t p.files) :
    (Step.clean s).Ends p fun r q => r = .ok [s.config.archivePath] ∧ Same t q.files ∧
      q.state = .cleaned ∧ q.invocations = p.invocations := by
  have hlength := two_le_of_plain hext
  obtain ⟨content, x, hfile⟩ := h.file
  obtain ⟨d, hd, hdir, hshort, hlimit, hturn⟩ :=
    (resolve_join_eq_ok_iff hc.outDir hc.archiveBare).mp h.resolve
  rw [Config.turn_archive hc hlength] at hturn
  subst hturn
  have hisName : IsName s.config.archive := by
    obtain ⟨hempty, hdot, hdots⟩ := Config.archive_proper hc hlength
    exact ⟨hempty, hc.archiveBare, hdot, hdots, hshort⟩
  have hresolve : t.resolve s.config.outDir = .ok d := by
    rw [← hd]
    refine (resolve_congr h.only.workingDirectory fun k hk => h.only.lookup k ?_).symm
    rintro rfl
    rw [(resolve_eq_ok_iff.mp hd).2.1 _ (h.only.workingDirectory ▸ hk)] at hfile
    cases hfile
  have hnames : Archive.namesAt p.files d s.config.archiveExtension = [s.config.archive] := by
    refine List.perm_singleton.mp ((List.perm_ext_iff_of_nodup Archive.nodup_namesAt
      (List.pairwise_singleton _ _)).mpr fun n => ?_)
    rw [Archive.mem_namesAt, List.mem_singleton]
    constructor
    · rintro ⟨⟨content', x', hfile'⟩, hextension⟩
      refine Classical.byContradiction fun hne => ?_
      have hother : d ++ [n] ≠ d ++ [s.config.archive] := fun heq =>
        hne (List.singleton_inj.mp (List.append_cancel_left heq))
      rw [h.only.lookup _ hother] at hfile'
      exact hnone ⟨d, n, content', x', hresolve, hfile', hextension⟩
    · rintro rfl
      exact ⟨⟨content, x, hfile⟩, extension_archive hc hext⟩
  have hfiles : Step.FilesIn p.files s.config.outDir d [s.config.archive] :=
    ⟨hd, hdir, fun n hn => List.mem_singleton.mp hn ▸ hisName,
      fun n hn => List.mem_singleton.mp hn ▸ ⟨content, x, hfile⟩, List.pairwise_singleton _ _⟩
  refine (clean_ends_of_short hprobes hc.outDir hfiles hnames
    fun n hn => List.mem_singleton.mp hn ▸ hlimit).imp ?_
  rintro r q ⟨hr, hq, hstate, hinv⟩
  refine ⟨hr, ⟨?_, fun k => ?_⟩, hstate, hinv⟩
  · rw [hq]
    exact h.only.workingDirectory
  · rw [hq]
    exact h.lookup_erase k

/-! ## Builds from where they are made -/

/-- Where a build stands when it begins to clean. -/
def begun (s : Setup) (t : FileTree) : Progress :=
  (⟨t, .start, [], []⟩ : Progress).told [.log Log.Level.info "build"
    ("building " ++ s.config.archivePath ++ " from " ++ s.config.source)]

/-- The build of `t` comes down to what is made of `u`. -/
def ComesDownTo (s : Setup) (t : FileTree) (removed : List Path) (u : FileTree) : Prop :=
  ∃ q : Progress, q.files = u ∧ q.state = .cleaned ∧ q.invocations = [] ∧
    ∀ Q : Except Error Report → Progress → Prop,
      (Step.all s).Ends ⟨t, .start, [], []⟩ Q ↔
        (Step.produce s).Ends q fun r => Q (r.map (.mk s.config.archivePath removed))

theorem comesDownTo_of_clean {removed : List Path} {u : FileTree}
    (h : (Step.clean s).Ends (begun s t) fun r q => r = .ok removed ∧ q.files = u ∧
      q.state = .cleaned ∧ q.invocations = []) : ComesDownTo s t removed u := by
  obtain ⟨r, q, hend⟩ := Step.exists_end (Step.clean s) (begun s t)
  obtain ⟨rfl, hfiles, hstate, hinv⟩ := (hend _).mp h
  refine ⟨q, hfiles, hstate, hinv, fun Q => ?_⟩
  rw [Step.all_eq, Step.ends_bind, Step.ends_log]
  refine Step.ends_bind.trans ((hend _).trans ?_)
  dsimp only
  rw [Step.make_eq, Step.ends_map]

theorem removeOldObject_ends_iff {object : Path} (h : ObjectCleared object p.files t)
    {Q : Except Error Unit → Progress → Prop} :
    (Step.removeOldObject object).Ends p Q ↔ Q (.ok ()) (p.withFiles t) := by
  unfold Step.removeOldObject
  rw [Step.ends_bind, Step.ends_files]
  dsimp only
  cases h with
  | absent habsent =>
      rw [habsent, if_neg Bool.false_ne_true]
      exact Step.ends_pure
  | removed hremoved =>
      rw [pathExists_of_remove_eq_ok hremoved, if_pos rfl, hremoved]
      exact Step.ends_setFiles

/-- Compiling goes on alike once the old object is gone. -/
theorem compile_ends_iff (hsource : p.files.isRegularFile s.config.source = true)
    (hcleared : ObjectCleared s.config.objectPath p.files t)
    (hsource' : t.isRegularFile s.config.source = true)
    {Q : Except Error Unit → Progress → Prop} :
    (Step.compile s).Ends p Q ↔ (Step.compile s).Ends (p.withFiles t) Q := by
  have hcleared' : ObjectCleared s.config.objectPath (p.withFiles t).files t :=
    .absent hcleared.pathExists
  have hsource'' : (p.withFiles t).files.isRegularFile s.config.source = true := hsource'
  unfold Step.compile
  simp only [Step.ends_bind, Step.ends_files, hsource, hsource'', Bool.not_true,
    Bool.false_eq_true, if_false, removeOldObject_ends_iff hcleared,
    removeOldObject_ends_iff hcleared']
  rfl

theorem ComesDownTo.cleared {removed : List Path} {u : FileTree} (h : ComesDownTo s t removed u)
    (hsource : u.isRegularFile s.config.source = true)
    (hcleared : ObjectCleared s.config.objectPath u t')
    (hsource' : t'.isRegularFile s.config.source = true) : ComesDownTo s t removed t' := by
  obtain ⟨q, rfl, hstate, hinv, hall⟩ := h
  refine ⟨q.withFiles t', rfl, hstate, hinv, fun Q => (hall Q).trans ?_⟩
  unfold Step.produce
  rw [Step.ends_bind, Step.ends_bind]
  exact compile_ends_iff hsource hcleared hsource'

theorem ComesDownTo.production {removed : List Path} {u : FileTree} {report : Report}
    (h : ComesDownTo s t removed u) (hresult : (s.build t).result = .ok report) :
    u.isRegularFile s.config.source = true ∧
      ∃ v, ObjectCleared s.config.objectPath u v ∧ Production s v (s.build t).progress.files := by
  obtain ⟨q, rfl, -, -, hall⟩ := h
  have hends : (Step.all s).Ends ⟨t, .start, [], []⟩ fun r p => r = .ok report →
      q.files.isRegularFile s.config.source = true ∧
        ∃ v, ObjectCleared s.config.objectPath q.files v ∧ Production s v p.files := by
    refine (hall _).mpr (produce_ends.imp fun r p hproduced hr => ?_)
    cases r with
    | error e => cases hr
    | ok hash => exact hproduced hash rfl
  exact hends.runFrom hresult

/-- Builds that come down to the same tree have the same result, but for
what they removed first. -/
theorem ComesDownTo.alike {removed removed' : List Path} {u u' : FileTree}
    (h : ComesDownTo s t removed u) (h' : ComesDownTo s t' removed' u') (hsame : Same u u')
    (hprobes : s.probes = Probes.real) (htools : s.tools.Steady) :
    (s.build t').result = (s.build t).result.map (fun report => { report with removed := removed' })
      ∧ Alike (s.build t).progress (s.build t').progress := by
  obtain ⟨q, rfl, hstate, hinv, hall⟩ := h
  obtain ⟨q', rfl, hstate', hinv', hall'⟩ := h'
  have halike : Alike q q' := by
    refine ⟨hsame, hstate'.trans hstate.symm, ?_⟩
    rw [hinv, hinv']
  have hruns : (Step.all s).Ends ⟨t, .start, [], []⟩ fun r p =>
      (Step.all s).Ends ⟨t', .start, [], []⟩ fun r' p' =>
        r' = r.map (fun report => { report with removed := removed' }) ∧ Alike p p' := by
    refine (hall _).mpr ((Step.matches_produce hprobes htools halike).imp fun r p hends => ?_)
    refine (hall' _).mpr (hends.imp ?_)
    rintro r' p' ⟨rfl, halike'⟩
    refine ⟨?_, halike'⟩
    cases r' <;> rfl
  exact hruns.runFrom.runFrom

/-- A build that succeeds has swept all archives first. -/
theorem comesDownTo_of_build {report : Report} (hprobes : s.probes = Probes.real)
    (hout : s.config.outDir ≠ []) (hwf : t.WellFormed)
    (h : (s.build t).result = .ok report) :
    ∃ ready d gone u, Step.Swept s.config ready d gone [] u ∧
      ComesDownTo s t (gone.map s.config.outDir.join) u := by
  obtain ⟨r, q, hend⟩ := Step.exists_end (Step.clean s) (begun s t)
  obtain ⟨hinv, hclean⟩ := (hend _).mp (Step.clean_ends hprobes hout (p := begun s t) hwf)
  cases r with
  | error e =>
      have herror : (Step.all s).Ends ⟨t, .start, [], []⟩ fun r _ => r = .error e := by
        rw [Step.all_eq, Step.ends_bind, Step.ends_log]
        exact Step.ends_bind.mpr ((hend _).mpr rfl)
      have hresult : (s.build t).result = .error e := herror.runFrom
      rw [hresult] at h
      cases h
  | ok removed =>
      split at hclean
      · obtain ⟨⟨e, he⟩, -⟩ := hclean
        cases he
      · rename_i ready _
        obtain ⟨d, gone, rest, hswept, rfl, rfl, hstate⟩ := hclean
        exact ⟨ready, d, gone, q.files, hswept,
          comesDownTo_of_clean ((hend _).mpr ⟨rfl, rfl, hstate, hinv⟩)⟩

/-- So has a clean step that succeeds, and a build would have gone on
from the tree that it leaves. -/
theorem comesDownTo_of_clean_ok {removed : List Path} (hprobes : s.probes = Probes.real)
    (hout : s.config.outDir ≠ []) (hwf : t.WellFormed)
    (h : (s.clean t).result = .ok removed) :
    ∃ ready d gone, Step.Swept s.config ready d gone [] (s.clean t).progress.files ∧
      ComesDownTo s t removed (s.clean t).progress.files := by
  obtain ⟨-, hclean⟩ := (Step.clean_ends hprobes hout (p := ⟨t, .start, [], []⟩) hwf).runFrom
  have hresult : ((Step.clean s).runFrom t).result = .ok removed := h
  rw [hresult] at hclean
  dsimp only at hclean
  have hbuild := Step.clean_ends hprobes hout (p := begun s t) hwf
  cases hready : t.ready? s.config.outDir with
  | none =>
      rw [hready] at hclean
      obtain ⟨⟨e, he⟩, -⟩ := hclean
      cases he
  | some ready =>
      rw [hready] at hclean
      obtain ⟨d, gone, rest, hswept, rfl, rfl, -⟩ := hclean
      refine ⟨ready, d, gone, hswept, comesDownTo_of_clean (hbuild.imp ?_)⟩
      rintro r q ⟨hinv, hend⟩
      have hready' : (begun s t).files.ready? s.config.outDir = some ready := hready
      rw [hready'] at hend
      obtain ⟨d', gone', rest', hswept', hend⟩ := hend
      obtain ⟨rfl, rfl, hfiles⟩ := hswept.unique hswept'
      cases r with
      | error e => exact absurd rfl hend
      | ok removed =>
          obtain ⟨-, rfl, hstate⟩ := hend
          exact ⟨rfl, hfiles, hstate, hinv⟩

/-- A tree without archives is cleaned by doing nothing. -/
theorem comesDownTo_self {ready : FileTree} {d : Location} {gone : List Bytes}
    (hprobes : s.probes = Probes.real) (hout : s.config.outDir ≠ [])
    (h : Step.Swept s.config ready d gone [] t) : ComesDownTo s t [] t := by
  have hresolve : t.resolve s.config.outDir = .ok d := h.resolve h.filesIn.resolve
  have hnames : Archive.namesAt t d s.config.archiveExtension = [] := by
    refine List.eq_nil_iff_forall_not_mem.mpr fun n hn => ?_
    obtain ⟨⟨content, x, hfile⟩, hext⟩ := Archive.mem_namesAt.mp hn
    exact not_holdsArchive_of_swept h ⟨d, n, content, x, hresolve, hfile, hext⟩
  have hfiles : Step.FilesIn t s.config.outDir d [] :=
    ⟨hresolve, h.lookup_directory h.filesIn.directory, List.forall_mem_nil _,
      List.forall_mem_nil _, .nil⟩
  exact comesDownTo_of_clean
    (clean_ends_of_short (p := begun s t) hprobes hout hfiles hnames (List.forall_mem_nil _))

/-! ## Building again -/

/-- With orderly tools: a build that follows a successful one succeeds
with the same hash, removes just the archive, and leaves the same tree.
A build that follows a successful clean step ends as it would have ended
without it, with success or with any error, and leaves the same tree;
only the archives are not removed twice. -/
theorem build_again (c : Config) (tools : Tools) (files : FileTree) (hc : c.Valid)
    (hext : Path.IsPlainExtension c.archiveExtension) (hpaths : c.SlashOnly)
    (htools : Orderly c tools) (hfiles : files.WellFormed) :
    let s : Setup := ⟨c, Probes.real, tools⟩
    let built := s.build files
    let again := s.build built.progress.files
    let cleaned := s.clean files
    let after := s.build cleaned.progress.files
    (∀ report, built.result = .ok report →
      again.result = .ok { report with removed := [c.archivePath] } ∧
      Alike built.progress again.progress) ∧
    (∀ removed, cleaned.result = .ok removed →
      after.result = built.result.map (fun report => { report with removed := [] }) ∧
      Alike built.progress after.progress) := by
  intro s built again cleaned after
  have hchecked := hc.checked
  refine ⟨fun report hbuilt => ?_, fun removed hcleaned => ?_⟩
  · obtain ⟨ready, d, gone, u, hswept, hfirst⟩ :=
      comesDownTo_of_build (s := s) rfl hchecked.outDir hfiles hbuilt
    obtain ⟨hsource, t, hcleared, hproduction⟩ := hfirst.production hbuilt
    have hnone : ¬ HoldsArchive t c.outDir c.archiveExtension := fun hholds =>
      not_holdsArchive_of_swept hswept (hholds.mono hcleared.extend)
    obtain ⟨hsource', hadded⟩ :=
      htools.added hpaths hchecked hext hnone hcleared.pathExists hproduction
    have hclean := clean_ends_of_added (s := s) (p := begun s built.progress.files) rfl hchecked
      hext hnone hadded
    obtain ⟨r, q, hend⟩ := Step.exists_end (Step.clean s) (begun s built.progress.files)
    obtain ⟨rfl, hsame, hstate, hinv⟩ := (hend _).mp hclean
    have hsecond : ComesDownTo s built.progress.files [c.archivePath] q.files :=
      comesDownTo_of_clean ((hend _).mpr ⟨rfl, rfl, hstate, hinv⟩)
    obtain ⟨hresult, halike⟩ :=
      (hfirst.cleared hsource hcleared hsource').alike hsecond hsame rfl htools.steady
    refine ⟨hresult.trans ?_, halike⟩
    show built.result.map _ = _
    rw [hbuilt]
    rfl
  · obtain ⟨ready, d, gone, hswept, hfirst⟩ :=
      comesDownTo_of_clean_ok (s := s) rfl hchecked.outDir hfiles hcleaned
    exact hfirst.alike (comesDownTo_self rfl hchecked.outDir hswept) (.refl _) rfl htools.steady

/-! ## Tools that copy -/

/-- Copy a file, or fail. -/
def copyRun (t : FileTree) (source target : Path) : ToolRun :=
  if t.isRegularFile source then
    match t.write target ((t.read? source).getD []) false with
    | .ok t => ⟨0, [], t⟩
    | .error _ => ⟨256, [], t⟩
  else ⟨256, [], t⟩

/-- Tools for which assembling and archiving is copying. -/
def copyingTools (c : Config) : Tools := fun line t =>
  if line = Command.assemble c then copyRun t c.source c.objectPath
  else if line = Command.archive c then copyRun t c.objectPath c.archivePath
  else ⟨256, [], t⟩

theorem copyRun_same (h : Same t t') (source target : Path) :
    (copyRun t' source target).status = (copyRun t source target).status ∧
      Same (copyRun t source target).files (copyRun t' source target).files := by
  unfold copyRun
  rw [h.isRegularFile, h.read?]
  split
  · have hwrite := h.write target ((t.read? source).getD []) false
    generalize t.write target ((t.read? source).getD []) false = written at hwrite ⊢
    generalize t'.write target ((t.read? source).getD []) false = written' at hwrite ⊢
    cases hwrite with
    | error fault => exact ⟨rfl, h⟩
    | ok h => exact ⟨rfl, h⟩
  · exact ⟨rfl, h⟩

/-- A copy has succeeded, or nothing has changed. -/
theorem copyRun_cases (t : FileTree) (source target : Path) :
    (copyRun t source target).status = 256 ∧ (copyRun t source target).files = t ∨
      t.isRegularFile source = true ∧
        ∃ content, t.write target content false = .ok (copyRun t source target).files := by
  unfold copyRun
  split
  · rename_i hsource
    cases hwrite : t.write target ((t.read? source).getD []) false with
    | error fault => exact Or.inl ⟨rfl, rfl⟩
    | ok t' => exact Or.inr ⟨hsource, _, hwrite⟩
  · exact Or.inl ⟨rfl, rfl⟩

/-- What running a command that copies comes to. -/
theorem run_of_copyRun {tools : Tools} {line : Bytes} {source target : Path}
    (h : tools line t = copyRun t source target) :
    (t.isRegularFile source = false → (tools.run line t).exitCode ≠ 0) ∧
    ChangedOnly (t.WrittenAt target) t (tools.run line t).files ∧
    ((tools.run line t).exitCode = 0 →
      (tools.run line t).files.isRegularFile target = true) := by
  have hcode : (tools.run line t).exitCode = exitCodeOf (copyRun t source target).status := by
    rw [← h]
    rfl
  have hlookup : ∀ k, (tools.run line t).files.lookup k
      = (copyRun t source target).files.lookup k := by
    rw [← h]
    exact fun _ => rfl
  rcases copyRun_cases t source target with ⟨hstatus, hfiles⟩ | ⟨hsource, content, hwrite⟩
  · have hfailed : (tools.run line t).exitCode ≠ 0 := by
      rw [hcode, hstatus]
      decide
    refine ⟨fun _ => hfailed, ⟨rfl, fun k _ => ?_⟩, fun hzero => absurd hzero hfailed⟩
    rw [hlookup, hfiles]
  · obtain ⟨hchanged, hmade⟩ := changedOnly_write hwrite
    have hsame : Same (copyRun t source target).files (tools.run line t).files :=
      ⟨hchanged.workingDirectory.symm, hlookup⟩
    refine ⟨fun hmissing => ?_, ⟨rfl, fun k hk => ?_⟩, fun _ => ?_⟩
    · rw [hsource] at hmissing
      cases hmissing
    · rw [hlookup]
      exact hchanged.lookup k hk
    · rw [hsame.isRegularFile]
      exact hmade

theorem orderly_copyingTools (hpaths : c.SlashOnly)
    (hlines : Command.archive c ≠ Command.assemble c) : Orderly c (copyingTools c) := by
  have hassemble : ∀ t, copyingTools c (Command.assemble c) t
      = copyRun t c.source c.objectPath := fun _ => if_pos rfl
  have harchive : ∀ t, copyingTools c (Command.archive c) t
      = copyRun t c.objectPath c.archivePath := fun _ => (if_neg hlines).trans (if_pos rfl)
  refine ⟨fun line t t' h => ?_, ?_, ?_, ?_, ?_⟩
  · have hsame : (copyingTools c line t').status = (copyingTools c line t).status ∧
        Same (copyingTools c line t).files (copyingTools c line t').files := by
      unfold copyingTools
      split
      · exact copyRun_same h _ _
      split
      · exact copyRun_same h _ _
      · exact ⟨rfl, h⟩
    exact ⟨hsame.1, h.workingDirectory, hsame.2.lookup⟩
  · rw [hpaths.sourcePath]
    exact fun t => (run_of_copyRun (hassemble t)).1
  · rw [hpaths.objectPath]
    exact fun t => (run_of_copyRun (hassemble t)).2.1
  · rw [hpaths.archivePath]
    exact fun t => (run_of_copyRun (harchive t)).2.1
  · rw [hpaths.archivePath]
    exact fun t => (run_of_copyRun (harchive t)).2.2

def copying : Setup := ⟨{}, Probes.real, copyingTools {}⟩

theorem build_again_copying :
    (∃ report, (copying.build leftovers).result = .ok report ∧
      (copying.build (copying.build leftovers).progress.files).result
        = .ok { report with removed := [Config.archivePath {}] }) ∧
    ∃ removed, (copying.clean leftovers).result = .ok removed ∧
      (copying.build (copying.clean leftovers).progress.files).result
        = (copying.build leftovers).result.map fun report => { report with removed := [] } := by
  have hextension : Path.IsPlainExtension ".a" := ⟨"a", rfl, by decide, by decide, by decide⟩
  have hpaths : Config.SlashOnly {} := ⟨by decide, by decide, by decide, by decide⟩
  have hcopying : copying = ⟨{}, Probes.real, copyingTools {}⟩ := rfl
  obtain ⟨hagain, hafter⟩ := build_again {} (copyingTools {}) leftovers (by decide) hextension
    hpaths (orderly_copyingTools hpaths (by decide)) (by decide)
  rw [← hcopying] at hagain hafter
  have hok : ∀ {α : Type} (result : Except Error α), result.isOk = true →
      ∃ a, result = .ok a := by
    intro α result h
    cases result with
    | error e => cases h
    | ok a => exact ⟨a, rfl⟩
  obtain ⟨report, hreport⟩ := hok (copying.build leftovers).result (by decide +kernel)
  obtain ⟨removed, hremoved⟩ := hok (copying.clean leftovers).result (by decide +kernel)
  exact ⟨⟨report, hreport, (hagain report hreport).1⟩, removed, hremoved,
    (hafter removed hremoved).1⟩

end Build

end Prebuilt
