import Prebuilt.Proofs.Build.Clean
import Prebuilt.Proofs.Build.Effect
import Prebuilt.Proofs.FileTree.Content

/-!
# What becomes of the source

The source is meant to be read only, but a configuration may put it
where a build removes things. There are two such places. The clean step
takes a source that is itself listed as an archive (`TakenAsArchive`),
and the compile step takes one at the object's path for an old object,
or closes the way to it with an empty directory of that name
(`TakenAsObject`). The cleanup at the end takes no source that is left
by then. So the source outlives a build exactly if it is in neither
place (`source_kept_iff`), with success or with any error.
-/

namespace Prebuilt.Build

open FileTree

variable {c : Config} {files ready t t' : FileTree} {d : Location} {l : Location}

/-! ## Where the source is taken -/

structure OutDirAt (c : Config) (files ready : FileTree) (d : Location) : Prop where
  made : files.ready? c.outDir = some ready
  resolve : ready.resolve c.outDir = .ok d

/-- The source is an archive of the output directory, and the clean step
comes to it. -/
def TakenAsArchive (c : Config) (files : FileTree) : Prop :=
  ∃ ready d n, OutDirAt c files ready d ∧ ready.resolve c.source = .ok (d ++ [n]) ∧
    n ∈ Archive.namesAt ready d c.archiveExtension ∧
    ∀ m ∈ Archive.namesAt ready d c.archiveExtension, m ≤ n → Step.Short c.outDir m

/-- The object can be removed, and nothing is at the source's path then. -/
def ObjectTakes (c : Config) (t : FileTree) : Prop :=
  ∃ t', t.remove c.objectPath = .ok t' ∧ t'.pathExists c.source = false

/-- The clean step comes to its end, and an object that takes the source
is there. -/
def TakenAsObject (c : Config) (files : FileTree) : Prop :=
  ∃ ready d, OutDirAt c files ready d ∧
    (∀ m ∈ Archive.namesAt ready d c.archiveExtension, Step.Short c.outDir m) ∧
    ObjectTakes c ready

theorem OutDirAt.unique {ready' : FileTree} {d' : Location} (h : OutDirAt c files ready d)
    (h' : OutDirAt c files ready' d') : ready' = ready ∧ d' = d := by
  obtain rfl := Option.some.inj (h'.made.symm.trans h.made)
  exact ⟨rfl, Except.ok.inj (h'.resolve.symm.trans h.resolve)⟩

theorem objectTakes_iff_route (hex : t.pathExists c.source = true) :
    ObjectTakes c t ↔ (∃ t', t.remove c.objectPath = .ok t') ∧
      c.objectPath.spot t.workingDirectory
        ∈ c.source.spot t.workingDirectory :: c.source.way t.workingDirectory := by
  constructor
  · rintro ⟨t', ht', hgone⟩
    obtain ⟨l, hl, hroot, rfl, -⟩ := remove_eq_ok_iff.mp ht'
    obtain ⟨-, -, rfl⟩ := resolve_eq_ok_iff.mp hl
    exact ⟨⟨_, ht'⟩, (pathExists_erase_eq_false_iff hroot hex).mp hgone⟩
  · rintro ⟨⟨t', ht'⟩, hroute⟩
    obtain ⟨l, hl, hroot, rfl, -⟩ := remove_eq_ok_iff.mp ht'
    obtain ⟨-, -, rfl⟩ := resolve_eq_ok_iff.mp hl
    exact ⟨_, ht', (pathExists_erase_eq_false_iff hroot hex).mpr hroute⟩

/-! ## The clean step -/

namespace Step.Swept

variable {gone rest : List Bytes}

/-- A file is lost to the sweep exactly if it is one of those swept. -/
theorem fate (h : Swept c ready d gone rest t) {p : Path} (hp : ready.isRegularFile p = true) :
    Fate p ready t (∃ n ∈ gone, ready.resolve p = .ok (d ++ [n])) := by
  obtain ⟨content, x, hstat⟩ := isRegularFile_eq_true_iff.mp hp
  have hne : ∀ k ∈ gone.map (d ++ [·]), k ≠ [] := by
    rintro k hk rfl
    obtain ⟨n, -, hn⟩ := List.mem_map.mp hk
    exact absurd hn (by simp)
  refine (fate_of_extends h.extends_ready).congr ?_
  rw [h.files, pathExists_eraseAll_eq_false_iff hne (pathExists_eq_true_iff.mpr ⟨_, hstat⟩)]
  obtain ⟨hlegible, hway, -⟩ := stat_eq_ok_iff_lookup.mp hstat
  constructor
  · rintro ⟨k, hk, hroute⟩
    obtain ⟨n, hn, rfl⟩ := List.mem_map.mp hk
    rcases List.mem_cons.mp hroute with hspot | hmem
    · exact ⟨n, hn, resolve_eq_ok_iff.mpr ⟨hlegible, hway, hspot.symm⟩⟩
    · obtain ⟨content', x', hfile⟩ := h.filesIn.file n (List.mem_append.mpr (Or.inl hn))
      rw [hway _ hmem] at hfile
      cases hfile
  · rintro ⟨n, hn, hresolve⟩
    obtain ⟨-, -, hspot⟩ := resolve_eq_ok_iff.mp hresolve
    exact ⟨d ++ [n], List.mem_map.mpr ⟨n, hn, rfl⟩, hspot ▸ List.mem_cons_self ..⟩

theorem takenAsArchive_iff (h : Swept c ready d gone rest t)
    (hready : files.ready? c.outDir = some ready) :
    (∃ n ∈ gone, ready.resolve c.source = .ok (d ++ [n])) ↔ TakenAsArchive c files := by
  have hout : OutDirAt c files ready d := ⟨hready, h.filesIn.resolve⟩
  constructor
  · rintro ⟨n, hn, hresolve⟩
    obtain ⟨hmem, hshort⟩ := h.mem_gone_iff.mp hn
    rw [← h.names] at hmem hshort
    exact ⟨ready, d, n, hout, hresolve, hmem, hshort⟩
  · rintro ⟨ready', d', n, hout', hresolve, hmem, hshort⟩
    obtain ⟨rfl, rfl⟩ := hout.unique hout'
    rw [h.names] at hmem hshort
    exact ⟨n, h.mem_gone_iff.mpr ⟨hmem, hshort⟩, hresolve⟩

theorem takenAsObject_iff (h : Swept c ready d gone rest t)
    (hready : files.ready? c.outDir = some ready) :
    TakenAsObject c files ↔ rest = [] ∧ ObjectTakes c ready := by
  have hout : OutDirAt c files ready d := ⟨hready, h.filesIn.resolve⟩
  constructor
  · rintro ⟨ready', d', hout', hshort, htakes⟩
    obtain ⟨rfl, rfl⟩ := hout.unique hout'
    refine ⟨?_, htakes⟩
    cases rest with
    | nil => rfl
    | cons n more =>
        have hn : n ∈ gone ++ n :: more := List.mem_append.mpr (Or.inr (List.mem_cons_self ..))
        exact absurd (hshort n (h.names ▸ hn)) (h.long n more rfl)
  · rintro ⟨rfl, htakes⟩
    refine ⟨ready, d, hout, fun m hm => h.short m ?_, htakes⟩
    rw [h.names, List.append_nil] at hm
    exact hm

/-- Where the object is a directory to be removed, it is one inside the
output directory and not that directory itself. -/
theorem object_ne_outDir (hc : c.Checked) (h : Swept c ready d gone rest t)
    (hl : t.resolve c.objectPath = .ok l) (hdot : lastName c.objectPath ≠ ".")
    (hdots : lastName c.objectPath ≠ "..") : l ≠ d := by
  obtain ⟨d', hd', -, -, -, hturn⟩ := (resolve_join_eq_ok_iff hc.outDir hc.objectBare).mp hl
  obtain rfl : d' = d := Except.ok.inj (hd'.symm.trans (h.resolve h.filesIn.resolve))
  have hlast : lastName c.objectPath = c.object :=
    Path.lastName_join hc.outDir hc.objectBare hc.object
  rw [hlast] at hdot hdots
  rw [← hturn, turn_of_isBare hc.object hdot hdots]
  simp

theorem remove_object_ready (hc : c.Checked) (h : Swept c ready d gone rest t)
    (hremove : t.remove c.objectPath = .ok t') :
    ∃ t'', ready.remove c.objectPath = .ok t'' := by
  obtain ⟨l, hl, hroot, -, hwhat⟩ := remove_eq_ok_iff.mp hremove
  refine ⟨_, remove_eq_ok_iff.mpr ⟨l, h.extends_ready.resolve hl, hroot, rfl, ?_⟩⟩
  rcases hwhat with ⟨content, x, hfile⟩ | ⟨hdir, hdot, hdots, hnames⟩
  · exact Or.inl ⟨content, x, h.extends_ready.lookup hfile⟩
  · refine Or.inr ⟨h.extends_ready.lookup hdir, hdot, hdots, ?_⟩
    -- No archive lies in this directory, so it was as empty before the sweep.
    have hne : l ≠ d := h.object_ne_outDir hc hl hdot hdots
    rw [names_eq_nil_iff] at hnames ⊢
    intro name
    rw [← hnames name, h.files, lookup_eraseAll_of_notMem]
    intro hmem
    obtain ⟨n, -, hn⟩ := List.mem_map.mp hmem
    exact hne (List.append_inj_left' hn rfl).symm

theorem remove_object_swept (h : Swept c ready d gone rest t)
    (hleft : t.lookup (c.objectPath.spot ready.workingDirectory)
      = ready.lookup (c.objectPath.spot ready.workingDirectory))
    (hremove : ready.remove c.objectPath = .ok t') :
    ∃ t'', t.remove c.objectPath = .ok t'' := by
  obtain ⟨l, hl, hroot, -, hwhat⟩ := remove_eq_ok_iff.mp hremove
  obtain ⟨-, -, rfl⟩ := resolve_eq_ok_iff.mp hl
  refine ⟨_, remove_eq_ok_iff.mpr ⟨_, h.resolve hl, hroot, rfl, ?_⟩⟩
  rw [hleft]
  refine hwhat.imp id fun ⟨hdir, hdot, hdots, hnames⟩ => ⟨hdir, hdot, hdots, ?_⟩
  rw [names_eq_nil_iff] at hnames ⊢
  intro name
  rw [Option.eq_none_iff_forall_ne_some]
  intro e he
  have hthere := h.extends_ready.lookup he
  rw [hnames name] at hthere
  cases hthere

/-- Nothing on the way to what is left was swept. -/
theorem lookup_route (h : Swept c ready d gone rest t) {p : Path}
    (hex : t.pathExists p = true)
    (hl : l ∈ p.spot ready.workingDirectory :: p.way ready.workingDirectory) :
    t.lookup l = ready.lookup l := by
  rw [h.files]
  refine lookup_eraseAll_of_notMem (fun hmem => ?_) ready
  have hroot : l ≠ [] := by
    obtain ⟨n, -, rfl⟩ := List.mem_map.mp hmem
    simp
  have hgone := pathExists_eraseAll_of_mem hmem hroot hl
  rw [← h.files, hex] at hgone
  cases hgone

/-- A sweep that left the source alone makes no difference to whether
the object takes it. -/
theorem objectTakes_iff (hc : c.Checked) (h : Swept c ready d gone rest t)
    (hsource : t.isRegularFile c.source = true) : ObjectTakes c t ↔ ObjectTakes c ready := by
  obtain ⟨content, x, hstat⟩ := isRegularFile_eq_true_iff.mp hsource
  have hex : t.pathExists c.source = true := pathExists_eq_true_iff.mpr ⟨_, hstat⟩
  have hex' : ready.pathExists c.source = true :=
    pathExists_eq_true_iff.mpr ⟨_, h.extends_ready.stat hstat⟩
  rw [objectTakes_iff_route hex, objectTakes_iff_route hex', ← h.extends_ready.workingDirectory]
  refine and_congr_left fun hroute => ?_
  constructor
  · rintro ⟨t', hremove⟩
    exact h.remove_object_ready hc hremove
  · rintro ⟨t', hremove⟩
    exact h.remove_object_swept (h.lookup_route hex hroute) hremove

end Step.Swept

variable {s : Setup} {p : Progress} {content : Bytes}

theorem clean_fate (hprobes : s.probes = Probes.real) (hout : s.config.outDir ≠ [])
    (hwf : p.files.WellFormed) (hsource : p.files.content? s.config.source = some content) :
    (Step.clean s).Ends p fun r q =>
      Fate s.config.source p.files q.files (TakenAsArchive s.config p.files) ∧
      match r with
      | .ok _ => ∃ ready d gone, p.files.ready? s.config.outDir = some ready ∧
          Step.Swept s.config ready d gone [] q.files
      | .error _ => ¬ TakenAsObject s.config p.files := by
  refine (Step.clean_ends hprobes hout hwf).imp ?_
  rintro r q ⟨-, hend⟩
  split at hend
  · rename_i hready
    obtain ⟨⟨e, rfl⟩, hgrown⟩ := hend
    have hnever : ∀ ready d, ¬ OutDirAt s.config p.files ready d := by
      rintro ready d ⟨hmade, -⟩
      rw [hready] at hmade
      cases hmade
    refine ⟨(Fate.of_eq ((hgrown.extend.content? hsource).trans hsource.symm)).congr ?_, ?_⟩
    · exact iff_of_false not_false fun ⟨ready, d, _, h, _⟩ => hnever ready d h
    · exact fun ⟨ready, d, h, _⟩ => hnever ready d h
  · rename_i ready hready
    obtain ⟨d, gone, rest, hswept, hend⟩ := hend
    obtain ⟨-, hgrown, -⟩ := ready?_eq_some hwf hready
    have hsource' := hgrown.extend.content? hsource
    have hfate := (hswept.fate (isRegularFile_of_content? hsource')).congr
      (hswept.takenAsArchive_iff hready)
    refine ⟨⟨hfate.gone, fun h => ?_⟩, ?_⟩
    · exact (hfate.kept h).trans (hsource'.trans hsource.symm)
    · cases r with
      | ok removed =>
          obtain ⟨rfl, -⟩ := hend
          exact ⟨ready, d, gone, hready, hswept⟩
      | error e => exact fun htaken => hend ((hswept.takenAsObject_iff hready).mp htaken).1

/-! ## The steps after it -/

theorem compile_without_source (hsource : p.files.isRegularFile s.config.source = false) :
    (Step.compile s).Ends p fun r q => (∃ e, r = .error e) ∧ q.files = p.files := by
  refine Step.compile_ends.imp ?_
  rintro r q (⟨herror, hfiles, -, -⟩ | ⟨hregular, -⟩)
  · exact ⟨herror, hfiles⟩
  · rw [hsource] at hregular
    cases hregular

/-- The tools do not touch the file at the path. -/
def Spare (tools : Tools) (p : Path) : Prop :=
  ∀ line t, (tools.start line t).files.content? p = t.content? p

theorem compile_fate (htools : Spare s.tools s.config.source)
    (hsource : p.files.isRegularFile s.config.source = true) :
    (Step.compile s).Ends p fun _ q =>
      Fate s.config.source p.files q.files (ObjectTakes s.config p.files) ∧
      q.files.workingDirectory = p.files.workingDirectory := by
  refine Step.compile_ends.imp ?_
  rintro r q (⟨-, hfiles, -, hstuck⟩ | ⟨-, t, hcleared, -, hfiles, -⟩)
  · obtain ⟨-, hnone⟩ := hstuck hsource
    rw [hfiles]
    refine ⟨(Fate.of_eq rfl).congr ?_, rfl⟩
    exact iff_of_false not_false fun ⟨t, ht, _⟩ => hnone t ht
  · rw [hfiles]
    refine ⟨Fate.then_same ((fate_of_extends hcleared.extend).congr ?_) (htools _ t),
      hcleared.extend.workingDirectory.symm⟩
    cases hcleared with
    | absent habsent =>
        obtain ⟨content, x, hstat⟩ := isRegularFile_eq_true_iff.mp hsource
        constructor
        · intro hgone
          rw [pathExists_eq_true_iff.mpr ⟨_, hstat⟩] at hgone
          cases hgone
        · rintro ⟨t', ht', -⟩
          rw [pathExists_of_remove_eq_ok ht'] at habsent
          cases habsent
    | removed hremoved =>
        constructor
        · exact fun hgone => ⟨t, hremoved, hgone⟩
        · rintro ⟨t', ht', hgone⟩
          obtain rfl := Except.ok.inj (ht'.symm.trans hremoved)
          exact hgone

/-- An object that is the source is there to be removed, so it takes the
source. -/
theorem spot_ne_of_not_objectTakes (hc : c.Checked) (hout : t.isDirectory c.outDir = true)
    (hsource : t.isRegularFile c.source = true) (h : ¬ ObjectTakes c t)
    (hlegible : c.objectPath.Legible) :
    c.objectPath.spot t.workingDirectory ≠ c.source.spot t.workingDirectory := by
  intro heq
  obtain ⟨content, x, hstat⟩ := isRegularFile_eq_true_iff.mp hsource
  obtain ⟨-, -, hfile⟩ := stat_eq_ok_iff_lookup.mp hstat
  obtain ⟨-, hway, hdir⟩ := stat_eq_ok_iff_lookup.mp (isDirectory_eq_true_iff.mp hout)
  rw [← heq] at hfile
  have hremove : t.remove c.objectPath = .ok (t.erase (c.objectPath.spot t.workingDirectory)) := by
    refine remove_eq_ok_iff.mpr
      ⟨_, resolve_eq_ok_iff.mpr ⟨hlegible, ?_, rfl⟩, ?_, rfl, Or.inl ⟨content, x, hfile⟩⟩
    · intro k hk
      rcases (Config.mem_way_object_iff hc).mp hk with hk | rfl
      · exact hway k hk
      · exact hdir
    · intro hroot
      rw [hroot, lookup_root] at hfile
      cases hfile
  refine h ((objectTakes_iff_route (pathExists_eq_true_iff.mpr ⟨_, hstat⟩)).mpr
    ⟨⟨_, hremove⟩, ?_⟩)
  exact heq ▸ List.mem_cons_self ..

/-- If the source is there, the object's path leads elsewhere. -/
def Apart (c : Config) (t : FileTree) : Prop :=
  ∀ content, t.content? c.source = some content → c.objectPath.Legible →
    c.objectPath.spot t.workingDirectory ≠ c.source.spot t.workingDirectory

theorem apart_of_fate (hc : c.Checked) (hout : t.isDirectory c.outDir = true)
    (hsource : t.isRegularFile c.source = true)
    (hfate : Fate c.source t t' (ObjectTakes c t))
    (hw : t'.workingDirectory = t.workingDirectory) : Apart c t' := by
  intro content hcontent
  rw [hw]
  refine spot_ne_of_not_objectTakes hc hout hsource fun htaken => ?_
  rw [hfate.gone htaken] at hcontent
  cases hcontent

/-- The archive step and the cleanup after it leave the source alone. -/
theorem archive_cleanup_kept (htools : Spare s.tools s.config.source)
    (hapart : Apart s.config p.files) :
    (Step.archive s).Ends p fun r q =>
      q.files.content? s.config.source = p.files.content? s.config.source ∧
      (r = .ok () → (Step.cleanup s).Ends q fun _ q' =>
        q'.files.content? s.config.source = q.files.content? s.config.source) := by
  refine Step.archive_ends.imp ?_
  rintro r q (⟨⟨e, rfl⟩, hfiles, -⟩ | ⟨hobject, -, hfiles, -⟩)
  · rw [hfiles]
    exact ⟨rfl, nofun⟩
  have hkept : q.files.content? s.config.source = p.files.content? s.config.source := by
    rw [hfiles]
    exact htools _ _
  have hw : q.files.workingDirectory = p.files.workingDirectory := by
    rw [hfiles]
    rfl
  refine ⟨hkept, fun _ => Step.cleanup_ends.imp ?_⟩
  rintro (e | _) q' ⟨-, hend⟩
  · dsimp only at hend
    rw [hend]
  obtain ⟨l, hl, -, heq, -⟩ := remove_eq_ok_iff.mp hend
  obtain ⟨-, -, rfl⟩ := resolve_eq_ok_iff.mp hl
  rw [heq]
  cases hcontent : q.files.content? s.config.source with
  | none => exact (extends_erase q.files _).content?_eq_none hcontent
  | some content =>
      rw [hkept] at hcontent
      obtain ⟨x, hstat⟩ := content?_eq_some_iff.mp hcontent
      obtain ⟨-, hway, -⟩ := stat_eq_ok_iff_lookup.mp hstat
      obtain ⟨_, _, hstat'⟩ := isRegularFile_eq_true_iff.mp hobject
      obtain ⟨hlegible, -, hfile⟩ := stat_eq_ok_iff_lookup.mp hstat'
      rw [← hcontent, ← hkept]
      refine content?_congr (stat_erase_of_notMem fun hroute => ?_)
      rw [hw] at hroute
      rcases List.mem_cons.mp hroute with hspot | hmem
      · exact hapart content hcontent hlegible hspot
      · rw [hway _ hmem] at hfile
        cases hfile

/-! ## Whole builds -/

theorem make_fate (hc : s.config.Checked) (htools : Spare s.tools s.config.source)
    (removed : List Path) (hdir : p.files.isDirectory s.config.outDir = true)
    (hsource : p.files.isRegularFile s.config.source = true) :
    (Step.make s removed).Ends p fun _ q =>
      Fate s.config.source p.files q.files (ObjectTakes s.config p.files) := by
  unfold Step.make
  refine Step.ends_bind.mpr ((compile_fate htools hsource).imp ?_)
  rintro (e | _) q ⟨hfate, hw⟩
  · exact hfate
  have hapart : Apart s.config q.files := apart_of_fate hc hdir hsource hfate hw
  refine Step.ends_bind.mpr ((archive_cleanup_kept htools hapart).imp ?_)
  rintro (e | _) q₁ ⟨hkept, hcleanup⟩
  · exact hfate.then_same hkept
  refine Step.ends_bind.mpr ((hcleanup rfl).imp ?_)
  rintro (e | _) q₂ hkept'
  · exact (hfate.then_same hkept).then_same hkept'
  · exact Step.ends_bind.mpr (Step.ends_hash.mpr
      (Step.ends_pure.mpr ((hfate.then_same hkept).then_same hkept')))

theorem make_without_source (removed : List Path)
    (hsource : p.files.isRegularFile s.config.source = false) :
    (Step.make s removed).Ends p fun _ q => q.files = p.files := by
  unfold Step.make
  refine Step.ends_bind.mpr ((compile_without_source hsource).imp ?_)
  rintro r q ⟨⟨e, rfl⟩, hfiles⟩
  exact hfiles

theorem all_fate (hprobes : s.probes = Probes.real) (hc : s.config.Checked)
    (htools : Spare s.tools s.config.source) (hwf : files.WellFormed)
    (hsource : files.content? s.config.source = some content) :
    (Step.all s).Ends ⟨files, .start, [], []⟩ fun _ q =>
      Fate s.config.source files q.files
        (TakenAsArchive s.config files ∨ TakenAsObject s.config files) := by
  rw [Step.all_eq]
  refine Step.ends_bind.mpr (Step.ends_log.mpr (Step.ends_bind.mpr ?_))
  refine (clean_fate hprobes hc.outDir hwf hsource).imp ?_
  rintro (e | removed) q ⟨hfate, hend⟩
  · exact hfate.congr (or_iff_left hend).symm
  obtain ⟨ready, d, gone, (hready : files.ready? _ = _), hswept⟩ := hend
  cases hregular : q.files.isRegularFile s.config.source with
  | true =>
      have hdir : q.files.isDirectory s.config.outDir = true :=
        isDirectory_eq_true_iff.mpr (stat_eq_ok_iff.mpr
          ⟨d, hswept.resolve hswept.filesIn.resolve,
            hswept.lookup_directory hswept.filesIn.directory⟩)
      have htakes : ObjectTakes s.config q.files ↔ TakenAsObject s.config files := by
        rw [hswept.objectTakes_iff hc hregular, hswept.takenAsObject_iff hready]
        exact (and_iff_right rfl).symm
      refine (make_fate hc htools removed hdir hregular).imp ?_
      intro r q₁ hfate₁
      exact (hfate.trans hfate₁).congr (or_congr_right htakes)
  | false =>
      -- Nothing but the clean step can have taken it by now.
      have htaken : TakenAsArchive s.config files := by
        refine Classical.byContradiction fun hkept => ?_
        have hthere := (hfate.kept hkept).trans hsource
        rw [isRegularFile_of_content? hthere] at hregular
        cases hregular
      refine (make_without_source removed hregular).imp ?_
      intro r q₁ hfiles
      refine ⟨fun _ => ?_, fun hkept => absurd (Or.inl htaken) hkept⟩
      rw [hfiles]
      exact hfate.gone htaken

/-- With tools that do not touch the source: after the clean step alone
it is the file it was, unless it is one of the archives; after a build it
is, unless it is an archive or goes with an old object. -/
theorem source_kept_iff (c : Config) (tools : Tools) (files : FileTree) (content : Bytes)
    (hc : c.Valid) (hfiles : files.WellFormed) (hsource : files.content? c.source = some content)
    (htools : Spare tools c.source) :
    let s : Setup := ⟨c, Probes.real, tools⟩
    ((s.clean files).progress.files.content? c.source = some content
      ↔ ¬ TakenAsArchive c files) ∧
    ((s.build files).progress.files.content? c.source = some content
      ↔ ¬ TakenAsArchive c files ∧ ¬ TakenAsObject c files) := by
  intro s
  have hclean := (clean_fate (s := s) (p := ⟨files, .start, [], []⟩) rfl hc.checked.outDir
    hfiles hsource).runFrom.1
  have hbuild := (all_fate (s := s) rfl hc.checked htools hfiles hsource).runFrom
  exact ⟨hclean.content?_iff hsource, (hbuild.content?_iff hsource).trans not_or⟩

/-- Tools that succeed without doing anything. -/
def idleTools : Tools := fun _ files => ⟨0, [], files⟩

/-- A source in the output directory. -/
def sourceInOutDir (name : Bytes) : FileTree where
  entries := [(["bin"], .directory), (["bin", name], .file ".globl _start\n" false)]
  distinct := by simp
  workingDirectory := []
  emptied := []

theorem source_kept_under_own_extension :
    let c : Config := { source := Bytes.ofString "bin/start.S" }
    let files := sourceInOutDir "start.S"
    (Setup.clean ⟨c, Probes.real, idleTools⟩ files).progress.files.content? c.source
        = some ".globl _start\n" ∧
      ¬ TakenAsArchive c files ∧ ¬ TakenAsObject c files := by
  have hkept := source_kept_iff { source := Bytes.ofString "bin/start.S" } idleTools
    (sourceInOutDir "start.S") ".globl _start\n" (by decide) (by decide) (by decide)
    fun _ _ => rfl
  have hbuilt := hkept.2.mp (by decide +kernel)
  exact ⟨hkept.1.mpr hbuilt.1, hbuilt⟩

/-- A source with the extension of archives is removed by the clean step. -/
theorem source_lost_as_archive :
    let c : Config := { source := Bytes.ofString "bin/start.a" }
    let files := sourceInOutDir "start.a"
    c.Valid ∧ files.WellFormed ∧ files.content? c.source = some ".globl _start\n" ∧
      Spare idleTools c.source ∧
      (Setup.clean ⟨c, Probes.real, idleTools⟩ files).progress.files.content? c.source = none :=
  ⟨by decide, by decide, by decide, fun _ _ => rfl, by decide +kernel⟩

end Prebuilt.Build
