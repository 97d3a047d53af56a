import Mathlib.Data.List.Forall2
import Prebuilt.Proofs.FileTree.Copy
import Prebuilt.Stage

/-!
# What staging leaves behind

Scripts from several directories come to lie in one, each under its own
file name. The copies are made one after the other, so a later one can
change what an earlier one left, and the directory can hold scripts that
are yet to be copied. What a whole run leaves is a `Fill` of the
directory, built up by one copy at a time (`Fill.cons`): its files are
the targets, each with the content of the last script of that name.

That no script reads the output of an earlier copy is not checked
anywhere. It follows from the names: what lies in the directory would be
its own target, and a file is not copied over itself.
-/

namespace Prebuilt.Stage

open FileTree

variable {t t₁ t' : FileTree} {dir script : Path} {scripts rest : List Path} {here : Location}

/-! ## Runs -/

/-- The scripts are copied one after the other. -/
inductive Copied (dir : Path) : FileTree → List Path → FileTree → Prop where
  | nil (t : FileTree) : Copied dir t [] t
  | cons {t t₁ t' : FileTree} {script : Path} {rest : List Path}
      (found : t.isRegularFile script = true)
      (copy : t.copy script (target dir script) = .ok t₁)
      (more : Copied dir t₁ rest t') : Copied dir t (script :: rest) t'

theorem copied_of_copyAll {paths : List Path} (h : (copyAll dir t scripts).staged = .ok paths) :
    paths = scripts.map (target dir) ∧ Copied dir t scripts (copyAll dir t scripts).files := by
  induction scripts generalizing t paths with
  | nil =>
      obtain rfl := Except.ok.inj h
      exact ⟨rfl, .nil t⟩
  | cons script rest ih =>
      rw [copyAll] at h ⊢
      by_cases hfound : t.isRegularFile script = true
      · rw [hfound] at h ⊢
        cases hcopy : t.copy script (target dir script) with
        | error fault =>
            rw [hcopy] at h
            cases h
        | ok t₁ =>
            rw [hcopy] at h
            dsimp only [Bool.not_true] at h ⊢
            cases hmore : (copyAll dir t₁ rest).staged with
            | error fault =>
                rw [hmore] at h
                cases h
            | ok more =>
                rw [hmore] at h
                obtain rfl := Except.ok.inj h
                obtain ⟨rfl, hcopied⟩ := ih hmore
                exact ⟨rfl, .cons hfound hcopy hcopied⟩
      · rw [Bool.eq_false_iff.mpr hfound] at h
        cases h

/-! ## One copy -/

/-- The path leads to the directory at this location. -/
structure DirectoryAt (t : FileTree) (dir : Path) (here : Location) : Prop where
  resolve : t.resolve dir = .ok here
  directory : t.lookup here = some .directory

theorem exists_directoryAt (h : t.isDirectory dir = true) : ∃ here, DirectoryAt t dir here := by
  obtain ⟨here, hresolve, hlookup⟩ := stat_eq_ok_iff.mp (isDirectory_eq_true_iff.mp h)
  exact ⟨here, hresolve, hlookup⟩

/-- Files that come into a directory do not stand in the way to it. -/
theorem DirectoryAt.of_changedOnly {P : Location → Prop} (hdir : DirectoryAt t dir here)
    (h : ChangedOnly P t t') (hP : ∀ k, P k → t.lookup k ≠ some .directory) :
    DirectoryAt t' dir here := by
  obtain ⟨-, hway, -⟩ := resolve_eq_ok_iff.mp hdir.resolve
  refine ⟨?_, ?_⟩
  · rw [← hdir.resolve]
    exact resolve_congr h.workingDirectory fun k hk => h.lookup k fun hPk => hP k hPk (hway k hk)
  · rw [h.lookup here fun hPhere => hP here hPhere hdir.directory, hdir.directory]

/-- A script that can be copied into the directory: it lies outside, and
the system can read the path of its copy. -/
structure Fits (t : FileTree) (dir : Path) (here : Location) (script : Path) : Prop where
  content : ∃ content, t.content? script = some content
  name : IsName script.fileName
  short : (target dir script).length < pathLimit
  outside : ∀ name, script.spot t.workingDirectory ≠ here ++ [name]

/-- The path of the copy leads to the script's name in the directory. -/
theorem resolve_target_iff {k : Location} (hdir : DirectoryAt t dir here)
    (hname : IsName script.fileName) :
    t.resolve (target dir script) = .ok k ↔
      (target dir script).length < pathLimit ∧ here ++ [script.fileName] = k := by
  have hne : dir ≠ [] := (resolve_eq_ok_iff.mp hdir.resolve).1.nonempty
  rw [target, resolve_join_eq_ok_iff hne script.notMem_fileName]
  constructor
  · rintro ⟨d, hd, -, -, hlength, hturn⟩
    obtain rfl := Except.ok.inj (hdir.resolve.symm.trans hd)
    exact ⟨hlength, (hname.turn here).symm.trans hturn⟩
  · rintro ⟨hlength, hk⟩
    exact ⟨here, hdir.resolve, hdir.directory, hname.short, hlength,
      (hname.turn here).trans hk⟩

/-- One copy: the script fits, and its content is under its name in the
directory then. Nothing else has changed. -/
structure Step (dir : Path) (here : Location) (t : FileTree) (script : Path)
    (t₁ : FileTree) : Prop where
  fits : Fits t dir here script
  wellFormed : t₁.WellFormed
  directory : DirectoryAt t₁ dir here
  only : ChangedOnly (· = here ++ [script.fileName]) t t₁
  holds : ∃ content x, t.content? script = some content ∧
    t₁.lookup (here ++ [script.fileName]) = some (.file content x)

theorem step_of_copy (ht : t.WellFormed) (hdir : DirectoryAt t dir here)
    (hfound : t.isRegularFile script = true)
    (hcopy : t.copy script (target dir script) = .ok t₁) : Step dir here t script t₁ := by
  obtain ⟨l, k, content, x, hl, hfile, hk, hkl, hplace, hheld, honly⟩ := of_copy_eq_ok hcopy
  obtain ⟨hname, place, hspot⟩ := spot_of_isRegularFile ht hfound
  obtain ⟨hshort, rfl⟩ := (resolve_target_iff hdir hname).mp hk
  have hcontent : t.content? script = some content :=
    content?_eq_some_iff.mpr ⟨x, stat_eq_ok_iff.mpr ⟨l, hl, hfile⟩⟩
  obtain ⟨-, -, rfl⟩ := resolve_eq_ok_iff.mp hl
  -- In the directory, the script would be its own target.
  have houtside : ∀ name, script.spot t.workingDirectory ≠ here ++ [name] := by
    intro name hin
    rw [hspot] at hin hkl
    rw [(List.append_inj' hin rfl).1] at hkl
    exact hkl rfl
  exact ⟨⟨⟨content, hcontent⟩, hname, hshort, houtside⟩,
    ht.of_lookup hdir.directory hname hplace honly.workingDirectory honly.lookup,
    hdir.of_changedOnly honly fun _ hk' => hk' ▸ hplace, honly, ⟨content, x, hcontent, hheld⟩⟩

/-- A script outside the directory is after the copy what it was before:
where there is a file now, no way of it can have led. -/
theorem Step.stat_eq (h : Step dir here t script t₁) {other : Path} {content : Bytes}
    (hcontent : t₁.content? other = some content)
    (houtside : other.spot t₁.workingDirectory ≠ here ++ [script.fileName]) :
    t₁.stat other = t.stat other := by
  obtain ⟨x, hstat⟩ := content?_eq_some_iff.mp hcontent
  obtain ⟨-, hway, -⟩ := stat_eq_ok_iff_lookup.mp hstat
  obtain ⟨held, y, -, hheld⟩ := h.holds
  rw [h.only.workingDirectory] at hway houtside
  refine h.only.stat_eq (List.forall_mem_cons.mpr ⟨houtside, fun k hk => ?_⟩)
  rintro rfl
  rw [hway _ hk] at hheld
  cases hheld

theorem Step.fits_of_fits (h : Step dir here t script t₁) {other : Path}
    (hfits : Fits t₁ dir here other) : Fits t dir here other := by
  obtain ⟨content, hcontent⟩ := hfits.content
  have hstat := h.stat_eq hcontent (hfits.outside _)
  refine ⟨⟨content, ?_⟩, hfits.name, hfits.short, ?_⟩
  · rw [← content?_congr hstat, hcontent]
  · rw [← h.only.workingDirectory]
    exact hfits.outside

/-! ## All copies -/

/-- The last script of this file name. -/
def lastNamed (scripts : List Path) (name : Bytes) : Option Path :=
  scripts.reverse.find? fun script => script.fileName = name

theorem lastNamed_cons (script : Path) (rest : List Path) (name : Bytes) :
    lastNamed (script :: rest) name =
      (lastNamed rest name).or (if script.fileName = name then some script else none) := by
  by_cases hname : script.fileName = name <;> simp [lastNamed, List.find?_append, hname]

theorem lastNamed_eq_some {name : Bytes} {last : Path} (h : lastNamed scripts name = some last) :
    last ∈ scripts ∧ last.fileName = name :=
  ⟨List.mem_reverse.mp (List.mem_of_find?_eq_some h), by simpa using List.find?_some h⟩

theorem notMem_of_lastNamed_eq_none {name : Bytes} (h : lastNamed scripts name = none) :
    ∀ script ∈ scripts, script.fileName ≠ name := fun script hmem =>
  of_decide_eq_false (Bool.eq_false_iff.mpr
    (List.find?_eq_none.mp h script (List.mem_reverse.mpr hmem)))

theorem exists_lastNamed (h : script ∈ scripts) :
    ∃ last, lastNamed scripts script.fileName = some last := by
  cases hlast : lastNamed scripts script.fileName with
  | none => exact absurd rfl (notMem_of_lastNamed_eq_none hlast script h)
  | some last => exact ⟨last, rfl⟩

/-- The scripts have come to lie in the directory: under each name the
last one that bears it, and nothing else has changed. -/
structure Fill (dir : Path) (here : Location) (t : FileTree) (scripts : List Path)
    (t' : FileTree) : Prop where
  wellFormed : t'.WellFormed
  directory : DirectoryAt t' dir here
  only : ChangedOnly (fun k => ∃ script ∈ scripts, k = here ++ [script.fileName]) t t'
  fits : ∀ script ∈ scripts, Fits t dir here script
  holds : ∀ name last, lastNamed scripts name = some last → ∃ content x,
    t.content? last = some content ∧ t'.lookup (here ++ [name]) = some (.file content x)

theorem Fill.nil (ht : t.WellFormed) (hdir : DirectoryAt t dir here) : Fill dir here t [] t :=
  ⟨ht, hdir, .refl t, nofun, nofun⟩

theorem Fill.cons (h : Step dir here t script t₁) (h' : Fill dir here t₁ rest t') :
    Fill dir here t (script :: rest) t' := by
  refine ⟨h'.wellFormed, h'.directory, ?_, ?_, fun name last hlast => ?_⟩
  · refine (h.only.mono ?_).trans (h'.only.mono ?_)
    · exact fun k hk => ⟨script, List.mem_cons_self .., hk⟩
    · exact fun k ⟨other, hmem, hk⟩ => ⟨other, List.mem_cons_of_mem _ hmem, hk⟩
  · exact List.forall_mem_cons.mpr
      ⟨h.fits, fun other hmem => h.fits_of_fits (h'.fits other hmem)⟩
  rw [lastNamed_cons] at hlast
  cases hrest : lastNamed rest name with
  | some later =>
      rw [hrest, Option.some_or] at hlast
      obtain rfl := Option.some.inj hlast
      obtain ⟨content, x, hcontent, hheld⟩ := h'.holds name later hrest
      have houtside := (h'.fits later (lastNamed_eq_some hrest).1).outside script.fileName
      refine ⟨content, x, ?_, hheld⟩
      rw [← content?_congr (h.stat_eq hcontent houtside), hcontent]
  | none =>
      rw [hrest, Option.none_or] at hlast
      by_cases hname : script.fileName = name
      · rw [if_pos hname] at hlast
        obtain rfl := Option.some.inj hlast
        obtain ⟨content, x, hcontent, hheld⟩ := h.holds
        refine ⟨content, x, hcontent, ?_⟩
        rw [← hname, ← hheld]
        -- No later script bears the name, so its location is left alone.
        refine h'.only.lookup _ ?_
        rintro ⟨other, hmem, hk⟩
        refine notMem_of_lastNamed_eq_none hrest other hmem ?_
        rw [← hname]
        simpa using hk.symm
      · rw [if_neg hname] at hlast
        cases hlast

theorem Copied.fill (h : Copied dir t scripts t') (ht : t.WellFormed)
    (hdir : DirectoryAt t dir here) : Fill dir here t scripts t' := by
  induction h with
  | nil t => exact .nil ht hdir
  | cons found copy more ih =>
      have hstep := step_of_copy ht hdir found copy
      exact .cons hstep (ih hstep.wellFormed hstep.directory)

/-- Under the path of a copy is the content of the last script that has
its name. -/
theorem Fill.content?_target (h : Fill dir here t scripts t') (hscript : script ∈ scripts) :
    ∃ last content, lastNamed scripts script.fileName = some last ∧
      t.content? last = some content ∧ t'.content? (target dir script) = some content := by
  obtain ⟨last, hlast⟩ := exists_lastNamed hscript
  obtain ⟨content, x, hcontent, hheld⟩ := h.holds _ last hlast
  have hfits := h.fits script hscript
  have hresolve := (resolve_target_iff h.directory hfits.name).mpr ⟨hfits.short, rfl⟩
  exact ⟨last, content, hlast, hcontent,
    content?_eq_some_iff.mpr ⟨x, stat_eq_ok_iff.mpr ⟨_, hresolve, hheld⟩⟩⟩

/-! ## Staging -/

/-- Staging that succeeds names one copy for each script, in order, and
every copy holds the content that the last script of its name had. So
nothing is lost exactly if scripts of the same name are the same. -/
theorem staged_lastNamed {files : FileTree} {paths : List Path} (hfiles : files.WellFormed)
    (h : (stage files scripts dir).staged = .ok paths) :
    paths = scripts.map (target dir) ∧
    (∀ script ∈ scripts, ∃ last content, lastNamed scripts script.fileName = some last ∧
      files.content? last = some content ∧
      (stage files scripts dir).files.content? (target dir script) = some content) ∧
    (List.Forall₂ (fun script path =>
        (stage files scripts dir).files.content? path = files.content? script) scripts paths ↔
      ∀ s ∈ scripts, ∀ s' ∈ scripts, s.fileName = s'.fileName →
        files.content? s = files.content? s') := by
  rw [stage] at h ⊢
  by_cases hexists : files.isDirectory dir = true
  · rw [if_pos hexists] at h ⊢
    obtain ⟨here, hdir⟩ := exists_directoryAt hexists
    obtain ⟨rfl, hcopied⟩ := copied_of_copyAll h
    have hfill := hcopied.fill hfiles hdir
    refine ⟨rfl, fun script hmem => hfill.content?_target hmem, ?_⟩
    rw [List.forall₂_map_right_iff, List.forall₂_same]
    constructor
    · intro hkept s hs s' hs' hname
      rw [← hkept s hs, ← hkept s' hs', target, target, hname]
    · intro hsame s hs
      obtain ⟨last, content, hlast, hcontent, hheld⟩ := hfill.content?_target hs
      obtain ⟨hmem, hname⟩ := lastNamed_eq_some hlast
      rw [hheld, ← hcontent, hsame last hmem s hs hname]
  · rw [if_neg hexists] at h
    cases h

/-- Three scripts, two of them of one name, and a directory to copy them
into. -/
def twoOfOneName : FileTree :=
  ((((((FileTree.empty []).put ["a"] .directory).put ["a", "x.ld"] (.file "A" false)).put
    ["b"] .directory).put ["b", "x.ld"] (.file "B" false)).put ["b", "y.ld"] (.file "C" false)).put
    ["out"] .directory

theorem staged_lastNamed_apart :
    twoOfOneName.WellFormed ∧
    (stage twoOfOneName ["a/x.ld", "b/y.ld"] "out").staged = .ok ["out/x.ld", "out/y.ld"] ∧
    (stage twoOfOneName ["a/x.ld", "b/y.ld"] "out").files.content? "out/x.ld"
      = twoOfOneName.content? "a/x.ld" := by
  have hfiles : twoOfOneName.WellFormed := by decide
  have hstaged : (stage twoOfOneName ["a/x.ld", "b/y.ld"] "out").staged
      = .ok ["out/x.ld", "out/y.ld"] := by rfl
  obtain ⟨-, -, hkept⟩ := staged_lastNamed hfiles hstaged
  have hforall := hkept.mpr (by decide)
  exact ⟨hfiles, hstaged, (List.forall₂_cons.mp hforall).1⟩

/-- The second script takes the place of the first one's copy. -/
theorem staged_overwrites :
    twoOfOneName.WellFormed ∧
    (stage twoOfOneName ["a/x.ld", "b/x.ld"] "out").staged = .ok ["out/x.ld", "out/x.ld"] ∧
    (stage twoOfOneName ["a/x.ld", "b/x.ld"] "out").files.content? "out/x.ld"
      ≠ twoOfOneName.content? "a/x.ld" := by
  exact ⟨by decide, rfl, by decide⟩

end Prebuilt.Stage
