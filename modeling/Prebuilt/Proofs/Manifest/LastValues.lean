import Mathlib.Data.List.Induction
import Prebuilt.Proofs.Manifest.Meaning

/-!
# The last value of each key

Settings are folded over a base configuration one after the other, but
the order between settings of different keys is of no account: every
field has the last value that its key was given, or else that of the
base. The archive has two keys. Its own comes first, wherever it stands,
and only without it does the last name give one (`composed`).

`foldl_give_eq` keeps a draft in this form along the settings, one step
for each of the four kinds of setting that a text can hold
(`Setting.Kinded.cases`).
-/

namespace Prebuilt.Manifest

/-! ## The values of a key -/

def Value.text? : Value → Option Bytes
  | .text value => some value
  | .list _ => none

def Value.list? : Value → Option (List Bytes)
  | .text _ => none
  | .list values => some values

/-- The setting is of this key in this section. -/
def Setting.isAt (s : Setting) (sec key : Bytes) : Bool := s.sectionName = sec ∧ s.key = key

/-- The values that are given to one key of one section, in their order. -/
def valuesOf (sec key : Bytes) (settings : List Setting) : List Value :=
  (settings.filter fun s => s.isAt sec key).map Setting.value

def lastText (settings : List Setting) (k : TextKey) : Option Bytes :=
  (valuesOf k.spelling.1 k.spelling.2 settings).getLast?.bind Value.text?

def lastList (settings : List Setting) (sec key : Bytes) : Option (List Bytes) :=
  (valuesOf sec key settings).getLast?.bind Value.list?

theorem Setting.isAt_iff {s : Setting} {sec key : Bytes} :
    s.isAt sec key = true ↔ s.sectionName = sec ∧ s.key = key :=
  decide_eq_true_iff

theorem valuesOf_concat (sec key : Bytes) (settings : List Setting) (s : Setting) :
    valuesOf sec key (settings ++ [s]) =
      valuesOf sec key settings ++ if s.isAt sec key then [s.value] else [] := by
  simp only [valuesOf, List.filter_append, List.map_append]
  cases hat : s.isAt sec key with
  | true => simp [hat]
  | false => simp [hat]

/-- Neighbours of different keys may change places. -/
theorem valuesOf_swap {s t : Setting} (h : s.sectionName ≠ t.sectionName ∨ s.key ≠ t.key)
    (before after : List Setting) (sec key : Bytes) :
    valuesOf sec key (before ++ s :: t :: after)
      = valuesOf sec key (before ++ t :: s :: after) := by
  simp only [valuesOf, List.filter_append, List.filter_cons]
  cases hs : s.isAt sec key with
  | false => rfl
  | true =>
      have ht : t.isAt sec key = false := by
        refine Bool.eq_false_iff.mpr fun ht => ?_
        obtain ⟨rfl, rfl⟩ := Setting.isAt_iff.mp hs
        obtain ⟨hsec, hkey⟩ := Setting.isAt_iff.mp ht
        exact h.elim (fun h => h hsec.symm) (fun h => h hkey.symm)
      rw [ht]
      rfl

section Concat

variable (settings : List Setting) {s : Setting} {k : TextKey} {sec key : Bytes}

theorem valuesOf_concat_of_not_isAt (h : s.isAt sec key = false) :
    valuesOf sec key (settings ++ [s]) = valuesOf sec key settings := by
  rw [valuesOf_concat, h, if_neg Bool.false_ne_true, List.append_nil]

theorem getLast?_valuesOf_concat_of_isAt (h : s.isAt sec key = true) :
    (valuesOf sec key (settings ++ [s])).getLast? = some s.value := by
  rw [valuesOf_concat, if_pos h, List.getLast?_concat]

/-- A key that is not known is not one of the known ones. -/
theorem lastText_concat_of_unknown (h : TextKey.find? s.sectionName s.key = none) :
    lastText (settings ++ [s]) k = lastText settings k := by
  have hat : s.isAt k.spelling.1 k.spelling.2 = false := by
    refine Bool.eq_false_iff.mpr fun hat => ?_
    obtain ⟨hsec, hkey⟩ := Setting.isAt_iff.mp hat
    rw [hsec, hkey, find?_spelling] at h
    cases h
  rw [lastText, valuesOf_concat_of_not_isAt settings hat]
  rfl

theorem lastText_concat_setting (k' : TextKey) (value : Bytes) :
    lastText (settings ++ [k'.setting value]) k
      = if k' = k then some value else lastText settings k := by
  by_cases hk : k' = k
  · subst hk
    have hat : (k'.setting value).isAt k'.spelling.1 k'.spelling.2 = true :=
      Setting.isAt_iff.mpr ⟨rfl, rfl⟩
    rw [if_pos rfl, lastText, getLast?_valuesOf_concat_of_isAt settings hat]
    rfl
  · have hat : (k'.setting value).isAt k.spelling.1 k.spelling.2 = false := by
      refine Bool.eq_false_iff.mpr fun hat => hk ?_
      obtain ⟨hsec, hkey⟩ := Setting.isAt_iff.mp hat
      exact Option.some.inj
        ((TextKey.find?_eq_some_iff.mpr (Prod.ext hsec hkey)).symm.trans (find?_spelling k))
    rw [if_neg hk, lastText, valuesOf_concat_of_not_isAt settings hat]
    rfl

theorem lastList_concat_of_not_isAt (h : s.isAt sec key = false) :
    lastList (settings ++ [s]) sec key = lastList settings sec key := by
  rw [lastList, valuesOf_concat_of_not_isAt settings h]
  rfl

/-- A key that takes a string is none of those that take a list. -/
theorem lastList_concat_of_not_takesList (h : takesList s.sectionName s.key = false)
    (hlist : takesList sec key = true) :
    lastList (settings ++ [s]) sec key = lastList settings sec key := by
  refine lastList_concat_of_not_isAt settings (Bool.eq_false_iff.mpr fun hat => ?_)
  obtain ⟨rfl, rfl⟩ := Setting.isAt_iff.mp hat
  exact Bool.false_ne_true (h.symm.trans hlist)

theorem lastList_concat_list (values : List Bytes) :
    lastList (settings ++ [⟨sec, key, .list values⟩]) sec key = some values := by
  have hat : (Setting.mk sec key (.list values)).isAt sec key = true :=
    Setting.isAt_iff.mpr ⟨rfl, rfl⟩
  rw [lastList, getLast?_valuesOf_concat_of_isAt settings hat]
  rfl

end Concat

/-! ## What all settings come to -/

/-- The base configuration with the last value of each key. -/
def composed (base : Config) (settings : List Setting) : Config where
  name := (lastText settings .name).getD base.name
  source := (lastText settings .source).getD base.source
  outDir := (lastText settings .outDir).getD base.outDir
  archive :=
    match lastText settings .archive, lastText settings .name with
    | some archive, _ => archive
    | none, some name => name ++ base.archiveExtension
    | none, none => base.archive
  object := (lastText settings .object).getD base.object
  archiveExtension := base.archiveExtension
  toolchain :=
    { compiler := (lastText settings .compiler).getD base.toolchain.compiler
      archiver := (lastText settings .archiver).getD base.toolchain.archiver
      march := (lastText settings .march).getD base.toolchain.march
      mabi := (lastText settings .mabi).getD base.toolchain.mabi
      flags := (lastList settings "toolchain" "flags").getD base.toolchain.flags }
  linkScripts := (lastList settings "link" "scripts").getD base.linkScripts

theorem composed_congr {settings settings' : List Setting}
    (h : ∀ sec key, valuesOf sec key settings' = valuesOf sec key settings) (base : Config) :
    composed base settings' = composed base settings := by
  unfold composed lastText lastList
  simp only [h]

/-! ## The fold -/

/-- The draft that has been given these settings. -/
def given (base : Config) (settings : List Setting) : Draft :=
  ⟨composed base settings, (lastText settings .archive).isSome, []⟩

section Give

variable (base : Config) (settings : List Setting)

/-- Where every value is as before, so is the draft. -/
theorem given_concat_of_unknown {s : Setting} (hunknown : TextKey.find? s.sectionName s.key = none)
    (hkind : takesList s.sectionName s.key = false) :
    given base (settings ++ [s]) = given base settings := by
  simp only [given, composed, lastText_concat_of_unknown settings hunknown,
    lastList_concat_of_not_takesList settings hkind (by decide : takesList "link" "scripts" = true),
    lastList_concat_of_not_takesList settings hkind
      (by decide : takesList "toolchain" "flags" = true)]

theorem given_concat_setting (k : TextKey) (value : Bytes) :
    given base (settings ++ [k.setting value]) = (given base settings).set value k := by
  have hkind : takesList (k.setting value).sectionName (k.setting value).key = false := by
    cases k <;> rfl
  have hscripts := lastList_concat_of_not_takesList settings hkind
    (by decide : takesList "link" "scripts" = true)
  have hflags := lastList_concat_of_not_takesList settings hkind
    (by decide : takesList "toolchain" "flags" = true)
  cases k with
  | name =>
      -- The new name gives the archive, unless the archive has been set.
      cases harchive : lastText settings .archive <;>
        simp [Draft.set, given, composed, hscripts, hflags, lastText_concat_setting, harchive]
  | _ =>
      simp [Draft.set, Draft.set.tools, given, composed, hscripts, hflags,
        lastText_concat_setting]

theorem given_concat_scripts (scripts : List Bytes) :
    given base (settings ++ [⟨"link", "scripts", .list scripts⟩])
      = (given base settings).give ⟨"link", "scripts", .list scripts⟩ := by
  have htexts (k : TextKey) : lastText (settings ++ [⟨"link", "scripts", .list scripts⟩]) k
      = lastText settings k :=
    lastText_concat_of_unknown settings (by rfl)
  have hflags : lastList (settings ++ [⟨"link", "scripts", .list scripts⟩]) "toolchain" "flags"
      = lastList settings "toolchain" "flags" :=
    lastList_concat_of_not_isAt settings rfl
  rw [give_scripts]
  simp only [given, composed, htexts, lastList_concat_list, hflags, Option.getD_some]

theorem given_concat_flags (flags : List Bytes) :
    given base (settings ++ [⟨"toolchain", "flags", .list flags⟩])
      = (given base settings).give ⟨"toolchain", "flags", .list flags⟩ := by
  have htexts (k : TextKey) : lastText (settings ++ [⟨"toolchain", "flags", .list flags⟩]) k
      = lastText settings k :=
    lastText_concat_of_unknown settings (by rfl)
  have hscripts : lastList (settings ++ [⟨"toolchain", "flags", .list flags⟩]) "link" "scripts"
      = lastList settings "link" "scripts" :=
    lastList_concat_of_not_isAt settings rfl
  rw [give_flags]
  simp only [Draft.set.tools, given, composed, htexts, lastList_concat_list, hscripts,
    Option.getD_some]

/-- One more setting. -/
theorem given_concat {s : Setting} (h : s.Kinded) :
    given base (settings ++ [s]) = (given base settings).give s := by
  rcases h.cases with
    ⟨k, value, rfl⟩ | ⟨⟨value, hvalue⟩, hunknown, hkind⟩ | ⟨values, rfl⟩ | ⟨values, rfl⟩
  · rw [give_setting, given_concat_setting]
  · rw [given_concat_of_unknown base settings hunknown hkind]
    simp only [Draft.give, hvalue, hunknown]
  · exact given_concat_scripts base settings values
  · exact given_concat_flags base settings values

end Give

theorem foldl_give_eq (base : Config) {settings : List Setting} (h : ∀ s ∈ settings, s.Kinded) :
    settings.foldl Draft.give ⟨base, false, []⟩ = given base settings := by
  induction settings using List.reverseRecOn with
  | nil => rfl
  | append_singleton settings s ih =>
      obtain ⟨hbefore, hs⟩ := List.forall_mem_append.mp h
      have hs := hs s (List.mem_singleton_self s)
      rw [List.foldl_append, ih hbefore, given_concat base settings hs]
      rfl

/-- The fold of a manifest's settings has the last value of each key. -/
theorem configured_eq_composed {text : Bytes} {settings : List Setting}
    (h : ManifestText text settings) (base : Config) :
    configured base settings = composed base settings := by
  rw [configured, foldl_give_eq base (kinded_of_lines h)]
  rfl

/-- A manifest gives every field the last value of its key, or leaves it
as it is in the base, and the archive has the value of its own key before
that of a name. Two manifests that give each key the same values in the
same order mean the same, however they order keys and sections. -/
theorem read_by_last_values (text : Bytes) (base : Config) :
    (∀ config, (read text base).config = some config ↔
      ∃ settings, ManifestText text settings ∧ config = composed base settings) ∧
    ∀ text' settings settings', ManifestText text settings → ManifestText text' settings' →
      (∀ sec key, valuesOf sec key settings' = valuesOf sec key settings) →
      (read text' base).config = (read text base).config := by
  have hread : ∀ {text settings}, ManifestText text settings →
      (read text base).config = some (composed base settings) := by
    intro text settings h
    rw [(read_of_text h base).1, configured_eq_composed h]
  constructor
  · intro config
    constructor
    · intro hconfig
      obtain ⟨settings, htext, rfl, -⟩ := read_iff_configured.mp ⟨hconfig, rfl⟩
      exact ⟨settings, htext, configured_eq_composed htext base⟩
    · rintro ⟨settings, htext, rfl⟩
      exact hread htext
  · intro text' settings settings' htext htext' hvalues
    rw [hread htext, hread htext', composed_congr hvalues]

def nameFirst : Bytes :=
  "[blob]\nname = \"a\"\n[link]\nscripts = []\n[blob]\narchive = \"b.a\"\n"

def archiveFirst : Bytes :=
  "[blob]\narchive = \"b.a\" # not a.a\nname = \"a\"\n[link]\nscripts = [\n]\n"

theorem read_by_last_values_archiveFirst :
    ∃ settings settings', ManifestText nameFirst settings ∧ ManifestText archiveFirst settings' ∧
      (∀ sec key, valuesOf sec key settings' = valuesOf sec key settings) ∧
      settings' ≠ settings ∧
      (read archiveFirst {}).config = (read nameFirst {}).config ∧
      (read nameFirst {}).config = some { name := "a", archive := "b.a", linkScripts := [] } := by
  let name := TextKey.name.setting "a"
  let archive := TextKey.archive.setting "b.a"
  let scripts : Setting := ⟨"link", "scripts", .list []⟩
  have hname : Reads [] (Cursor.skipSpace ⟨nameFirst, 1⟩) [name, scripts, archive] :=
    ⟨by decide +kernel, by decide +kernel⟩
  have harchive : Reads [] (Cursor.skipSpace ⟨archiveFirst, 1⟩) [archive, name, scripts] :=
    ⟨by decide +kernel, by decide +kernel⟩
  have hvalues (sec key : Bytes) :
      valuesOf sec key [archive, name, scripts] = valuesOf sec key [name, scripts, archive] :=
    calc valuesOf sec key [archive, name, scripts]
      _ = valuesOf sec key [name, archive, scripts] :=
          valuesOf_swap (Or.inr (by decide)) [] [scripts] sec key
      _ = valuesOf sec key [name, scripts, archive] :=
          valuesOf_swap (Or.inl (by decide)) [name] [] sec key
  have htext := reads_iff.mp hname
  have htext' := reads_iff.mp harchive
  obtain ⟨hread, hsame⟩ := read_by_last_values nameFirst {}
  refine ⟨_, _, htext, htext', hvalues, by decide, hsame _ _ _ htext htext' hvalues, ?_⟩
  exact (hread _).mpr ⟨_, htext, by decide +kernel⟩

end Prebuilt.Manifest
