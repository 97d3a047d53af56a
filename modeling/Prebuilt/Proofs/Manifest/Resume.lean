import Prebuilt.Proofs.Manifest.LineNumbers

/-!
# Reading on

A reader keeps its place in the text, its first fault, and whether the
archive was set, and every further reading goes on from there, be it in
the middle of a broken line. Whatever the text is, a reading can only
lead `Onward`: to a later place, with the fault that was met first. A
reading that succeeds has come to the end of the text, and from there on
nothing is left that could be read, be at fault or be warned of
(`read_at_end`).
-/

namespace Prebuilt.Manifest

/-! ## Where items end -/

theorem stopped_suffix (sec : Bytes) (c : Cursor) : (items sec c).stopped.rest <:+ c.rest := by
  obtain ⟨-, passed, hpassed, -⟩ := scanned_items sec c .plain (ready_plain c)
  exact ⟨passed, hpassed.symm⟩

/-- Only the end of the text ends the items without a fault. -/
theorem stopped_at_end {sec : Bytes} {c : Cursor} (h : (items sec c).fault = none) :
    (items sec c).stopped.rest = [] := by
  fun_induction items sec c with
  | case1 sec c hnil => exact hnil
  | case2 => cases h
  | case3 => cases h
  | case4 sec c hne i c' hi c'' hend _ more ih => exact ih h

/-! ## One reading -/

/-- A later state of a reader: it has not gone back, and a fault that was
met is still the one that is reported. -/
structure Onward (r r' : Reader) : Prop where
  rest : r'.cursor.rest <:+ r.cursor.rest
  fault : r.fault.isSome = true → r'.fault = r.fault

theorem Onward.trans {r r' r'' : Reader} (h : Onward r r') (h' : Onward r' r'') :
    Onward r r'' := by
  refine ⟨h'.rest.trans h.rest, fun hfault => ?_⟩
  have hkept := h.fault hfault
  rw [h'.fault (hkept ▸ hfault), hkept]

theorem onward_read (r : Reader) (base : Config) : Onward r (r.read base).reader := by
  refine ⟨(stopped_suffix _ _).trans r.cursor.skipSpace_suffix, fun hfault => ?_⟩
  exact Option.or_of_isSome hfault

/-- A reading fails by a fault, which is reported unless there was an
earlier one. -/
theorem fault_of_config_none {r : Reader} {base : Config} (h : (r.read base).config = none) :
    (r.read base).reader.fault.isSome = true := by
  show Option.isSome (r.fault.or _) = true
  cases hfault : (items [] r.cursor.skipSpace).fault with
  | none =>
      have hsome : (r.read base).config.isSome = true := by
        unfold Reader.read
        dsimp only
        rw [hfault]
        rfl
      rw [h] at hsome
      cases hsome
  | some fault =>
      rw [Option.isSome_or]
      exact Bool.or_true _

theorem config_none_of_fault {r : Reader} {base : Config} (hr : r.fault = none)
    (h : (r.read base).reader.fault.isSome = true) : (r.read base).config = none := by
  unfold Reader.read at h ⊢
  dsimp only at h ⊢
  rw [hr, Option.none_or, Option.isSome_map] at h
  rw [if_neg]
  rw [← Option.not_isSome, h]
  decide

theorem at_end_of_config {r : Reader} {base : Config} (h : (r.read base).config.isSome = true) :
    (r.read base).reader.cursor.rest = [] := by
  refine stopped_at_end ?_
  cases hfault : (items [] r.cursor.skipSpace).fault with
  | none => rfl
  | some fault =>
      unfold Reader.read at h
      dsimp only at h
      rw [hfault] at h
      cases h

/-- At the end of the text nothing is read. -/
theorem read_at_end {r : Reader} (h : r.cursor.rest = []) (base : Config) :
    r.read base = ⟨some base, r, []⟩ := by
  obtain ⟨⟨rest, line⟩, fault, archiveSet⟩ := r
  obtain rfl : rest = [] := h
  have hitems : items [] (Cursor.skipSpace ⟨[], line⟩) = ⟨[], none, ⟨[], line⟩⟩ := by
    rw [items]
    rfl
  unfold Reader.read
  dsimp only
  rw [hitems]
  cases fault <;> rfl

/-! ## Reading again and again -/

namespace Reader

theorem report_ne_nil_iff {r : Reader} : r.report ≠ [] ↔ r.fault.isSome = true := by
  have hline : Bytes.ofString "Line " ≠ [] := by decide
  unfold report
  cases r.fault with
  | none => simp
  | some fault => simp [hline]

theorem report_congr {r r' : Reader} (h : r'.fault = r.fault) : r'.report = r.report := by
  rw [report, report, h]

/-- The outcomes of readings that go on from one another, each on top of
a base of its own. -/
def readAll (r : Reader) : List Config → List Outcome
  | [] => []
  | base :: bases => r.read base :: (r.read base).reader.readAll bases

/-- How much of the text was read. -/
def position (text : Bytes) (r : Reader) : Nat := text.length - r.cursor.rest.length

theorem length_readAll (r : Reader) (bases : List Config) :
    (r.readAll bases).length = bases.length := by
  induction bases generalizing r with
  | nil => rfl
  | cons base bases ih => rw [readAll, List.length_cons, List.length_cons, ih]

theorem onward_readAll (r : Reader) (bases : List Config) :
    (r :: (r.readAll bases).map Outcome.reader).Pairwise Onward := by
  induction bases generalizing r with
  | nil => exact List.pairwise_singleton ..
  | cons base bases ih =>
      have hlater := ih (r.read base).reader
      refine List.pairwise_cons.mpr ⟨fun r' hr' => ?_, hlater⟩
      rcases List.mem_cons.mp hr' with rfl | hr'
      · exact onward_read r base
      · exact (onward_read r base).trans ((List.pairwise_cons.mp hlater).1 r' hr')

theorem fault_of_mem_readAll {r : Reader} {bases : List Config} :
    ∀ o ∈ r.readAll bases, o.config = none → o.reader.fault.isSome = true := by
  induction bases generalizing r with
  | nil => exact List.forall_mem_nil _
  | cons base bases ih => exact List.forall_mem_cons.mpr ⟨fault_of_config_none, ih⟩

theorem readAll_at_end {r : Reader} (h : r.cursor.rest = []) (bases : List Config) :
    r.readAll bases = bases.map fun base => ⟨some base, r, []⟩ := by
  induction bases with
  | nil => rfl
  | cons base bases ih => rw [readAll, read_at_end h, ih, List.map_cons]

/-- What was read once is never read again. -/
theorem quiet_after_success (r : Reader) (bases : List Config) :
    (bases.zip (r.readAll bases)).Pairwise fun p q =>
      p.2.config.isSome = true → q.2.config = some q.1 ∧ q.2.events = [] := by
  induction bases generalizing r with
  | nil => exact .nil
  | cons base bases ih =>
      rw [readAll, List.zip_cons_cons]
      refine List.pairwise_cons.mpr ⟨fun q hq hsome => ?_, ih _⟩
      rw [readAll_at_end (at_end_of_config hsome), ← List.map_prod_left_eq_zip] at hq
      obtain ⟨base', -, rfl⟩ := List.mem_map.mp hq
      exact ⟨rfl, rfl⟩

end Reader

/-- Readings of one text never go back and never pass its end. A reading
that fails leaves a report, which for the first reading is there only if
it failed, and the first report stays. After a reading that succeeds
every further one gives its base as it is and has nothing to say. -/
theorem readAll_onward (text : Bytes) (bases : List Config) :
    let outcomes := (Reader.ofText text).readAll bases
    let readers := Reader.ofText text :: outcomes.map Outcome.reader
    (∀ r ∈ readers, r.position text ≤ text.length ∧ r.cursor.rest = text.drop (r.position text)) ∧
    readers.Pairwise (fun r r' => r.position text ≤ r'.position text) ∧
    (∀ o ∈ outcomes, o.config = none → o.reader.report ≠ []) ∧
    readers.Pairwise (fun r r' => r.report ≠ [] → r'.report = r.report) ∧
    (∀ o ∈ outcomes.head?, o.config = none ↔ o.reader.report ≠ []) ∧
    outcomes.length = bases.length ∧
    (bases.zip outcomes).Pairwise (fun p q =>
      p.2.config.isSome = true → q.2.config = some q.1 ∧ q.2.events = []) := by
  intro outcomes readers
  have honward : readers.Pairwise Onward := Reader.onward_readAll _ bases
  have hsuffix : ∀ r ∈ readers, r.cursor.rest <:+ text :=
    List.forall_mem_cons.mpr ⟨List.suffix_rfl, fun r hr =>
      ((List.pairwise_cons.mp honward).1 r hr).rest⟩
  refine ⟨fun r hr => ?_, honward.imp ?_, fun o ho hnone => ?_, honward.imp ?_, fun o ho => ?_,
    Reader.length_readAll _ bases, Reader.quiet_after_success _ bases⟩
  · exact ⟨Nat.sub_le .., List.suffix_iff_eq_drop.mp (hsuffix r hr)⟩
  · intro r r' h
    exact Nat.sub_le_sub_left h.rest.length_le text.length
  · exact Reader.report_ne_nil_iff.mpr (Reader.fault_of_mem_readAll o ho hnone)
  · intro r r' h hreport
    exact Reader.report_congr (h.fault (Reader.report_ne_nil_iff.mp hreport))
  · cases bases with
    | nil => cases ho
    | cons base bases =>
        obtain rfl : (Reader.ofText text).read base = o := Option.some.inj ho
        rw [Reader.report_ne_nil_iff]
        exact ⟨fault_of_config_none, config_none_of_fault rfl⟩

/-- A header that is not closed is at fault, and so is its second word,
which is no setting of any section. Behind it the text is at its end. -/
theorem readAll_onward_brokenHeader :
    ∃ first second third last,
      (Reader.ofText "[x y").readAll [{}, {}, {}, { name := "b" }]
        = [first, second, third, last] ∧
      first.config = none ∧ first.reader.report ≠ [] ∧
      second.config = none ∧ second.reader.position "[x y" = 4 ∧
      third.config.isSome = true ∧ third.reader.report = first.reader.report ∧
      last.config = some { name := "b" } ∧ last.events = [] := by
  obtain ⟨-, -, hfails, hkept, -, -, hquiet⟩ :=
    readAll_onward "[x y" [{}, {}, {}, { name := "b" }]
  have hfirst : (read "[x y" {}).config = none := by decide +kernel
  have hreport := hfails _ (List.mem_cons_self ..) hfirst
  have hlater := (List.pairwise_cons.mp (List.pairwise_cons.mp hkept).2).1
  have hlast := (List.pairwise_cons.mp (List.pairwise_cons.mp (List.pairwise_cons.mp hquiet).2).2).1
  have hthird : (((read "[x y" {}).reader.read {}).reader.read {}).config.isSome = true := by
    decide +kernel
  refine ⟨_, _, _, _, rfl, hfirst, hreport, ?_, ?_, hthird, ?_, ?_⟩
  · decide +kernel
  · decide +kernel
  · refine hlater _ ?_ hreport
    exact List.mem_cons_of_mem _ (List.mem_cons_self ..)
  · exact hlast _ (List.mem_cons_self ..) hthird

end Prebuilt.Manifest
