import Mathlib.Algebra.BigOperators.Group.List.Basic
import Mathlib.Algebra.Ring.Int.Defs
import SpecWording.Proofs.Text.Selection

/-!
# Edits made one at a time

A list of edits is applied in one pass from the left to the right. The plain way is to make the
applied edits one at a time in the text as it stands, from the last one to the first: then no edit
moves the stretch of one that is still to be made, and every edit finds its stretch at the offset
that it was given. Both ways lead to the same text.
-/

namespace SpecWording.Text

namespace Edit

/-- The text after a single edit, if the edit names a stretch of it. -/
def applyTo? (edit : Edit) (text : String) : Option String :=
  (edit.span? text).map fun span ↦ String.ofList (span.before ++ edit.newText.toList ++ span.after)

variable {source text changed front back : String} {edit : Edit} {edits : List Edit} {span : Span}

theorem applyTo?_eq_some_iff : edit.applyTo? text = some changed ↔ ∃ span,
    edit.span? text = some span ∧
      changed = String.ofList (span.before ++ edit.newText.toList ++ span.after) := by
  rw [applyTo?, Option.map_eq_some_iff]
  simp only [eq_comm]

/-- What stands behind its stretch does not matter to an edit. -/
theorem span?_of_before_content (h : edit.span? source = some span) (after : List Char) :
    edit.span? (String.ofList (span.before ++ span.content ++ after)) =
      some ⟨span.before, span.content, after⟩ := by
  obtain ⟨-, hstart, hstop⟩ := span?_eq_some_iff.mp h
  exact span?_eq_some_iff.mpr ⟨String.toList_ofList.symm, hstart, hstop⟩

/-! ## From the last edit to the first -/

/-- Made from the last one to the first, edits that follow each other change what stands behind a
front as splicing does, and they leave the front alone. -/
theorem foldrM_applyTo? {front rest : List Char} (hsource : source.toList = front ++ rest)
    (hspan : ∀ edit ∈ edits, ∃ span, edit.span? source = some span)
    (hfront : ∀ edit ∈ edits, byteLength front ≤ edit.offset)
    (horder : edits.Pairwise fun a b ↦ a.stop ≤ b.offset) :
    edits.foldrM applyTo? source = some (String.ofList
      (front ++ splice source.toList front.length (stretchesOf source edits))) := by
  induction edits generalizing front rest with
  | nil =>
    have hrest : splice source.toList front.length (stretchesOf source []) = rest := by
      rw [stretchesOf, List.filterMap_nil, splice, hsource, List.drop_left]
    rw [List.foldrM_nil, hrest, ← hsource, String.ofList_toList]
    rfl
  | cons edit others ih =>
    obtain ⟨⟨span, hedit⟩, hothers⟩ := List.forall_mem_cons.mp hspan
    obtain ⟨hfirst, hlater⟩ := List.pairwise_cons.mp horder
    obtain ⟨hsplit, hstart, hstop⟩ := span?_eq_some_iff.mp hedit
    have hbehind : ∀ other ∈ others, byteLength (span.before ++ span.content) ≤ other.offset := by
      intro other hmem
      rw [byteLength_append]
      exact hstop.trans_le (hfirst other hmem)
    have hrest := ih hsplit.symm hothers hbehind hlater
    have hprefix : front <+: span.before := by
      have hlength : front.length ≤ span.before.length :=
        (byteLength_le_iff ⟨rest, hsource.symm⟩ (Span.prefix_of_ofRange? hedit)).mp
          ((hfront edit List.mem_cons_self).trans_eq hstart.symm)
      exact List.prefix_of_prefix_length_le ⟨rest, hsource.symm⟩ (Span.prefix_of_ofRange? hedit)
        hlength
    obtain ⟨middle, hmiddle⟩ := hprefix
    have hstretches : stretchesOf source (edit :: others) =
        (span, edit.newText) :: stretchesOf source others := by
      rw [stretchesOf, List.filterMap_cons, hedit]
      rfl
    rw [List.foldrM_cons, hrest, hstretches, splice, ← List.length_append]
    apply applyTo?_eq_some_iff.mpr
    refine ⟨_, span?_of_before_content hedit _, ?_⟩
    rw [← hmiddle, List.drop_left]
    simp only [List.append_assoc]

/-- The stretches of edits at the front of a text are there without what follows. -/
theorem foldrM_applyTo?_append (h : edits.foldrM applyTo? front = some changed) (back : String) :
    edits.foldrM applyTo? (front ++ back) = some (changed ++ back) := by
  induction edits generalizing changed with
  | nil =>
    cases h
    rfl
  | cons edit others ih =>
    rw [List.foldrM_cons, Option.bind_eq_bind, Option.bind_eq_some_iff] at h
    obtain ⟨later, hlater, hedit⟩ := h
    obtain ⟨span, hspan, rfl⟩ := applyTo?_eq_some_iff.mp hedit
    obtain ⟨hsource, hstart, hstop⟩ := span?_eq_some_iff.mp hspan
    have hlonger : edit.span? (later ++ back) =
        some ⟨span.before, span.content, span.after ++ back.toList⟩ := by
      refine span?_eq_some_iff.mpr ⟨?_, hstart, hstop⟩
      rw [String.toList_append, ← hsource]
      simp only [Span.source, List.append_assoc]
    rw [List.foldrM_cons, ih hlater]
    refine applyTo?_eq_some_iff.mpr ⟨_, hlonger, ?_⟩
    simp only [String.ofList_append, String.ofList_toList, String.append_assoc]

/-- Insertions at the end of a front come to stand there one after another. -/
theorem foldrM_insertions
    (h : ∀ edit ∈ edits, edit.offset = front.utf8ByteSize ∧ edit.length = 0) (back : String) :
    edits.foldrM applyTo? (front ++ back) =
      some (front ++ String.join (edits.map (·.newText)) ++ back) := by
  induction edits with
  | nil => simp
  | cons edit others ih =>
    obtain ⟨⟨hoffset, hlength⟩, hothers⟩ := List.forall_mem_cons.mp h
    have hspan : edit.span? (front ++ String.join (others.map (·.newText)) ++ back) =
        some ⟨front.toList, [], (String.join (others.map (·.newText)) ++ back).toList⟩ := by
      have hstart : byteLength front.toList = edit.offset :=
        (byteLength_toList front).trans hoffset.symm
      refine span?_eq_some_iff.mpr ⟨?_, hstart, ?_⟩
      · simp only [Span.source, String.toList_append, List.append_assoc, List.nil_append]
      · rw [Edit.stop, hlength, ← hstart]
        rfl
    rw [List.foldrM_cons, ih hothers]
    refine applyTo?_eq_some_iff.mpr ⟨_, hspan, ?_⟩
    simp only [List.map_cons, String.join_cons, String.ofList_append, String.ofList_toList,
      String.append_assoc]

/-! ## Insertions at one place -/

/-- What stands at the front of a text as well as in all of it. -/
theorem exists_span?_front (h : edit.span? (front ++ back) = some span)
    (hstop : edit.stop ≤ front.utf8ByteSize) : ∃ span, edit.span? front = some span := by
  obtain ⟨hsource, hstart, hend⟩ := span?_eq_some_iff.mp h
  have hwhole : span.before ++ span.content <+: front.toList ++ back.toList := by
    rw [← String.toList_append, ← hsource]
    exact List.prefix_append _ _
  have hbytes : byteLength (span.before ++ span.content) ≤ byteLength front.toList := by
    rw [byteLength_append, byteLength_toList]
    exact hend.trans_le hstop
  have hlength := (byteLength_le_iff hwhole (List.prefix_append _ _)).mp hbytes
  obtain ⟨after, hafter⟩ :=
    List.prefix_of_prefix_length_le hwhole (List.prefix_append _ _) hlength
  exact ⟨⟨span.before, span.content, after⟩, span?_eq_some_iff.mpr ⟨hafter, hstart, hend⟩⟩

/-- Edits that end before a place can be made without what follows. -/
theorem exists_foldrM_before
    (hspan : ∀ edit ∈ edits, ∃ span, edit.span? (front ++ back) = some span)
    (hstop : ∀ edit ∈ edits, edit.stop ≤ front.utf8ByteSize)
    (horder : edits.Pairwise fun a b ↦ a.stop ≤ b.offset) :
    ∃ changed, edits.foldrM applyTo? front = some changed := by
  have hfront : ∀ edit ∈ edits, ∃ span, edit.span? front = some span := by
    intro edit hmem
    obtain ⟨span, hwhole⟩ := hspan edit hmem
    exact exists_span?_front hwhole (hstop edit hmem)
  exact ⟨_, foldrM_applyTo? (List.nil_append _).symm hfront (fun _ _ ↦ Nat.zero_le _) horder⟩

/-- Edits that start behind a place leave the text before it alone. -/
theorem exists_foldrM_behind
    (hspan : ∀ edit ∈ edits, ∃ span, edit.span? (front ++ back) = some span)
    (hfront : ∀ edit ∈ edits, front.utf8ByteSize ≤ edit.offset)
    (horder : edits.Pairwise fun a b ↦ a.stop ≤ b.offset) :
    ∃ changed, edits.foldrM applyTo? (front ++ back) = some (front ++ changed) := by
  have hbytes : ∀ edit ∈ edits, byteLength front.toList ≤ edit.offset := by
    intro edit hmem
    rw [byteLength_toList]
    exact hfront edit hmem
  have hwhole := foldrM_applyTo? String.toList_append hspan hbytes horder
  rw [String.ofList_append, String.ofList_toList] at hwhole
  exact ⟨_, hwhole⟩

/-- The place of an edit cuts the text in two. -/
theorem exists_cut (h : edit.span? source = some span) :
    ∃ before after, source = before ++ after ∧ before.utf8ByteSize = edit.offset := by
  obtain ⟨hsource, hstart, -⟩ := span?_eq_some_iff.mp h
  refine ⟨String.ofList span.before, String.ofList (span.content ++ span.after), ?_, ?_⟩
  · rw [← String.ofList_append, ← List.append_assoc, ← Span.source, hsource, String.ofList_toList]
  · rw [utf8ByteSize_ofList]
    exact hstart

/-- Whether an edit replaces nothing at an offset. -/
def isInsertionAt (offset : Nat) (edit : Edit) : Bool := edit.offset == offset && edit.length == 0

theorem isInsertionAt_iff {offset : Nat} :
    isInsertionAt offset edit = true ↔ edit.offset = offset ∧ edit.length = 0 := by
  rw [isInsertionAt, Bool.and_eq_true, beq_iff_eq, beq_iff_eq]

/-- If a test is passed up to some place of a list, that is where it is cut by the test. -/
theorem filter_append_filter_not {α : Type} (test : α → Bool) {items : List α}
    (h : items.Pairwise fun a b ↦ test b = true → test a = true) :
    items.filter test ++ items.filter (!test ·) = items := by
  induction items with
  | nil => rfl
  | cons item others ih =>
    obtain ⟨hfirst, hothers⟩ := List.pairwise_cons.mp h
    cases hitem : test item with
    | true => simp [hitem, ih hothers]
    | false =>
      have hnone : ∀ other ∈ others, test other = false := by
        intro other hmem
        rw [Bool.eq_false_iff]
        intro hother
        rw [hfirst other hmem hother] at hitem
        cases hitem
      have hleft : others.filter test = [] := by
        rw [List.filter_eq_nil_iff]
        intro other hmem
        rw [hnone other hmem]
        exact Bool.false_ne_true
      have hright : others.filter (!test ·) = others := by
        rw [List.filter_eq_self]
        intro other hmem
        rw [hnone other hmem, Bool.not_false]
      rw [List.filter_cons_of_neg (by simp [hitem]), List.filter_cons_of_pos (by simp [hitem]),
        hleft, hright, List.nil_append]

section Insertions

variable (horder : edits.Pairwise fun a b ↦
  a.offset < b.offset ∨ a.offset = b.offset ∧ a.length ≤ b.length) (offset : Nat)

include horder

/-- The insertions at an offset stand between the edits before it and all others. -/
theorem exists_filter_append :
    ∃ later, (∀ edit ∈ later, offset ≤ edit.offset) ∧
      edits.filter (·.offset < offset) ++ (edits.filter (isInsertionAt offset) ++ later) =
        edits := by
  let rest := edits.filter fun edit ↦ !decide (edit.offset < offset)
  have hrest : ∀ edit ∈ rest, offset ≤ edit.offset := by
    intro edit hmem
    simpa using List.of_mem_filter hmem
  have hsplit : edits.filter (·.offset < offset) ++ rest = edits := by
    apply filter_append_filter_not
    refine horder.imp fun hab hb ↦ ?_
    rw [decide_eq_true_eq] at hb ⊢
    omega
  have hcut : rest.filter (isInsertionAt offset) ++ rest.filter (!isInsertionAt offset ·) =
      rest := by
    apply filter_append_filter_not
    refine (horder.filter _).imp_of_mem fun ha hb hab hinsertion ↦ ?_
    have hstart := hrest _ ha
    rw [isInsertionAt_iff] at hinsertion ⊢
    omega
  have hinsertions : rest.filter (isInsertionAt offset) = edits.filter (isInsertionAt offset) := by
    rw [List.filter_filter]
    apply List.filter_congr
    intro edit _
    rw [Bool.and_eq_left_iff_imp, isInsertionAt_iff]
    rintro ⟨rfl, -⟩
    simp
  refine ⟨rest.filter (!isInsertionAt offset ·), ?_, by rw [← hinsertions, hcut, hsplit]⟩
  intro edit hmem
  exact hrest edit (List.mem_of_mem_filter hmem)

/-- All insertions at one place come to stand there in order, behind what the edits before them make
of the text before that place. -/
theorem exists_insertions (hspan : ∀ edit ∈ edits, ∃ span, edit.span? source = some span)
    (hapart : edits.Pairwise fun a b ↦ a.stop ≤ b.offset)
    (hsome : edits.filter (isInsertionAt offset) ≠ [])
    (htext : edits.foldrM applyTo? source = some text) :
    ∃ before after front back, source = before ++ after ∧ before.utf8ByteSize = offset ∧
      (edits.filter (·.offset < offset)).foldrM applyTo? before = some front ∧
      text = front ++ String.join ((edits.filter (isInsertionAt offset)).map (·.newText)) ++
        back := by
  obtain ⟨later, hlater, hsplit⟩ := exists_filter_append horder offset
  let early := edits.filter (·.offset < offset)
  let insertions := edits.filter (isInsertionAt offset)
  obtain ⟨insertion, hinsertion⟩ := List.exists_mem_of_ne_nil insertions hsome
  obtain ⟨span, hplace⟩ := hspan insertion (List.mem_of_mem_filter hinsertion)
  obtain ⟨before, after, rfl, hbefore⟩ := exists_cut hplace
  have hsize : before.utf8ByteSize = offset :=
    hbefore.trans (isInsertionAt_iff.mp (List.of_mem_filter hinsertion)).1
  rw [← hsplit] at hspan hapart
  obtain ⟨hearlyApart, hothersApart, hearlyStop⟩ := List.pairwise_append.mp hapart
  obtain ⟨front, hfront⟩ : ∃ front, early.foldrM applyTo? before = some front := by
    apply exists_foldrM_before (fun edit hmem ↦ hspan edit (List.mem_append_left _ hmem)) _
      hearlyApart
    intro edit hmem
    rw [hbefore]
    exact hearlyStop edit hmem insertion (List.mem_append_left _ hinsertion)
  obtain ⟨back, hback⟩ :
      ∃ back, later.foldrM applyTo? (before ++ after) = some (before ++ back) := by
    apply exists_foldrM_behind _ (fun edit hmem ↦ hsize.trans_le (hlater edit hmem))
      (List.pairwise_append.mp hothersApart).2.1
    exact fun edit hmem ↦ hspan edit (List.mem_append_right _ (List.mem_append_right _ hmem))
  refine ⟨before, after, front, back, rfl, hsize, hfront, ?_⟩
  have hinsertions : ∀ edit ∈ insertions, edit.offset = before.utf8ByteSize ∧ edit.length = 0 := by
    intro edit hmem
    rw [hsize]
    exact isInsertionAt_iff.mp (List.of_mem_filter hmem)
  have hwhole : edits.foldrM applyTo? (before ++ after) =
      some (front ++ (String.join (insertions.map (·.newText)) ++ back)) := by
    calc
      edits.foldrM applyTo? (before ++ after) =
          (early ++ (insertions ++ later)).foldrM applyTo? (before ++ after) := by rw [hsplit]
      _ = insertions.foldrM applyTo? (before ++ back) >>= early.foldrM applyTo? := by
        rw [List.foldrM_append, List.foldrM_append, hback]
        rfl
      _ = early.foldrM applyTo? (before ++ (String.join (insertions.map (·.newText)) ++ back)) := by
        rw [foldrM_insertions hinsertions, String.append_assoc]
        rfl
      _ = _ := foldrM_applyTo?_append hfront _
  rw [htext, Option.some.injEq] at hwhole
  rw [hwhole, String.append_assoc]

end Insertions

/-! ## The length of the text -/

theorem utf8ByteSize_applyTo? (h : edit.applyTo? text = some changed) :
    (changed.utf8ByteSize : Int) =
      text.utf8ByteSize + ((edit.newText.utf8ByteSize : Int) - edit.length) := by
  obtain ⟨span, hspan, rfl⟩ := applyTo?_eq_some_iff.mp h
  obtain ⟨hsource, hstart, hstop⟩ := span?_eq_some_iff.mp hspan
  have hlength : byteLength span.content = edit.length := by
    unfold Span.stop Edit.stop Span.length at hstop
    omega
  rw [utf8ByteSize_ofList, ← byteLength_toList text, ← hsource, ← byteLength_toList edit.newText]
  simp only [Span.source, byteLength_append]
  omega

/-- Every edit makes the text longer by what it adds and shorter by what it replaces. -/
theorem utf8ByteSize_foldrM (h : edits.foldrM applyTo? source = some text) :
    (text.utf8ByteSize : Int) = source.utf8ByteSize +
      (edits.map fun edit ↦ (edit.newText.utf8ByteSize : Int) - edit.length).sum := by
  induction edits generalizing text with
  | nil =>
    cases h
    simp
  | cons edit others ih =>
    rw [List.foldrM_cons, Option.bind_eq_bind, Option.bind_eq_some_iff] at h
    obtain ⟨later, hlater, hedit⟩ := h
    rw [utf8ByteSize_applyTo? hedit, ih hlater, List.map_cons, List.sum_cons]
    omega

end Edit

open Edit

variable {source : String} {edits : List Edit} {offset : Nat}

/-! ## The applied edits of a list -/

/-- The applied edits with their indices, in the order of judging. -/
def appliedEntries (judgements : List Judgement) : List (Edit × Nat) :=
  (judgements.filter (·.isApplied)).map Judgement.entry

theorem map_fst_appliedEntries (judgements : List Judgement) :
    (appliedEntries judgements).map Prod.fst = appliedEdits judgements := by
  rw [appliedEntries, List.map_map]
  rfl

theorem pairwise_precedes_appliedEntries (source : String) (edits : List Edit) :
    (appliedEntries (applyEdits source edits).judgements).Pairwise Precedes := by
  rw [appliedEntries, List.pairwise_map]
  exact (pairwise_precedes_judgements source edits).filter _

theorem appliedEntries_perm (source : String) (edits : List Edit) :
    (appliedEntries (applyEdits source edits).judgements).Perm
      (edits.zipIdx.filter fun entry ↦ (applyEdits source edits).flags[entry.2]? = some true) := by
  have hfilter : appliedEntries (applyEdits source edits).judgements = (inOrder edits).filter
      fun entry ↦ (applyEdits source edits).flags[entry.2]? = some true := by
    rw [← map_entry_judgements source, List.filter_map, appliedEntries]
    congr 1
    apply List.filter_congr
    intro judgement hmem
    rw [Function.comp_apply, Judgement.entry, getElem?_flags_of_mem hmem]
    cases judgement.isApplied <;> rfl
  rw [hfilter]
  exact (inOrder_perm edits).filter _

theorem pairwise_appliedEdits (source : String) (edits : List Edit) :
    (appliedEdits (applyEdits source edits).judgements).Pairwise fun a b ↦ a.stop ≤ b.offset := by
  rw [appliedEdits, List.pairwise_map, List.pairwise_filter]
  exact (judged_applyEdits source edits).pairwise_apart

theorem exists_span?_of_mem_appliedEdits (source : String) (edits : List Edit) :
    ∀ edit ∈ appliedEdits (applyEdits source edits).judgements,
      ∃ span, edit.span? source = some span := by
  intro edit hmem
  obtain ⟨judgement, hjudgement, rfl⟩ := List.mem_map.mp hmem
  exact (judged_applyEdits source edits).exists_span judgement
    (List.mem_of_mem_filter hjudgement) (List.of_mem_filter hjudgement)

/-- The text after a list of edits is what the applied ones make of it one at a time. -/
theorem foldrM_appliedEdits (source : String) (edits : List Edit) :
    (appliedEdits (applyEdits source edits).judgements).foldrM applyTo? source =
      some (applyEdits source edits).text := by
  rw [foldrM_applyTo? (List.nil_append _).symm (exists_span?_of_mem_appliedEdits source edits)
    (fun _ _ ↦ Nat.zero_le _) (pairwise_appliedEdits source edits), ← replaced_eq_stretchesOf]
  rfl

/-- Insertions at one place are judged in the order of the list. -/
theorem filter_isInsertionAt (offset : Nat) :
    (appliedEntries (applyEdits source edits).judgements).filter (isInsertionAt offset ·.1) =
      (edits.zipIdx.filter fun entry ↦
          (applyEdits source edits).flags[entry.2]? = some true).filter
        (isInsertionAt offset ·.1) := by
  apply eq_of_pairwise_precedes ((appliedEntries_perm source edits).filter _)
    ((pairwise_precedes_appliedEntries source edits).filter _)
  refine ((pairwise_zipIdx edits).filter _).filter _ |>.imp_of_mem fun ha hb hindex ↦ ?_
  have hfirst := List.of_mem_filter ha
  have hsecond := List.of_mem_filter hb
  rw [isInsertionAt_iff] at hfirst hsecond
  rw [precedes_iff]
  omega

/-- The applied insertions at one place stand there in the order of judging. -/
theorem exists_insertions_applyEdits
    (h : (appliedEdits (applyEdits source edits).judgements).filter (isInsertionAt offset) ≠ []) :
    ∃ before after front back, source = before ++ after ∧ before.utf8ByteSize = offset ∧
      ((appliedEdits (applyEdits source edits).judgements).filter (·.offset < offset)).foldrM
        applyTo? before = some front ∧
      (applyEdits source edits).text = front ++ String.join
        (((appliedEdits (applyEdits source edits).judgements).filter
          (isInsertionAt offset)).map (·.newText)) ++ back := by
  have horder : (appliedEdits (applyEdits source edits).judgements).Pairwise fun a b ↦
      a.offset < b.offset ∨ a.offset = b.offset ∧ a.length ≤ b.length := by
    rw [← map_fst_appliedEntries, List.pairwise_map]
    exact (pairwise_precedes_appliedEntries source edits).imp Precedes.stretch_le
  exact exists_insertions horder offset (exists_span?_of_mem_appliedEdits source edits)
    (pairwise_appliedEdits source edits) h (foldrM_appliedEdits source edits)

end SpecWording.Text
