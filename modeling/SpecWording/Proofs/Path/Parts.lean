import Mathlib.Data.List.DropRight
import SpecWording.Proofs.Path.Order

/-!
# Names below a path

Joining a name to a path adds one part to the parts of the path, and taking a base away from a path
below it takes the parts of the base away. So paths with one base compare as what is below the base
does.
-/

namespace SpecWording

namespace Text

variable {separator : Char}

theorem fields_append_cons (separator : Char) (as bs : List Char) :
    fields separator (as ++ separator :: bs) = fields separator as ++ fields separator bs := by
  induction as with
  | nil => simp [fields]
  | cons a as ih =>
    rw [List.cons_append, fields, fields, ih]
    split
    · rfl
    · obtain ⟨field, others, h⟩ := List.exists_cons_of_ne_nil (fields_ne_nil separator as)
      rw [h]
      rfl

theorem fields_of_not_mem {cs : List Char} (h : separator ∉ cs) : fields separator cs = [cs] := by
  induction cs with
  | nil => rfl
  | cons c cs ih =>
    rw [List.mem_cons, not_or] at h
    rw [fields, if_neg (Ne.symm h.1), ih h.2]

theorem not_mem_of_mem_fields {cs field : List Char} (h : field ∈ fields separator cs) :
    separator ∉ field := by
  induction cs generalizing field with
  | nil => simp_all [fields]
  | cons c cs ih =>
    obtain ⟨first, others, hfields⟩ := List.exists_cons_of_ne_nil (fields_ne_nil separator cs)
    rw [fields, hfields] at h
    rw [hfields] at ih
    split at h
    · rcases List.mem_cons.mp h with rfl | h
      · exact List.not_mem_nil
      · exact ih h
    · next hc =>
      rcases List.mem_cons.mp h with rfl | h
      · rw [List.mem_cons, not_or]
        exact ⟨Ne.symm hc, ih List.mem_cons_self⟩
      · exact ih (List.mem_cons_of_mem _ h)

theorem fields_joinFields {segments : List (List Char)} (hne : segments ≠ [])
    (h : ∀ segment ∈ segments, separator ∉ segment) :
    fields separator (joinFields [separator] segments) = segments := by
  induction segments with
  | nil => exact absurd rfl hne
  | cons segment others ih =>
    obtain ⟨hsegment, hothers⟩ := List.forall_mem_cons.mp h
    cases others with
    | nil => exact fields_of_not_mem hsegment
    | cons next others =>
      rw [joinFields, List.append_assoc, List.singleton_append, fields_append_cons,
        fields_of_not_mem hsegment, ih (List.cons_ne_nil _ _) hothers, List.singleton_append]

end Text

namespace Path

open Text (fields joinFields)

/-- A text that names an entry of a directory. -/
structure IsName (name : String) : Prop where
  ne_nil : name.toList ≠ []
  no_separator : '/' ∉ name.toList
  ne_here : name ≠ "."
  ne_up : name ≠ ".."

theorem isName_iff {name : String} : IsName name ↔
    name.toList ≠ [] ∧ '/' ∉ name.toList ∧ name ≠ "." ∧ name ≠ ".." :=
  ⟨fun ⟨hnil, hseparator, hhere, hup⟩ ↦ ⟨hnil, hseparator, hhere, hup⟩,
    fun ⟨hnil, hseparator, hhere, hup⟩ ↦ ⟨hnil, hseparator, hhere, hup⟩⟩

instance (name : String) : Decidable (IsName name) := decidable_of_iff _ isName_iff.symm

/-- A text that is one step of a path: a name or `..`. -/
structure IsStep (step : String) : Prop where
  ne_nil : step.toList ≠ []
  no_separator : '/' ∉ step.toList
  ne_here : step ≠ "."

variable {base path : Path} {name step : String} {names : List String}
  {segments : List (List Char)}

theorem IsName.isStep (h : IsName name) : IsStep name := ⟨h.ne_nil, h.no_separator, h.ne_here⟩

theorem IsStep.ne_empty (h : IsStep step) : step ≠ "" :=
  fun heq ↦ h.ne_nil (String.toList_eq_nil_iff.mpr heq)

theorem IsName.ne_empty (h : IsName name) : name ≠ "" := h.isStep.ne_empty

theorem isAbsolute_eq_false_of_not_mem (h : '/' ∉ step.toList) : Path.isAbsolute ⟨step⟩ = false := by
  rw [isAbsolute]
  cases hstep : step.toList with
  | nil => rfl
  | cons c cs =>
    rw [hstep] at h
    simpa using (List.ne_of_not_mem_cons h).symm

theorem IsStep.isAbsolute_eq_false (h : IsStep step) : Path.isAbsolute ⟨step⟩ = false :=
  isAbsolute_eq_false_of_not_mem h.no_separator

theorem IsStep.isVoid_eq_false (h : IsStep step) : isVoid step.toList = false := by
  have hhere : step.toList ≠ ['.'] := fun heq ↦ h.ne_here (String.toList_injective heq)
  simp [isVoid, h.ne_nil, hhere]

theorem IsName.partOfSegment (h : IsName name) : partOfSegment name.toList = .name name := by
  have hup : name.toList ≠ ['.', '.'] := fun heq ↦ h.ne_up (String.toList_injective heq)
  rw [Path.partOfSegment, if_neg hup, String.ofList_toList]

/-! ## Parts of segments -/

/-- The parts that segments spell behind the leading part. -/
def partsOf (segments : List (List Char)) : List Part :=
  (segments.filter (!isVoid ·)).map partOfSegment

theorem parts_eq (path : Path) :
    path.parts = path.split.1.toList ++ partsOf path.split.2 := rfl

theorem partsOf_append (as bs : List (List Char)) :
    partsOf (as ++ bs) = partsOf as ++ partsOf bs := by
  rw [partsOf, List.filter_append, List.map_append, partsOf, partsOf]

theorem partsOf_dropVoid (segments : List (List Char)) :
    partsOf (dropVoid segments) = partsOf segments := by
  induction segments with
  | nil => rfl
  | cons segment segments ih =>
    cases hvoid : isVoid segment with
    | true =>
      rw [dropVoid, List.dropWhile_cons_of_pos hvoid, ← dropVoid, ih, partsOf, partsOf,
        List.filter_cons_of_neg (by simp [hvoid])]
    | false => rw [dropVoid, List.dropWhile_cons_of_neg (by simp [hvoid])]

theorem partsOf_reverse (segments : List (List Char)) :
    partsOf segments.reverse = (partsOf segments).reverse := by
  rw [partsOf, List.filter_reverse, List.map_reverse, partsOf]

theorem partsOf_dropVoidEnd (segments : List (List Char)) :
    partsOf (dropVoidEnd segments) = partsOf segments := by
  rw [dropVoidEnd, partsOf_reverse, partsOf_dropVoid, partsOf_reverse, List.reverse_reverse]

theorem partsOf_name (h : IsName name) : partsOf [name.toList] = [.name name] := by
  rw [partsOf, List.filter_cons_of_pos (by simp [h.isStep.isVoid_eq_false]),
    List.filter_nil, List.map_singleton, h.partOfSegment]

theorem isVoid_of_dropVoid_eq_cons {segment : List Char} {others : List (List Char)}
    (h : dropVoid segments = segment :: others) : isVoid segment = false := by
  have hhead := List.head?_dropWhile_not isVoid segments
  rw [← dropVoid, h] at hhead
  exact hhead

/-- Segments that begin with the parts of a base leave segments with the other parts. -/
theorem exists_dropParts {front back : List Part} (h : partsOf segments = front ++ back) :
    ∃ rest, dropParts front segments = some rest ∧ partsOf rest = back ∧ rest ⊆ segments := by
  induction front generalizing segments with
  | nil => exact ⟨segments, rfl, h, List.Subset.refl _⟩
  | cons part front ih =>
    rw [← partsOf_dropVoid] at h
    have hsubset : dropVoid segments ⊆ segments := (List.dropWhile_suffix isVoid).subset
    cases hsegments : dropVoid segments with
    | nil =>
      rw [hsegments] at h
      cases h
    | cons segment others =>
      have hvoid := isVoid_of_dropVoid_eq_cons hsegments
      rw [hsegments, partsOf, List.filter_cons_of_pos (by simp [hvoid]), List.map_cons,
        List.cons_append, List.cons.injEq, ← partsOf] at h
      obtain ⟨rest, hrest, hback, hsub⟩ := ih h.2
      refine ⟨rest, ?_, hback, fun _ hmem ↦ hsubset (hsegments ▸ .tail _ (hsub hmem))⟩
      rw [dropParts, hsegments]
      exact (if_pos h.1).trans hrest

/-- Segments written one behind the other are read back, unless what comes first says nothing. -/
theorem parts_ofSegments (hseparator : ∀ segment ∈ segments, '/' ∉ segment)
    (hfirst : ∀ first others, segments = first :: others → isVoid first = false) :
    (ofSegments none segments).parts = partsOf segments := by
  cases segments with
  | nil => rfl
  | cons first others =>
    have hvoid := hfirst first others rfl
    have htext : (ofSegments none (first :: others)).text.toList =
        joinFields ['/'] (first :: others) := by
      rw [ofSegments, String.toList_ofList]
    have hfields := Text.fields_joinFields (List.cons_ne_nil first others) hseparator
    have habsolute : (ofSegments none (first :: others)).isAbsolute = false := by
      rw [isAbsolute, htext]
      cases first with
      | nil => cases hvoid
      | cons c cs =>
        have hc : c ≠ '/' := by
          rintro rfl
          exact hseparator _ List.mem_cons_self List.mem_cons_self
        cases others <;> simpa [joinFields] using hc
    have hhere : first ≠ ['.'] := by
      rintro rfl
      cases hvoid
    simp [parts_eq, split, htext, hfields, habsolute, hhere]

/-! ## Joining a step -/

/-- The fields of a relative path come last, where the base has nothing or an empty field at most. -/
theorem exists_fields_join_of_relative (hbase : base.text ≠ "") (hpath : path.isAbsolute = false) :
    ∃ front, front ≠ [] ∧
      fields '/' (base.join path).text.toList = front ++ fields '/' path.text.toList ∧
      (fields '/' base.text.toList = front ∨ fields '/' base.text.toList = front ++ [[]]) ∧
      (base.join path).isAbsolute = base.isAbsolute := by
  have hnil : base.text.toList ≠ [] := fun h ↦ hbase (String.toList_eq_nil_iff.mp h)
  have hempty : base.text.isEmpty = false := by simpa using hbase
  rw [join, hpath, hempty, Bool.false_or, if_neg Bool.false_ne_true]
  split
  · next hslash =>
    obtain ⟨front, hfront⟩ := List.getLast?_eq_some_iff.mp (eq_of_beq hslash)
    refine ⟨fields '/' front, Text.fields_ne_nil _ _, ?_, .inr ?_, ?_⟩
    · rw [String.toList_append, hfront, List.append_assoc, List.singleton_append,
        Text.fields_append_cons]
    · rw [hfront, Text.fields_append_cons]
      rfl
    · rw [isAbsolute, isAbsolute, String.toList_append, List.head?_append_of_ne_nil _ hnil]
  · refine ⟨fields '/' base.text.toList, Text.fields_ne_nil _ _, ?_, .inl rfl, ?_⟩
    · have hmiddle : "/".toList = ['/'] := rfl
      rw [String.toList_append, String.toList_append, hmiddle, List.append_assoc,
        List.singleton_append, Text.fields_append_cons]
    · rw [isAbsolute, isAbsolute, String.toList_append, String.toList_append, List.append_assoc,
        List.head?_append_of_ne_nil _ hnil]

/-- The joined step is the last field. -/
theorem exists_fields_join (hbase : base.text ≠ "") (hstep : IsStep step) :
    ∃ front, front ≠ [] ∧
      fields '/' (base.join ⟨step⟩).text.toList = front ++ [step.toList] ∧
      (fields '/' base.text.toList = front ∨ fields '/' base.text.toList = front ++ [[]]) ∧
      (base.join ⟨step⟩).isAbsolute = base.isAbsolute := by
  obtain ⟨front, hne, hfields, hfront⟩ :=
    exists_fields_join_of_relative hbase hstep.isAbsolute_eq_false
  rw [Text.fields_of_not_mem hstep.no_separator] at hfields
  exact ⟨front, hne, hfields, hfront⟩

theorem exists_split_join (hbase : base.text ≠ "") (hstep : IsStep step) :
    ∃ front, (base.join ⟨step⟩).split = (base.split.1, front ++ [step.toList]) ∧
      (base.split.2 = front ∨ base.split.2 = front ++ [[]]) := by
  obtain ⟨front, hne, hjoin, hfields, habsolute⟩ := exists_fields_join hbase hstep
  obtain ⟨first, others, rfl⟩ := List.exists_cons_of_ne_nil hne
  rw [split, split, hjoin, habsolute]
  refine ⟨if base.isAbsolute ∨ first = ['.'] then others else first :: others, ?_⟩
  rcases hfields with hfields | hfields <;> rw [hfields] <;> cases base.isAbsolute <;>
    by_cases hhere : first = ['.'] <;> simp [hhere]

/-- A name joined to a path is one more part. -/
theorem parts_join (hbase : base.text ≠ "") (hname : IsName name) :
    (base.join ⟨name⟩).parts = base.parts ++ [.name name] := by
  obtain ⟨front, hsplit, hbase⟩ := exists_split_join hbase hname.isStep
  have hfront : partsOf base.split.2 = partsOf front := by
    rcases hbase with hbase | hbase
    · rw [hbase]
    · rw [hbase, partsOf_append]
      exact List.append_nil _
  rw [parts_eq, parts_eq, hsplit, hfront, partsOf_append, partsOf_name hname, List.append_assoc]

theorem leading_join (hbase : base.text ≠ "") (hstep : IsStep step) :
    (base.join ⟨step⟩).split.1 = base.split.1 := by
  obtain ⟨front, hsplit, -⟩ := exists_split_join hbase hstep
  rw [hsplit]

theorem text_join_ne_empty (hstep : IsStep step) : (base.join ⟨step⟩).text ≠ "" := by
  unfold join
  split
  · exact hstep.ne_empty
  · split <;> simp [hstep.ne_empty]

/-- What follows a step without a separator of its own follows the joined path. -/
theorem join_append (base : Path) {front : String} (back : String) (hfront : front ≠ "")
    (hrelative : isAbsolute ⟨front⟩ = false) :
    base.join ⟨front ++ back⟩ = ⟨(base.join ⟨front⟩).text ++ back⟩ := by
  have hsame : isAbsolute ⟨front ++ back⟩ = false := by
    rw [isAbsolute, String.toList_append, List.head?_append_of_ne_nil _ (by simpa using hfront)]
    exact hrelative
  rw [join, join, hsame, hrelative, if_neg Bool.false_ne_true, if_neg Bool.false_ne_true]
  split <;> simp only [String.append_assoc]

/-- Behind a step comes a separator. -/
theorem join_join (base : Path) {first : String} (hfirst : IsStep first)
    (hpath : path.isAbsolute = false) :
    (base.join ⟨first⟩).join path = ⟨(base.join ⟨first⟩).text ++ ("/" ++ path.text)⟩ := by
  have hne : first.toList ≠ [] := by simpa using hfirst.ne_empty
  have hend : (base.join ⟨first⟩).text.toList.getLast? = first.toList.getLast? := by
    rw [join, hfirst.isAbsolute_eq_false, if_neg Bool.false_ne_true]
    split <;> rw [String.toList_append, List.getLast?_append_of_ne_nil _ hne]
  have hseparator : first.toList.getLast? ≠ some '/' := by
    intro hslash
    exact hfirst.no_separator (List.mem_of_getLast? hslash)
  have htext : (base.join ⟨first⟩).text ≠ "" := text_join_ne_empty hfirst
  rw [join, hpath, hend, if_neg Bool.false_ne_true, if_neg (by simp [htext, hseparator]),
    String.append_assoc]

/-! ## What is below a base -/

theorem parts_ne_nil (h : path.text ≠ "") : path.parts ≠ [] := by
  obtain ⟨c, cs, hcs⟩ := List.exists_cons_of_ne_nil
    fun hnil ↦ h (String.toList_eq_nil_iff.mp hnil)
  obtain ⟨field, others, hfields⟩ := List.exists_cons_of_ne_nil (Text.fields_ne_nil '/' cs)
  by_cases hslash : c = '/'
  · simp [parts, split, isAbsolute, hcs, hslash]
  · by_cases hhere : c :: field = ['.']
    · simp [parts, split, isAbsolute, hcs, hslash, fields, hfields, hhere]
    · simp [parts, split, isAbsolute, hcs, hslash, fields, hfields, hhere, isVoid]

theorem not_mem_of_mem_split {segment : List Char} (h : segment ∈ path.split.2) :
    '/' ∉ segment := by
  have hfields : segment ∈ fields '/' path.text.toList := by
    unfold split at h
    dsimp only at h
    split at h
    · exact List.mem_of_mem_tail h
    · split at h
      · exact List.mem_of_mem_tail h
      · exact h
  exact Text.not_mem_of_mem_fields hfields

theorem prefix_dropVoidEnd (segments : List (List Char)) : dropVoidEnd segments <+: segments :=
  List.rdropWhile_prefix isVoid segments

/-- What is below a base has the parts that the base does not have. -/
theorem exists_below? (hbase : base.text ≠ "") (hleading : path.split.1 = base.split.1)
    (hparts : path.parts = base.parts ++ names.map .name) :
    ∃ relative, path.below? base = some relative ∧ relative.parts = names.map .name := by
  have hback : partsOf path.split.2 = partsOf base.split.2 ++ names.map .name := by
    rw [parts_eq, parts_eq, hleading, List.append_assoc] at hparts
    exact List.append_cancel_left hparts
  obtain ⟨rest, hrest, hnames, hsubset⟩ := exists_dropParts hback
  refine ⟨ofSegments none (dropVoidEnd (dropVoid rest)), ?_, ?_⟩
  · unfold below?
    simp only [if_neg (parts_ne_nil hbase), if_pos hleading]
    exact congrArg _ hrest
  · have hsub : dropVoidEnd (dropVoid rest) ⊆ path.split.2 := by
      intro segment hmem
      exact hsubset ((List.dropWhile_suffix _).subset ((prefix_dropVoidEnd _).subset hmem))
    rw [parts_ofSegments, partsOf_dropVoidEnd, partsOf_dropVoid, hnames]
    · intro segment hmem
      exact not_mem_of_mem_split (hsub hmem)
    · intro first others hcons
      obtain ⟨back, hprefix⟩ := prefix_dropVoidEnd (dropVoid rest)
      rw [hcons] at hprefix
      exact isVoid_of_dropVoid_eq_cons hprefix.symm

end Path

end SpecWording
