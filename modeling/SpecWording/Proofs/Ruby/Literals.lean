import SpecWording.Proofs.Ruby.Lowering
import SpecWording.Proofs.Text.Quoting
import SpecWording.Proofs.Wording.Autocorrection
import SpecWording.Proofs.Wording.FlaggedExamples
import SpecWording.Ruby.Program

/-!
# The values of lowered literals

Lowering cuts the value of a literal out of the source by bytes, and whoever flags the literal takes
a character off each end of its range. A quote has one byte, so the two cuts agree wherever a literal
that starts with a quote also ends with one. A parser that closes its quotes therefore never makes a
value up: a description is tested on the very text that is reworded.
-/

namespace SpecWording.Text

variable {source : String} {start stop : Nat}

/-- Whether a quote stands at an offset. -/
def HasQuoteAt (source : String) (offset : Nat) : Prop :=
  ∃ before quote after, IsQuote quote ∧ source.toList = before ++ quote :: after ∧
    byteLength before = offset

theorem IsQuote.utf8Size_eq {quote : Char} (h : IsQuote quote) : quote.utf8Size = 1 := by
  rcases h with rfl | rfl <;> rfl

/-- Between two quotes, what is cut by bytes is what is left without the characters at the ends. -/
theorem exists_span_between_quotes (hopening : HasQuoteAt source start)
    (hclosing : HasQuoteAt source (stop - 1)) (hboth : start + 2 ≤ stop) :
    ∃ span, Span.inner? source start stop = some span ∧
      Span.ofRange? source (start + 1) (stop - 1) = some span := by
  obtain ⟨before, opening, after, hquote, hsource, rfl⟩ := hopening
  obtain ⟨before', closing, after', hquote', hsource', hlength⟩ := hclosing
  have hsize := hquote.utf8Size_eq
  have hsize' := hquote'.utf8Size_eq
  -- The closing quote stands behind the opening one, with the content between them.
  have hfront : before ++ [opening] <+: source.toList := ⟨after, by simp [hsource]⟩
  have hfront' : before' <+: source.toList := ⟨closing :: after', hsource'.symm⟩
  have hle : (before ++ [opening]).length ≤ before'.length := by
    rw [← byteLength_le_iff hfront hfront', byteLength_append, byteLength_cons, byteLength_nil]
    omega
  obtain ⟨content, rfl⟩ := List.prefix_of_prefix_length_le hfront hfront' hle
  rw [byteLength_append, byteLength_append, byteLength_cons, byteLength_nil, hsize] at hlength
  refine ⟨⟨before ++ [opening], content, closing :: after'⟩, ?_, ?_⟩
  · have houter : Span.ofRange? source (byteLength before) stop =
        some ⟨before, opening :: (content ++ [closing]), after'⟩ := by
      refine Span.ofRange?_eq_some_iff.mpr ⟨?_, rfl, ?_⟩
      · simp [Span.source, hsource']
      · simp only [Span.stop, Span.start, Span.length, byteLength_append, byteLength_cons,
          byteLength_nil, hsize, hsize']
        omega
    exact Span.inner?_eq_some_iff.mpr ⟨_, opening, closing, houter, rfl, rfl, rfl⟩
  · refine Span.ofRange?_eq_some_iff.mpr ⟨?_, ?_, ?_⟩
    · simp [Span.source, hsource']
    · simp [Span.start, hsize]
    · simp only [Span.stop, Span.start, Span.length, byteLength_append, byteLength_cons,
        byteLength_nil, hsize]
      omega

end SpecWording.Text

namespace SpecWording.Ruby

open Syntax (Node ByteRange)
open Text (Cuts HasQuoteAt IsQuote Span)

theorem isQuoteAt_ofText {source : String} {offset : Nat} :
    isQuoteAt (Cuts.ofText source) offset = true ↔ HasQuoteAt source offset := by
  have hchar (c : Char) : Cuts.charAt? (Cuts.ofText source) offset = some c ↔
      ∃ before after, source.toList = before ++ c :: after ∧ Text.byteLength before = offset := by
    simp only [Cuts.charAt?_ofText, Option.bind_eq_some_iff, Prod.exists,
      Text.splitAt?_eq_some_iff, List.head?_eq_some_iff]
    constructor
    · rintro ⟨before, -, ⟨hsource, hoffset⟩, after, rfl⟩
      exact ⟨before, after, hsource, hoffset⟩
    · rintro ⟨before, after, hsource, hoffset⟩
      exact ⟨before, _, ⟨hsource, hoffset⟩, after, rfl⟩
  simp only [isQuoteAt, Bool.or_eq_true, beq_iff_eq, hchar]
  constructor
  · rintro (⟨before, after, h⟩ | ⟨before, after, h⟩)
    · exact ⟨before, _, after, .inl rfl, h⟩
    · exact ⟨before, _, after, .inr rfl, h⟩
  · rintro ⟨before, quote, after, rfl | rfl, h⟩
    · exact .inl ⟨before, after, h⟩
    · exact .inr ⟨before, after, h⟩

instance (source : String) (offset : Nat) : Decidable (HasQuoteAt source offset) :=
  decidable_of_iff _ isQuoteAt_ofText

namespace Tree

variable {source value : String} {range : ByteRange} {tree part : Tree}

/-- A string in quotes and without interpolation. -/
structure IsPlainLiteral (source : String) (tree : Tree) : Prop where
  isString : tree.kind = "string"
  plain : ∀ child ∈ tree.children, child.kind ≠ "interpolation"
  quoted : HasQuoteAt source tree.start

/-- Every string that starts with a quote also ends with one, and covers both. -/
def ClosesQuotes (source : String) (tree : Tree) : Prop :=
  ∀ part : Tree, part.IsPartOf tree → part.kind = "string" → HasQuoteAt source part.start →
    part.start + 2 ≤ part.stop ∧ HasQuoteAt source (part.stop - 1)

theorem lower_ne_str (h : tree.kind ≠ "string") : tree.lower source ≠ .str value range := by
  intro heq
  rw [lower_eq, lowerNode] at heq
  split at heq
  · unfold lowerCall at heq
    split at heq <;> cases heq
  · next hkind => exact h hkind
  all_goals cases heq

/-- A string becomes a string node if it is a plain literal, and its value is cut out by bytes. -/
theorem lower_eq_str_iff : tree.lower source = .str value range ↔
    tree.IsPlainLiteral source ∧ range = tree.range ∧
      value = rangeText (Cuts.ofText source) ⟨tree.start + 1, tree.stop - 1⟩ := by
  by_cases hstring : tree.kind = "string"
  · rw [lower_eq, lowerNode]
    simp only [hstring, lowerString, any_kind_map_lowered]
    by_cases hplain : tree.children.any (·.kind == "interpolation")
    · rw [if_pos hplain]
      simp only [reduceCtorEq, false_iff]
      rintro ⟨hliteral, -⟩
      obtain ⟨child, hchild, hkind⟩ := List.any_eq_true.mp hplain
      exact hliteral.plain child hchild (eq_of_beq hkind)
    · have hplain' : ∀ child ∈ tree.children, child.kind ≠ "interpolation" := by simpa using hplain
      rw [if_neg hplain]
      by_cases hquote : isQuoteAt (Cuts.ofText source) tree.range.start
      · have hliteral : tree.IsPlainLiteral source :=
          ⟨hstring, hplain', isQuoteAt_ofText.mp hquote⟩
        rw [if_pos hquote, Node.str.injEq, and_comm]
        simp only [hliteral, true_and, eq_comm (b := range), eq_comm (b := value), start, stop]
      · rw [if_neg hquote]
        simp only [reduceCtorEq, false_iff]
        rintro ⟨hliteral, -⟩
        exact hquote (isQuoteAt_ofText.mpr hliteral.quoted)
  · simp only [lower_ne_str hstring, false_iff]
    rintro ⟨hliteral, -⟩
    exact hstring hliteral.isString

/-- Where quotes are closed, the value of a string node is the inside of its range. -/
theorem ClosesQuotes.exists_span (h : tree.ClosesQuotes source) (hpart : part.IsPartOf tree)
    (hlower : part.lower source = .str value range) :
    ∃ span, Span.inner? source range.start range.stop = some span ∧ span.text = value := by
  obtain ⟨hliteral, rfl, rfl⟩ := lower_eq_str_iff.mp hlower
  obtain ⟨hboth, hclosing⟩ := h part hpart hliteral.isString hliteral.quoted
  obtain ⟨span, hinner, hspan⟩ := Text.exists_span_between_quotes hliteral.quoted hclosing hboth
  refine ⟨span, hinner, ?_⟩
  rw [rangeText, Cuts.text?_ofText, hspan]
  rfl

/-- The same for every string node of the lowered tree. -/
theorem ClosesQuotes.exists_span_of_mem_walk (h : tree.ClosesQuotes source)
    (hmem : .str value range ∈ (tree.lower source).walk) :
    (∃ part : Tree, part.IsPartOf tree ∧ part.IsPlainLiteral source ∧ range = part.range) ∧
      ∃ span, Span.inner? source range.start range.stop = some span ∧ span.text = value := by
  obtain ⟨part, hpart, hlower⟩ := exists_part_of_mem_walk hmem
  obtain ⟨hliteral, hrange, -⟩ := lower_eq_str_iff.mp hlower.symm
  exact ⟨⟨part, hpart, hliteral, hrange⟩, h.exists_span hpart hlower.symm⟩

end Tree

/-! ## Descriptions -/

open Wording

theorem str_mem_walk_of_describes {root node : Node} {value : String} {range : ByteRange}
    (hnode : node ∈ root.walk) (h : Describes value range node) : .str value range ∈ root.walk := by
  have hchild : .str value range ∈ node.children := by
    cases h
    simp [Node.children]
  induction root using Node.induction_on_children with
  | step root ih =>
    rcases Node.mem_walk_iff.mp hnode with rfl | ⟨child, hmem, hnode⟩
    · exact Node.mem_walk_iff.mpr (.inr ⟨_, hchild, Node.self_mem_walk _⟩)
    · exact Node.mem_walk_iff.mpr (.inr ⟨child, hmem, ih child hmem hnode⟩)

/-- Where quotes are closed, a string becomes a string node exactly if it stands in quotes and has no
interpolation, and the value of the node is the inside of its range, as it is written. So a
description is found if its value is flagged, and the text that the rule rewords is this value. -/
theorem lower_values_as_written (source : String) {tree : Tree} (h : tree.ClosesQuotes source) :
    (∀ part : Tree, part.IsPartOf tree →
      ((∃ value range, part.lower source = .str value range) ↔ part.IsPlainLiteral source)) ∧
    (∀ value range, .str value range ∈ (tree.lower source).walk →
      (∃ part : Tree, part.IsPartOf tree ∧ part.IsPlainLiteral source ∧ range = part.range) ∧
      ∃ span, Span.inner? source range.start range.stop = some span ∧ span.text = value) ∧
    ∀ node ∈ (tree.lower source).walk,
      ((detect source node).isSome ↔
        ∃ value range, Describes value range node ∧ startsFlagged value.toList = true) ∧
      ∀ (severity : Severity) (tables : WordTables) (file : SourceFile) (violation : Violation),
        file.content = source → (exampleRule severity tables).check file node = some violation →
        ∃ value range span, Describes value range node ∧ startsFlagged value.toList = true ∧
          violation.location = file.location span ∧
          violation.location.span? source = some span ∧ span.text = value ∧
          ∀ override, (exampleRule severity tables).correct file
            (violation.withSeverity override) = some ⟨violation.location, reword tables value⟩ := by
  have hspan (node : Node) (hnode : node ∈ (tree.lower source).walk) (value : String)
      (range : ByteRange) (hdescribes : Describes value range node) :=
    (h.exists_span_of_mem_walk (str_mem_walk_of_describes hnode hdescribes)).2
  refine ⟨?_, fun value range ↦ h.exists_span_of_mem_walk, fun node hnode ↦ ⟨?_, ?_⟩⟩
  · intro part _
    constructor
    · rintro ⟨value, range, hlower⟩
      exact (Tree.lower_eq_str_iff.mp hlower).1
    · intro hliteral
      exact ⟨_, _, Tree.lower_eq_str_iff.mpr ⟨hliteral, rfl, rfl⟩⟩
  · rw [Option.isSome_iff_exists]
    constructor
    · rintro ⟨span, hdetect⟩
      obtain ⟨value, range, hdescribes, hflagged, -⟩ := detect_eq_some_iff.mp hdetect
      exact ⟨value, range, hdescribes, hflagged⟩
    · rintro ⟨value, range, hdescribes, hflagged⟩
      obtain ⟨span, hinner, -⟩ := hspan node hnode value range hdescribes
      exact ⟨span, detect_eq_some_iff.mpr ⟨value, range, hdescribes, hflagged, hinner⟩⟩
  · rintro severity tables file violation rfl hcheck
    rw [check_exampleRule, Option.map_eq_some_iff] at hcheck
    obtain ⟨span, hdetect, rfl⟩ := hcheck
    obtain ⟨value, range, hdescribes, hflagged, hinner⟩ := detect_eq_some_iff.mp hdetect
    obtain ⟨span', hinner', rfl⟩ := hspan node hnode value range hdescribes
    obtain rfl := Option.some.inj (hinner.symm.trans hinner')
    have hsource := Span.source_eq_of_inner? hinner
    refine ⟨_, range, span, hdescribes, hflagged, rfl, Span.ofRange?_start_stop hsource, rfl, ?_⟩
    intro override
    apply correct_exampleRule hsource
    cases override <;> rfl

/-! ## Literals of all kinds -/

namespace Tree

mutual

/-- A tree and all its parts. -/
def parts : Tree → List Tree
  | ⟨kind, role, range, children⟩ => ⟨kind, role, range, children⟩ :: partsOfAll children

def partsOfAll : List Tree → List Tree
  | [] => []
  | tree :: trees => tree.parts ++ partsOfAll trees

end

variable {tree part : Tree}

theorem partsOfAll_eq_flatMap (trees : List Tree) : partsOfAll trees = trees.flatMap parts := by
  induction trees with
  | nil => rfl
  | cons tree trees ih => rw [partsOfAll, ih, List.flatMap_cons]

theorem mem_parts_of_isPartOf (h : part.IsPartOf tree) : part ∈ tree.parts := by
  have hparts (tree : Tree) : tree.parts = tree :: tree.children.flatMap parts := by
    cases tree
    rw [parts, partsOfAll_eq_flatMap]
  induction h with
  | self =>
    rw [hparts]
    exact List.mem_cons_self
  | child hchild _ ih =>
    rw [hparts]
    exact List.mem_cons_of_mem _ (List.mem_flatMap.mpr ⟨_, hchild, ih⟩)

end Tree

def literal? : Node → Option (String × ByteRange)
  | .str value range => some (value, range)
  | _ => none

theorem literal?_eq_some_iff {node : Node} {value : String} {range : ByteRange} :
    literal? node = some (value, range) ↔ node = .str value range := by
  cases node <;> simp [literal?]

/-- Plain literals with an escaped quote and wide characters, and an empty one; a literal with an
interpolation, and one that starts with a percent sign. -/
def literalsText : String :=
  "it 'shouldn\\'t ⌘' do\n  é ''\nend\nit \"should #\x7ba\x7d\" do\nend\nit %q(should) do\nend\n"

theorem lower_values_as_written_mixed : (parse literalsText).ClosesQuotes literalsText ∧
    ((parse literalsText).lower literalsText).walk.filterMap literal? =
      [("shouldn\\'t ⌘", ⟨3, 19⟩), ("", ⟨28, 30⟩)] ∧
    (∃ span, Span.inner? literalsText 3 19 = some span ∧ span.text = "shouldn\\'t ⌘") ∧
    ∃ span, Span.inner? literalsText 28 30 = some span ∧ span.text = "" := by
  have hparts : ∀ part ∈ (parse literalsText).parts, part.kind = "string" →
      HasQuoteAt literalsText part.start →
        part.start + 2 ≤ part.stop ∧ HasQuoteAt literalsText (part.stop - 1) := by
    decide +kernel
  have hcloses : (parse literalsText).ClosesQuotes literalsText :=
    fun part hpart ↦ hparts part (Tree.mem_parts_of_isPartOf hpart)
  have hliterals : ((parse literalsText).lower literalsText).walk.filterMap literal? =
      [("shouldn\\'t ⌘", ⟨3, 19⟩), ("", ⟨28, 30⟩)] := by
    decide +kernel
  have hinside (value : String) (range : ByteRange)
      (h : (value, range) ∈ ((parse literalsText).lower literalsText).walk.filterMap literal?) :
      ∃ span, Span.inner? literalsText range.start range.stop = some span ∧ span.text = value := by
    obtain ⟨node, hnode, hliteral⟩ := List.mem_filterMap.mp h
    rw [literal?_eq_some_iff.mp hliteral] at hnode
    exact ((lower_values_as_written literalsText hcloses).2.1 value range hnode).2
  refine ⟨hcloses, hliterals, hinside _ ⟨3, 19⟩ ?_, hinside _ ⟨28, 30⟩ ?_⟩
  · rw [hliterals]
    exact List.mem_cons_self
  · rw [hliterals]
    exact List.mem_cons_of_mem _ List.mem_cons_self

end SpecWording.Ruby
