import SpecWording.Proofs.Text.Span

/-!
# Computing with byte offsets

A span is a stretch of characters elsewhere, so it cannot be wrong. What runs knows two byte offsets
and cuts, adds and subtracts with them, and there all of it can go wrong: a cut past the end or
inside a character, a difference below zero and a sum that no machine word holds are faults here.
Every span that is built is written down. `Gives` says that a computation ends without a fault, with
which value, and that all spans it built fit the text.
-/

namespace SpecWording.Offsets

open Text (Span byteLength byteLength_append byteLength_toList utf8ByteSize_ofList)

inductive Fault where
  | outside
  | insideCharacter
  | belowZero
  | overflow
  deriving DecidableEq, Repr

/-- A span as it runs. -/
structure Extent where
  start : Nat
  stop : Nat
  deriving DecidableEq, Repr

/-- Whether the first byte of a character is at an offset, or the end of the text. -/
def isBoundary (source : String) (offset : Nat) : Bool := String.Pos.Raw.isValid source ⟨offset⟩

namespace Extent

structure Fits (source : String) (extent : Extent) : Prop where
  ordered : extent.start ≤ extent.stop
  within : extent.stop ≤ source.utf8ByteSize
  start : isBoundary source extent.start = true
  stop : isBoundary source extent.stop = true

instance (source : String) (extent : Extent) : Decidable (extent.Fits source) :=
  decidable_of_iff (extent.start ≤ extent.stop ∧ extent.stop ≤ source.utf8ByteSize ∧
      isBoundary source extent.start = true ∧ isBoundary source extent.stop = true)
    ⟨fun h ↦ ⟨h.1, h.2.1, h.2.2.1, h.2.2.2⟩, fun h ↦ ⟨h.ordered, h.within, h.start, h.stop⟩⟩

/-- The text that an extent cuts out. -/
def cut {source : String} {extent : Extent} (h : extent.Fits source) : String :=
  source.extract (source.pos ⟨extent.start⟩ (String.Pos.Raw.isValid_eq_true_iff.mp h.start))
    (source.pos ⟨extent.stop⟩ (String.Pos.Raw.isValid_eq_true_iff.mp h.stop))

end Extent

/-- The extents that a computation has built, the latest first, or the fault it ended with. -/
abbrev Checked := StateT (List Extent) (Except Fault)

/-- What a machine word stays below: 2 to the 64. -/
def wordLimit : Nat := 0x10000000000000000

def add (a b : Nat) : Checked Nat := if a + b < wordLimit then pure (a + b) else throw .overflow

def subtract (a b : Nat) : Checked Nat := if b ≤ a then pure (a - b) else throw .belowZero

/-- The text between two offsets, if they fit. -/
def get? (source : String) (start stop : Nat) : Option String :=
  if h : Extent.Fits source ⟨start, stop⟩ then some (Extent.cut h) else none

/-- The text between two offsets that have to fit. -/
def slice (source : String) (start stop : Nat) : Checked String :=
  match get? source start stop with
  | some text => pure text
  | none =>
    if start ≤ stop ∧ stop ≤ source.utf8ByteSize then throw .insideCharacter else throw .outside

/-- Builds the span between two offsets, if they fit. -/
def build? (source : String) (start stop : Nat) : Checked (Option Extent) :=
  if Extent.Fits source ⟨start, stop⟩ then do
    modify (⟨start, stop⟩ :: ·)
    return some ⟨start, stop⟩
  else return none

/-! ## Computations that give a value -/

/-- Whether a computation ends without a fault and with the value, and builds only spans that fit. -/
def Gives {α : Type} (source : String) (run : Checked α) (value : α) : Prop :=
  ∃ built : List Extent, (∀ extent ∈ built, extent.Fits source) ∧
    ∀ before, run.run before = .ok (value, built ++ before)

section Gives

variable {α β : Type} {source : String}

theorem gives_pure (value : α) : Gives source (pure value) value :=
  ⟨[], by simp, fun _ ↦ rfl⟩

theorem Gives.bind {run : Checked α} {value : α} {next : α → Checked β} {result : β}
    (hrun : Gives source run value) (hnext : Gives source (next value) result) :
    Gives source (run >>= next) result := by
  obtain ⟨built, hbuilt, hvalue⟩ := hrun
  obtain ⟨others, hothers, hresult⟩ := hnext
  refine ⟨others ++ built, ?_, fun before ↦ ?_⟩
  · intro extent hextent
    exact (List.mem_append.mp hextent).elim (hothers extent) (hbuilt extent)
  · rw [StateT.run_bind, hvalue, List.append_assoc, ← hresult]
    rfl

theorem gives_mapM {step : α → Checked β} {value : α → β} {items : List α}
    (h : ∀ item ∈ items, Gives source (step item) (value item)) :
    Gives source (items.mapM step) (items.map value) := by
  induction items with
  | nil => exact gives_pure []
  | cons item items ih =>
    rw [List.mapM_cons, List.map_cons]
    refine (h item List.mem_cons_self).bind ?_
    exact (ih fun other hother ↦ h other (List.mem_cons_of_mem item hother)).bind (gives_pure _)

theorem gives_add {a b : Nat} (h : a + b < wordLimit) : Gives source (add a b) (a + b) := by
  rw [add, if_pos h]
  exact gives_pure _

theorem gives_subtract {a b : Nat} (h : b ≤ a) : Gives source (subtract a b) (a - b) := by
  rw [subtract, if_pos h]
  exact gives_pure _

end Gives

/-! ## Offsets and spans -/

variable {source : String} {start stop : Nat} {span : Span}

/-- The boundaries of a text are the ends of its first parts. -/
theorem isBoundary_iff {offset : Nat} : isBoundary source offset = true ↔
    ∃ before after, source.toList = before ++ after ∧ byteLength before = offset := by
  rw [isBoundary, String.Pos.Raw.isValid_eq_true_iff, String.Pos.Raw.isValid_iff_exists_append]
  constructor
  · rintro ⟨before, after, rfl, hoffset⟩
    refine ⟨before.toList, after.toList, String.toList_append, ?_⟩
    rw [byteLength_toList]
    exact (congrArg String.Pos.Raw.byteIdx hoffset).symm
  · rintro ⟨before, after, hsource, rfl⟩
    refine ⟨String.ofList before, String.ofList after, ?_, ?_⟩
    · rw [← String.ofList_append, ← hsource, String.ofList_toList]
    · rw [← utf8ByteSize_ofList]
      rfl

/-- A span as it runs. -/
def extentOf (span : Span) : Extent := ⟨span.start, span.stop⟩

theorem fits_extentOf (h : span.source = source.toList) : (extentOf span).Fits source where
  ordered := span.start_le_stop
  within := by
    rw [← byteLength_toList, ← h]
    exact span.stop_le_byteLength_source
  start := isBoundary_iff.mpr
    ⟨span.before, span.content ++ span.after, by rw [← h, Span.source, List.append_assoc], rfl⟩
  stop := isBoundary_iff.mpr
    ⟨span.before ++ span.content, span.after, h.symm, byteLength_append span.before span.content⟩

/-- The offsets that fit a text are those of its spans. -/
theorem exists_span_of_fits (h : Extent.Fits source ⟨start, stop⟩) :
    ∃ span, Span.ofRange? source start stop = some span := by
  obtain ⟨before, rest, hsource, hstart⟩ := isBoundary_iff.mp h.start
  obtain ⟨front, after, hsource', hstop⟩ := isBoundary_iff.mp h.stop
  have hbefore : before <+: source.toList := ⟨rest, hsource.symm⟩
  have hfront : front <+: source.toList := ⟨after, hsource'.symm⟩
  have hle : before.length ≤ front.length :=
    (Text.byteLength_le_iff hbefore hfront).mp (by rw [hstart, hstop]; exact h.ordered)
  obtain ⟨content, rfl⟩ := List.prefix_of_prefix_length_le hbefore hfront hle
  refine ⟨⟨before, content, after⟩, Span.ofRange?_eq_some_iff.mpr ⟨hsource'.symm, hstart, ?_⟩⟩
  exact (byteLength_append before content).symm.trans hstop

theorem fits_iff : Extent.Fits source ⟨start, stop⟩ ↔
    ∃ span, Span.ofRange? source start stop = some span := by
  refine ⟨exists_span_of_fits, ?_⟩
  rintro ⟨span, hspan⟩
  obtain ⟨hsource, rfl, rfl⟩ := Span.ofRange?_eq_some_iff.mp hspan
  exact fits_extentOf hsource

theorem ofRange?_eq_none (h : ¬ Extent.Fits source ⟨start, stop⟩) :
    Span.ofRange? source start stop = none :=
  Option.eq_none_iff_forall_ne_some.mpr fun span hspan ↦ h (fits_iff.mpr ⟨span, hspan⟩)

theorem cut_extentOf (hsource : span.source = source.toList) (h : (extentOf span).Fits source) :
    Extent.cut h = span.text := by
  obtain ⟨before, content, after⟩ := span
  have hbytes : source.toByteArray =
      before.utf8Encode ++ (content.utf8Encode ++ after.utf8Encode) := by
    rw [← source.ofList_toList, ← hsource, String.toByteArray_ofList]
    simp [Span.source, List.utf8Encode_append]
  have hsize (cs : List Char) : cs.utf8Encode.size = byteLength cs := by
    rw [← utf8ByteSize_ofList, ← String.size_toByteArray, String.toByteArray_ofList]
  have hcut := @ByteArray.extract_append_size_add before.utf8Encode
    (content.utf8Encode ++ after.utf8Encode) 0 content.utf8Encode.size
  apply String.toByteArray_inj.mp
  calc
    (Extent.cut h).toByteArray =
        source.toByteArray.extract (byteLength before) (byteLength before + byteLength content) := by
      simp [Extent.cut, extentOf, Span.start, Span.stop, Span.length]
    _ = (content.utf8Encode ++ after.utf8Encode).extract 0 content.utf8Encode.size := by
      rw [hbytes, ← hcut, hsize, hsize, Nat.add_zero]
    _ = content.utf8Encode := ByteArray.extract_append_eq_left rfl
    _ = (Span.text ⟨before, content, after⟩).toByteArray := String.toByteArray_ofList.symm

theorem get?_eq (source : String) (start stop : Nat) :
    get? source start stop = (Span.ofRange? source start stop).map Span.text := by
  rw [get?]
  split
  · next h =>
    obtain ⟨span, hspan⟩ := exists_span_of_fits h
    obtain ⟨hsource, rfl, rfl⟩ := Span.ofRange?_eq_some_iff.mp hspan
    rw [hspan, Option.map_some, ← cut_extentOf hsource h]
    rfl
  · next h =>
    rw [ofRange?_eq_none h, Option.map_none]

/-- Cutting out a stretch of a text succeeds. The text need not be the one whose spans count. -/
theorem gives_slice {text : String} {before content after : List Char}
    (htext : text.toList = before ++ content ++ after) (hstart : byteLength before = start)
    (hstop : start + byteLength content = stop) :
    Gives source (slice text start stop) (String.ofList content) := by
  have hspan : Span.ofRange? text start stop = some ⟨before, content, after⟩ := by
    refine Span.ofRange?_eq_some_iff.mpr ⟨htext.symm, hstart, ?_⟩
    rw [← hstop, ← hstart]
    rfl
  rw [slice, get?_eq, hspan]
  exact gives_pure _

example : (slice "é" 0 1).run [] = .error .insideCharacter := rfl

theorem gives_build? (source : String) (start stop : Nat) :
    Gives source (build? source start stop) ((Span.ofRange? source start stop).map extentOf) := by
  rw [build?]
  split
  · next h =>
    obtain ⟨span, hspan⟩ := exists_span_of_fits h
    obtain ⟨-, rfl, rfl⟩ := Span.ofRange?_eq_some_iff.mp hspan
    rw [hspan, Option.map_some]
    refine ⟨[extentOf span], fun extent hextent ↦ ?_, fun before ↦ rfl⟩
    rw [List.mem_singleton.mp hextent]
    exact h
  · next h =>
    rw [ofRange?_eq_none h, Option.map_none]
    exact gives_pure none

end SpecWording.Offsets
