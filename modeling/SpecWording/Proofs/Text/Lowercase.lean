import Mathlib.Data.List.Basic
import SpecWording.Text.LetterCase

/-!
# Small letters of ASCII in a lower case

Lower case knows far more letters than those of ASCII, depends on the neighbours of a sigma and may
lengthen a text. None of it matters to a prefix of small letters of ASCII other than "i" and "k":
only the two letter cases of such a letter are mapped to it. The "i" also comes from a dotted capital
and the "k" from the sign for kelvin.
-/

namespace SpecWording.Text

/-- A small letter that no character outside ASCII is mapped to. -/
def IsPlainLetter (c : Char) : Prop := 'a' ≤ c ∧ c ≤ 'z' ∧ c ≠ 'i' ∧ c ≠ 'k'

instance (c : Char) : Decidable (IsPlainLetter c) := by
  unfold IsPlainLetter
  infer_instance

variable {a c : Char} {row : LowerRange}

theorem IsPlainLetter.toNat_bounds (h : IsPlainLetter a) : 0x61 ≤ a.toNat ∧ a.toNat ≤ 0x7A :=
  ⟨UInt32.le_iff_toNat_le.mp h.1, UInt32.le_iff_toNat_le.mp h.2.1⟩

theorem toNat_toLower (c : Char) :
    c.toLower.toNat = if 0x41 ≤ c.toNat ∧ c.toNat ≤ 0x5A then c.toNat + 0x20 else c.toNat := by
  have hcondition : (c.val ≥ 'A'.val ∧ c.val ≤ 'Z'.val) ↔ 0x41 ≤ c.toNat ∧ c.toNat ≤ 0x5A := by
    simp only [ge_iff_le, UInt32.le_iff_toNat_le]
    rfl
  unfold Char.toLower
  split
  · next h =>
    have hbounds := hcondition.mp h
    rw [if_pos hbounds, Char.toNat_mk, UInt32.toNat_add]
    change (c.toNat + 0x20) % 2 ^ 32 = c.toNat + 0x20
    omega
  · next h => rw [if_neg (mt hcondition.mpr h)]

/-- Only the two letter cases of a plain letter are mapped to it within ASCII. -/
theorem toLower_eq_iff (h : IsPlainLetter a) :
    c.toLower = a ↔ c.toNat = a.toNat ∨ c.toNat + 0x20 = a.toNat := by
  have hbounds := h.toNat_bounds
  rw [← Char.toNat_inj, toNat_toLower]
  split <;> omega

/-! ## The table -/

/-- The row of the capitals of ASCII. -/
def asciiRow : LowerRange := ⟨0x41, 0x5A, 1, 0x61⟩

theorem asciiRow_mem : asciiRow ∈ lowerRanges := List.mem_cons_self

theorem covers_asciiRow (code : Nat) :
    asciiRow.covers code = true ↔ 0x41 ≤ code ∧ code ≤ 0x5A := by
  simp only [LowerRange.covers, Bool.and_eq_true, decide_eq_true_eq]
  simp [asciiRow, Nat.mod_one]

/-- All other rows are for other characters, and but for the sign for kelvin they also map to other
characters. -/
theorem outside_ascii_of_mem : ∀ row ∈ lowerRanges, row = asciiRow ∨ 0x80 ≤ row.first ∧
    (0x80 ≤ row.image ∨ row.first = row.last ∧ row.image = 'k'.toNat) := by
  decide +kernel

/-- A character lies within the row that is found for it. -/
theorem bounds_of_find? {code : Nat} (h : lowerRanges.find? (·.covers code) = some row) :
    row.first ≤ code ∧ code ≤ row.last := by
  have hcovers := List.find?_some h
  simp only [LowerRange.covers, Bool.and_eq_true, decide_eq_true_eq] at hcovers
  exact hcovers.1

/-- Numbers that are no code points count as the null character. -/
theorem toNat_ofNat_eq_or (n : Nat) : (Char.ofNat n).toNat = n ∨ (Char.ofNat n).toNat = 0 := by
  by_cases h : n.isValidChar
  · rw [Char.ofNat, dif_pos h]
    exact .inl rfl
  · rw [Char.ofNat, dif_neg h]
    exact .inr rfl

/-- Both letter cases of a plain letter have it alone as their lower case. -/
theorem lowerChar_eq_singleton (ha : IsPlainLetter a) (h : c.toLower = a) : lowerChar c = [a] := by
  have hbounds := ha.toNat_bounds
  have hcode := (toLower_eq_iff ha).mp h
  have hdotted : c ≠ capitalDottedI := by
    rintro rfl
    have hvalue : capitalDottedI.toNat = 0x130 := rfl
    omega
  unfold lowerChar
  rw [if_neg hdotted]
  cases hrow : lowerRanges.find? (·.covers c.toNat) with
  | none =>
    have hcovers := List.find?_eq_none.mp hrow asciiRow asciiRow_mem
    rw [covers_asciiRow] at hcovers
    have heq : c = a := Char.toNat_inj.mp (by omega)
    rw [heq]
  | some row =>
    have hrange := bounds_of_find? hrow
    rcases outside_ascii_of_mem row (List.mem_of_find?_eq_some hrow) with rfl | ⟨hfirst, -⟩
    · have himage : asciiRow.image + (c.toNat - asciiRow.first) = a.toNat := by
        simp only [asciiRow] at hrange ⊢
        omega
      simp only [himage, Char.ofNat_toNat]
    · omega

/-- A character whose lower case starts with a plain letter is one of its two letter cases. -/
theorem toLower_eq_of_head?_lowerChar (ha : IsPlainLetter a)
    (h : (lowerChar c).head? = some a) : c.toLower = a := by
  have hbounds := ha.toNat_bounds
  rw [toLower_eq_iff ha]
  unfold lowerChar at h
  split at h
  · exact absurd (Option.some.inj h).symm ha.2.2.1
  · split at h
    · next row hrow =>
      have hrange := bounds_of_find? hrow
      have hletter : Char.ofNat (row.image + (c.toNat - row.first)) = a := Option.some.inj h
      have hcode := toNat_ofNat_eq_or (row.image + (c.toNat - row.first))
      rw [hletter] at hcode
      rcases outside_ascii_of_mem row (List.mem_of_find?_eq_some hrow) with
        rfl | ⟨-, himage | ⟨hsingle, himage⟩⟩
      · simp only [asciiRow] at hrange hcode
        omega
      · omega
      · have hkelvin : a.toNat = 'k'.toNat := by omega
        exact absurd (Char.toNat_inj.mp hkelvin) ha.2.2.2
    · exact .inl (congrArg Char.toNat (Option.some.inj h))

theorem lowerChar_ne_nil (c : Char) : lowerChar c ≠ [] := by
  unfold lowerChar
  split
  · simp
  · split <;> simp

/-! ## Prefixes -/

/-- What a character contributes to the lower case of a text. -/
def lowerAt (before : List Char) (c : Char) (after : List Char) : List Char :=
  if c = capitalSigma then
    if nextIsCased before && !nextIsCased after then ['ς'] else ['σ']
  else lowerChar c

theorem lowerAfter_cons (before : List Char) (c : Char) (after : List Char) :
    lowerAfter before (c :: after) = lowerAt before c after ++ lowerAfter (c :: before) after :=
  rfl

theorem lowerAt_eq_singleton (ha : IsPlainLetter a) (h : c.toLower = a)
    (before after : List Char) : lowerAt before c after = [a] := by
  have hsigma : c ≠ capitalSigma := by
    rintro rfl
    exact absurd (h ▸ ha) (by decide)
  rw [lowerAt, if_neg hsigma]
  exact lowerChar_eq_singleton ha h

theorem exists_lowerAt_eq_cons (ha : IsPlainLetter a) (h : c.toLower ≠ a)
    (before after : List Char) :
    ∃ other rest, lowerAt before c after = other :: rest ∧ a ≠ other := by
  unfold lowerAt
  split
  · split
    · exact ⟨_, _, rfl, by rintro rfl; exact absurd ha (by decide)⟩
    · exact ⟨_, _, rfl, by rintro rfl; exact absurd ha (by decide)⟩
  · obtain ⟨other, rest, heq⟩ := List.exists_cons_of_ne_nil (lowerChar_ne_nil c)
    refine ⟨other, rest, heq, ?_⟩
    rintro rfl
    exact h (toLower_eq_of_head?_lowerChar ha (by rw [heq, List.head?_cons]))

/-- A word of plain letters starts the lower case of a text where the text starts with it up to
ASCII case. -/
theorem prefix_lowerAfter_iff {letters : List Char} (h : ∀ a ∈ letters, IsPlainLetter a)
    (before text : List Char) :
    letters <+: lowerAfter before text ↔ letters <+: text.map Char.toLower := by
  induction letters generalizing before text with
  | nil => simp
  | cons a letters ih =>
    obtain ⟨ha, hletters⟩ := List.forall_mem_cons.mp h
    cases text with
    | nil => simp [lowerAfter]
    | cons c text =>
      rw [lowerAfter_cons, List.map_cons]
      by_cases hc : c.toLower = a
      · rw [lowerAt_eq_singleton ha hc, hc, List.singleton_append, List.prefix_cons_inj,
          List.prefix_cons_inj, ih hletters]
      · obtain ⟨other, rest, heq, hne⟩ := exists_lowerAt_eq_cons ha hc before text
        rw [heq, List.cons_append, List.cons_prefix_cons, List.cons_prefix_cons]
        simp [hne, Ne.symm hc]

theorem prefix_lowercase_iff {letters : List Char} (h : ∀ a ∈ letters, IsPlainLetter a)
    (text : List Char) : letters <+: lowercase text ↔ letters <+: text.map Char.toLower :=
  prefix_lowerAfter_iff h [] text

end SpecWording.Text
