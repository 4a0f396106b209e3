import Mathlib.Data.List.Basic
import Mathlib.Data.List.TakeWhile
import SpecWording.Json.Reader

/-!
# Written numbers are read back

A counter is written in decimal digits without a leading zero. That is a number of the format, none
of its characters ends a word, and as long as it is below the limit it is read as the counter again.
-/

namespace SpecWording.Json

theorem toList_toString (n : Nat) : (toString n).toList = Nat.toDigits 10 n := Nat.toList_repr

theorem isDigit_of_mem_toDigits {n : Nat} : ∀ c ∈ Nat.toDigits 10 n, c.isDigit = true :=
  fun _ hc ↦ Nat.isDigit_of_mem_toDigits (by decide) (by decide) hc

theorem decimalValue_toDigits (n : Nat) : decimalValue (Nat.toDigits 10 n) = n := by
  have hvalue : decimalValue = fun digits ↦ Nat.ofDigitChars 10 digits 0 := by
    funext digits
    simp only [decimalValue, Nat.ofDigitChars_eq_foldl, Nat.mul_comm]
  rw [hvalue]
  exact Nat.ofDigitChars_ten_toDigits

theorem counter?_ofNat {n : Nat} (h : n < counterLimit) : counter? (ofNat n) = some n := by
  have hdigits : (Nat.toDigits 10 n).all Char.isDigit = true :=
    List.all_eq_true.mpr isDigit_of_mem_toDigits
  rw [ofNat, toList_toString, counter?, decimalValue_toDigits, if_pos ⟨hdigits, h⟩]

/-- Only zero is written with a zero in front. -/
theorem eq_zero_of_head?_toDigits (n : Nat) (h : (Nat.toDigits 10 n).head? = some '0') : n = 0 := by
  induction n using Nat.strongRecOn with
  | ind n ih =>
    by_cases hn : n < 10
    · rw [Nat.toDigits_of_lt_base hn, List.head?_cons, Option.some.injEq] at h
      exact Nat.digitChar_eq_zero.mp h
    · rw [Nat.toDigits_of_base_le (by decide) (by omega),
        List.head?_append_of_ne_nil _ Nat.toDigits_ne_nil] at h
      have hzero := ih (n / 10) (by omega) h
      omega

namespace Token

theorem digits?_eq {c : Char} {cs : List Char} (h : ∀ d ∈ c :: cs, d.isDigit = true) :
    digits? (c :: cs) = some [] := by
  have hrest : cs.dropWhile Char.isDigit = [] :=
    List.dropWhile_eq_nil_iff.mpr fun d hd ↦ h d (List.mem_cons_of_mem c hd)
  rw [digits?, if_pos (h c List.mem_cons_self), hrest]

/-- Digits are a number if no other digit follows a zero in front. -/
theorem isNumber_of_digits {c : Char} {cs : List Char} (hdigits : ∀ d ∈ c :: cs, d.isDigit = true)
    (hzero : c = '0' → cs = []) : isNumber (c :: cs) = true := by
  have hsign : c ≠ '-' := by
    rintro rfl
    exact absurd (hdigits '-' List.mem_cons_self) (by decide)
  have hunsigned : integer? (c :: cs) = some [] := by
    by_cases hc : c = '0'
    · rw [hc, hzero hc, integer?]
    · rw [integer?, digits?_eq hdigits]
      intro rest hcons
      exact hc (List.cons_eq_cons.mp hcons).1
  simp [isNumber, hsign, hunsigned, fraction?, exponent?]

theorem isNumber_toDigits (n : Nat) : isNumber (Nat.toDigits 10 n) = true := by
  cases hdigits : Nat.toDigits 10 n with
  | nil => exact absurd hdigits Nat.toDigits_ne_nil
  | cons c cs =>
    refine isNumber_of_digits (hdigits ▸ isDigit_of_mem_toDigits) fun hc ↦ ?_
    have hn := eq_zero_of_head?_toDigits n (by rw [hdigits, hc, List.head?_cons])
    rw [hn, Nat.toDigits_zero] at hdigits
    exact (List.cons_eq_cons.mp hdigits).2.symm

theorem word?_toDigits (n : Nat) :
    word? (Nat.toDigits 10 n) = some (.number (Nat.toDigits 10 n)) := by
  have hname {name : List Char} (h : ∃ c ∈ name, c.isDigit = false) : Nat.toDigits 10 n ≠ name := by
    rintro rfl
    obtain ⟨c, hc, hletter⟩ := h
    rw [isDigit_of_mem_toDigits c hc] at hletter
    contradiction
  rw [word?, if_neg (hname ⟨'n', by decide, by decide⟩), if_neg (hname ⟨'t', by decide, by decide⟩),
    if_neg (hname ⟨'f', by decide, by decide⟩), if_pos (isNumber_toDigits n)]

/-- Whether a character ends a word in front of it. -/
def endsWord (c : Char) : Bool := isBlank c || c == '"' || (punctuation? c).isSome

theorem endsWord_of_isDigit {c : Char} (h : c.isDigit = true) : endsWord c = false := by
  have hne {d : Char} (hd : d.isDigit = false) : c ≠ d := by
    rintro rfl
    rw [h] at hd
    contradiction
  have hpunctuation : punctuation? c = none := by
    unfold punctuation?
    split
    all_goals first | rfl | exact absurd h (by decide)
  simp only [endsWord, isBlank, hpunctuation, Option.isSome_none, Bool.or_false,
    Bool.or_eq_false_iff, beq_eq_false_iff_ne]
  exact ⟨⟨⟨⟨hne (by decide), hne (by decide)⟩, hne (by decide)⟩, hne (by decide)⟩, hne (by decide)⟩

end Token

end SpecWording.Json
