import Mathlib.Tactic.SplitIfs
import SpecWording.Json.Token

/-!
# Written strings are read back

The body that is written for a text spells the text: decoding undoes the escapes one character at a
time. The body also closes only with the quote behind it, since a quote of the text is written with
a backslash in front, so whoever reads character by character finds the same end.
-/

namespace SpecWording.Json.Quoted

variable {c : Char}

theorem hexValue?_hexDigit : ∀ n < 16, hexValue? (hexDigit n) = some n := by decide

theorem unit?_hexDigit {n : Nat} (h : n < 256) :
    unit? '0' '0' (hexDigit (n / 16)) (hexDigit (n % 16)) = some n := by
  have hzero : hexValue? '0' = some 0 := by decide
  have hhigh := hexValue?_hexDigit (n / 16) (by omega)
  have hlow := hexValue?_hexDigit (n % 16) (by omega)
  simp only [unit?, hzero, hhigh, hlow, Option.bind_eq_bind, Option.bind_some, Option.pure_def,
    Option.some.injEq]
  omega

/-- How a character is written: with a one-letter escape, by its code, or as it is. -/
theorem encodeChar_cases (c : Char) :
    (∃ letter, encodeChar c = ['\\', letter] ∧ letter ≠ 'u' ∧ unescape? letter = some c) ∨
      (c.toNat < 32 ∧ encodeChar c =
        ['\\', 'u', '0', '0', hexDigit (c.toNat / 16), hexDigit (c.toNat % 16)]) ∨
      (encodeChar c = [c] ∧ c ≠ '"' ∧ c ≠ '\\' ∧ ¬ c.toNat < 32) := by
  unfold encodeChar
  split_ifs with hquote hbackslash hfeed hreturn htab hback hform hcontrol
  · exact .inl ⟨_, rfl, by decide, by rw [hquote]; rfl⟩
  · exact .inl ⟨_, rfl, by decide, by rw [hbackslash]; rfl⟩
  · exact .inl ⟨_, rfl, by decide, by rw [hfeed]; rfl⟩
  · exact .inl ⟨_, rfl, by decide, by rw [hreturn]; rfl⟩
  · exact .inl ⟨_, rfl, by decide, by rw [htab]; rfl⟩
  · exact .inl ⟨_, rfl, by decide, by rw [hback]; rfl⟩
  · exact .inl ⟨_, rfl, by decide, by rw [hform]; rfl⟩
  · exact .inr (.inl ⟨hcontrol, rfl⟩)
  · exact .inr (.inr ⟨rfl, hquote, hbackslash, hcontrol⟩)

theorem encode_cons (c : Char) (text : List Char) :
    encode (c :: text) = encodeChar c ++ encode text := List.flatMap_cons

/-! ## Decoding -/

theorem decode_plain (h : c ≠ '\\') (rest : List Char) :
    decode (c :: rest) = (decode rest).map (c :: ·) := by
  rw [decode, Option.map_eq_bind]
  · rfl
  all_goals
    intros
    contradiction

theorem decode_letter {letter : Char} (hletter : letter ≠ 'u') (h : unescape? letter = some c)
    (rest : List Char) : decode ('\\' :: letter :: rest) = (decode rest).map (c :: ·) := by
  rw [decode, h, Option.map_eq_bind]
  · rfl
  all_goals
    intros
    contradiction

/-- The escape of a code outside the surrogates, whatever escape may follow. -/
theorem decode_unit {a b d e : Char} {code : Nat} (hcode : unit? a b d e = some code)
    (hhigh : isHighSurrogate code = false) (hlow : isLowSurrogate code = false)
    (rest : List Char) : decode ('\\' :: 'u' :: a :: b :: d :: e :: rest) =
      (decode rest).map (Char.ofNat code :: ·) := by
  by_cases hescape : ∃ f g h i after, rest = '\\' :: 'u' :: f :: g :: h :: i :: after
  · obtain ⟨f, g, h, i, after, rfl⟩ := hescape
    rw [decode, hcode]
    cases decode ('\\' :: 'u' :: f :: g :: h :: i :: after) <;> simp [hhigh, hlow]
  · rw [decode, hcode]
    · cases decode rest <;> simp [hhigh, hlow]
    · intro f g h i after hrest
      exact hescape ⟨f, g, h, i, after, hrest⟩

theorem decode_encodeChar_append (c : Char) (rest : List Char) :
    decode (encodeChar c ++ rest) = (decode rest).map (c :: ·) := by
  rcases encodeChar_cases c with ⟨letter, hc, hletter, hescape⟩ | ⟨hcontrol, hc⟩ |
    ⟨hc, -, hplain, -⟩
  · rw [hc]
    exact decode_letter hletter hescape rest
  · have hcode := unit?_hexDigit (n := c.toNat) (by omega)
    have hhigh : isHighSurrogate c.toNat = false := by simp [isHighSurrogate]; omega
    have hlow : isLowSurrogate c.toNat = false := by simp [isLowSurrogate]; omega
    rw [hc]
    exact (decode_unit hcode hhigh hlow rest).trans (by rw [Char.ofNat_toNat])
  · rw [hc]
    exact decode_plain hplain rest

/-- The body that is written for a text spells the text. -/
theorem decode_encode (text : List Char) : decode (encode text) = some text := by
  induction text with
  | nil => rw [encode, List.flatMap_nil, decode]
  | cons c text ih => rw [encode_cons, decode_encodeChar_append, ih, Option.map_some]

end SpecWording.Json.Quoted

namespace SpecWording.Json.Token

open Quoted

/-! ## Reading up to the closing quote -/

theorem step_plain {c : Char} (hquote : c ≠ '"') (hbackslash : c ≠ '\\') (hcontrol : ¬ c.toNat < 32)
    (read : List Char) (tokens : List Token) :
    step ⟨.quoted read, tokens⟩ c = some ⟨.quoted (c :: read), tokens⟩ := by
  simp [step, hquote, hbackslash, hcontrol]

theorem foldlM_encodeChar (c : Char) (read : List Char) (tokens : List Token) :
    (encodeChar c).foldlM step ⟨.quoted read, tokens⟩ =
      some ⟨.quoted ((encodeChar c).reverse ++ read), tokens⟩ := by
  rcases encodeChar_cases c with ⟨letter, hc, hletter, hescape⟩ | ⟨hcontrol, hc⟩ |
    ⟨hc, hquote, hbackslash, hcontrol⟩
  · simp [hc, step, hletter, hescape]
  · have hzero : (hexValue? '0').isSome = true := by decide
    have hhigh := hexValue?_hexDigit (c.toNat / 16) (by omega)
    have hlow := hexValue?_hexDigit (c.toNat % 16) (by omega)
    simp [hc, step, hzero, hhigh, hlow]
  · simp [hc, step_plain hquote hbackslash hcontrol]

theorem foldlM_encode (text read : List Char) (tokens : List Token) :
    (encode text).foldlM step ⟨.quoted read, tokens⟩ =
      some ⟨.quoted ((encode text).reverse ++ read), tokens⟩ := by
  induction text generalizing read with
  | nil => rfl
  | cons c text ih =>
    rw [encode_cons, List.foldlM_append, foldlM_encodeChar]
    simp [ih]

/-- A written string in quotes is one token. -/
theorem foldlM_quote (text : List Char) (tokens : List Token) :
    (quote (encode text)).foldlM step ⟨.between, tokens⟩ =
      some ⟨.between, .quoted (encode text) :: tokens⟩ := by
  have hopen : step ⟨.between, tokens⟩ '"' = some ⟨.quoted [], tokens⟩ := rfl
  have hclose (read : List Char) : step ⟨.quoted read, tokens⟩ '"' =
      some ⟨.between, .quoted read.reverse :: tokens⟩ := by simp [step]
  rw [quote, List.cons_append, List.foldlM_cons, hopen]
  simp [foldlM_encode, hclose]

end SpecWording.Json.Token
