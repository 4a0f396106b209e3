import SpecWording.Proofs.Json.Quoted
import SpecWording.Proofs.Json.Words

/-!
# Written values are read back

A text *spells* tokens if reading it leaves exactly these behind, whatever was read before it and
whatever delimiter follows. A number has no end of its own, so it spells its word only up to a
delimiter; everything that is written behind a value starts with one. Both ways of writing a value
spell the same tokens, and the tokens of a value rebuild it on top of any open containers.
-/

namespace SpecWording.Json

namespace Token

/-! ## Texts that spell tokens -/

/-- Reads a text up to its end, after what has been read before it. -/
def read? (progress : Progress) (text : List Char) : Option (List Token) := do
  let progress ← text.foldlM step progress
  match progress.mode with
  | .between => return progress.tokens.reverse
  | .word read => return (.word (← word? read.reverse) :: progress.tokens).reverse
  | _ => none

/-- Whether a text is empty or starts with a character that ends a word. -/
def Delimited (text : List Char) : Prop := ∀ c ∈ text.head?, endsWord c = true

def Spells (text : List Char) (tokens : List Token) : Prop :=
  ∀ before rest, Delimited rest →
    read? ⟨.between, before⟩ (text ++ rest) = read? ⟨.between, tokens.reverse ++ before⟩ rest

theorem read?_append (progress : Progress) (text rest : List Char) :
    read? progress (text ++ rest) =
      (text.foldlM step progress).bind fun progress ↦ read? progress rest := by
  simp [read?, List.foldlM_append, Option.bind_assoc]

theorem delimited_nil : Delimited [] := by simp [Delimited]

theorem delimited_cons {c : Char} (h : endsWord c = true) (text : List Char) :
    Delimited (c :: text) := by
  simpa [Delimited] using h

theorem Delimited.append {text rest : List Char} (htext : Delimited text) (hrest : Delimited rest) :
    Delimited (text ++ rest) := by
  cases text with
  | nil => exact hrest
  | cons c text => exact htext

theorem read?_word {read : List Char} {value : Json} (hvalue : word? read.reverse = some value)
    {rest : List Char} (hrest : Delimited rest) (tokens : List Token) :
    read? ⟨.word read, tokens⟩ rest = read? ⟨.between, .word value :: tokens⟩ rest := by
  cases rest with
  | nil => simp [read?, hvalue]
  | cons c rest =>
    have hends : (isBlank c || c == '"' || (punctuation? c).isSome) = true := hrest c rfl
    have hstep : step ⟨.word read, tokens⟩ c = step ⟨.between, .word value :: tokens⟩ c := by
      simp only [step, hends, if_true, hvalue, Option.bind_eq_bind, Option.bind_some,
        Option.pure_def]
    simp only [read?, List.foldlM_cons, hstep]

theorem start_of_endsWord_eq_false {c : Char} (h : endsWord c = false) (tokens : List Token) :
    start tokens c = ⟨.word [c], tokens⟩ := by
  simp only [endsWord, Bool.or_eq_false_iff, Option.isSome_eq_false_iff,
    Option.isNone_iff_eq_none, beq_eq_false_iff_ne] at h
  obtain ⟨⟨hblank, hquote⟩, hpunctuation⟩ := h
  simp [start, hblank, hquote, hpunctuation]

theorem foldlM_word {cs : List Char} (h : ∀ c ∈ cs, endsWord c = false) (read : List Char)
    (tokens : List Token) :
    cs.foldlM step ⟨.word read, tokens⟩ = some ⟨.word (cs.reverse ++ read), tokens⟩ := by
  induction cs generalizing read with
  | nil => rfl
  | cons c cs ih =>
    have hc : (isBlank c || c == '"' || (punctuation? c).isSome) = false := h c List.mem_cons_self
    have hstep : step ⟨.word read, tokens⟩ c = some ⟨.word (c :: read), tokens⟩ := by
      simp [step, hc]
    rw [List.foldlM_cons, hstep]
    simp [ih fun d hd ↦ h d (List.mem_cons_of_mem c hd)]

theorem Spells.word {word : List Char} {value : Json} (hne : word ≠ [])
    (hplain : ∀ c ∈ word, endsWord c = false) (hvalue : word? word = some value) :
    Spells word [.word value] := by
  intro before rest hrest
  obtain ⟨c, cs, rfl⟩ := List.exists_cons_of_ne_nil hne
  have hstart : step ⟨.between, before⟩ c = some ⟨.word [c], before⟩ :=
    congrArg some (start_of_endsWord_eq_false (hplain c List.mem_cons_self) before)
  have hread : (c :: cs).foldlM step ⟨.between, before⟩ =
      some ⟨.word (c :: cs).reverse, before⟩ := by
    rw [List.foldlM_cons, hstart]
    simp [foldlM_word fun d hd ↦ hplain d (List.mem_cons_of_mem c hd)]
  rw [read?_append, hread, Option.bind_some, List.reverse_singleton, List.singleton_append]
  exact read?_word (by rw [List.reverse_reverse, hvalue]) hrest before

theorem Spells.nil : Spells [] [] := by
  intro before rest _
  rfl

theorem Spells.append {text rest : List Char} {tokens others : List Token}
    (htext : Spells text tokens) (hrest : Spells rest others) (hdelimited : Delimited rest) :
    Spells (text ++ rest) (tokens ++ others) := by
  intro before after hafter
  rw [List.append_assoc, htext before _ (hdelimited.append hafter), hrest _ after hafter]
  simp

theorem Spells.blank {c : Char} (hc : isBlank c = true) {text : List Char} {tokens : List Token}
    (h : Spells text tokens) : Spells (c :: text) tokens := by
  intro before rest hrest
  have hstep : step ⟨.between, before⟩ c = some ⟨.between, before⟩ := by simp [step, start, hc]
  rw [← h before rest hrest]
  simp only [read?, List.cons_append, List.foldlM_cons, hstep, Option.bind_eq_bind,
    Option.bind_some]

theorem Spells.punctuation {c : Char} {token : Token} (hc : punctuation? c = some token)
    {text : List Char} {tokens : List Token} (h : Spells text tokens) :
    Spells (c :: text) (token :: tokens) := by
  intro before rest hrest
  have hplain : isBlank c = false ∧ c ≠ '"' := by
    unfold punctuation? at hc
    split at hc
    all_goals first | decide | contradiction
  have hstep : step ⟨.between, before⟩ c = some ⟨.between, token :: before⟩ := by
    simp [step, start, hplain, hc]
  rw [List.reverse_cons, List.append_assoc, List.singleton_append, ← h _ rest hrest]
  simp only [read?, List.cons_append, List.foldlM_cons, hstep, Option.bind_eq_bind,
    Option.bind_some]

theorem Spells.quote (text : List Char) :
    Spells (Json.quote (Quoted.encode text)) [.quoted (Quoted.encode text)] := by
  intro before rest _
  rw [read?_append, foldlM_quote, Option.bind_some, List.reverse_singleton, List.singleton_append]

end Token

/-! ## The tokens of a value -/

open Token (Delimited Spells delimited_nil delimited_cons)

/-- Puts commas between the tokens of several items. -/
def separated : List (List Token) → List Token
  | [] => []
  | item :: items => item ++ items.flatMap (.comma :: ·)

mutual

def tokens : Json → List Token
  | null => [.word null]
  | bool value => [.word (bool value)]
  | number literal => [.word (number literal)]
  | string body => [.quoted body]
  | array items => .openArray :: separated (itemTokens items) ++ [.closeArray]
  | object members => .openObject :: separated (memberTokens members) ++ [.closeObject]

def itemTokens : List Json → List (List Token)
  | [] => []
  | item :: items => tokens item :: itemTokens items

def memberTokens : List (List Char × Json) → List (List Token)
  | [] => []
  | (name, value) :: members => (.quoted name :: .colon :: tokens value) :: memberTokens members

end

theorem itemTokens_eq_map (items : List Json) : itemTokens items = items.map tokens := by
  induction items with
  | nil => rfl
  | cons item items ih => rw [itemTokens, ih, List.map_cons]

theorem memberTokens_eq_map (members : List (List Char × Json)) : memberTokens members =
    members.map fun member ↦ .quoted member.1 :: .colon :: tokens member.2 := by
  induction members with
  | nil => rfl
  | cons member members ih => rw [memberTokens, ih, List.map_cons]

theorem compactItems_eq_map (items : List Json) : compactItems items = items.map compactChars := by
  induction items with
  | nil => rfl
  | cons item items ih => rw [compactItems, ih, List.map_cons]

theorem compactMembers_eq_map (members : List (List Char × Json)) : compactMembers members =
    members.map fun member ↦ quote member.1 ++ ':' :: compactChars member.2 := by
  induction members with
  | nil => rfl
  | cons member members ih => rw [compactMembers, ih, List.map_cons]

theorem prettyItems_eq_map (level : Nat) (items : List Json) :
    prettyItems level items = items.map (prettyChars level) := by
  induction items with
  | nil => rfl
  | cons item items ih => rw [prettyItems, ih, List.map_cons]

theorem prettyMembers_eq_map (level : Nat) (members : List (List Char × Json)) :
    prettyMembers level members =
      members.map fun member ↦ quote member.1 ++ ':' :: ' ' :: prettyChars level member.2 := by
  induction members with
  | nil => rfl
  | cons member members ih => rw [prettyMembers, ih, List.map_cons]

/-- The values that are built from names, texts and counters. -/
inductive Written : Json → Prop where
  | null : Written .null
  | bool (value : Bool) : Written (.bool value)
  | ofNat (n : Nat) : Written (.ofNat n)
  | ofString (text : String) : Written (.ofString text)
  | array (items : List Json) (h : ∀ item ∈ items, Written item) : Written (.array items)
  | ofMembers (members : List (String × Json)) (h : ∀ member ∈ members, Written member.2) :
    Written (.ofMembers members)

/-! ## Both ways of writing spell the tokens -/

theorem commas_cons (item : List Char) (items : List (List Char)) :
    commas (item :: items) = item ++ items.flatMap (',' :: ·) := by
  induction items generalizing item with
  | nil => simp [commas]
  | cons other items ih => simp [commas, ih]

section Items

variable {α : Type} {items : List α} {write : α → List Char} {read : α → List Token}

theorem spells_flatMap (h : ∀ item ∈ items, Spells (write item) (read item)) :
    Spells ((items.map write).flatMap (',' :: ·)) ((items.map read).flatMap (.comma :: ·)) ∧
      Delimited ((items.map write).flatMap (',' :: ·)) := by
  induction items with
  | nil => exact ⟨.nil, delimited_nil⟩
  | cons item items ih =>
    obtain ⟨hspells, hdelimited⟩ := ih fun other hother ↦ h other (List.mem_cons_of_mem item hother)
    have hitem := (h item List.mem_cons_self).append hspells hdelimited
    exact ⟨hitem.punctuation rfl, delimited_cons rfl _⟩

theorem spells_commas (h : ∀ item ∈ items, Spells (write item) (read item)) :
    Spells (commas (items.map write)) (separated (items.map read)) := by
  cases items with
  | nil => exact .nil
  | cons item items =>
    obtain ⟨hspells, hdelimited⟩ :=
      spells_flatMap fun other hother ↦ h other (List.mem_cons_of_mem item hother)
    rw [List.map_cons, List.map_cons, commas_cons, separated]
    exact (h item List.mem_cons_self).append hspells hdelimited

theorem spells_bracketed (h : ∀ item ∈ items, Spells (write item) (read item))
    {opening closing : Char} {first last : Token}
    (hopening : Token.punctuation? opening = some first)
    (hclosing : Token.punctuation? closing = some last) :
    Spells (opening :: commas (items.map write) ++ [closing])
      (first :: separated (items.map read) ++ [last]) := by
  have hends : Token.endsWord closing = true := by simp [Token.endsWord, hclosing]
  have hlast : Spells [closing] [last] := Spells.nil.punctuation hclosing
  exact ((spells_commas h).append hlast (delimited_cons hends [])).punctuation hopening

theorem spells_newline (level : Nat) {text : List Char} {tokens : List Token}
    (h : Spells text tokens) : Spells (newline level ++ text) tokens := by
  have hblanks (count : Nat) : Spells (List.replicate count ' ' ++ text) tokens := by
    induction count with
    | zero => exact h
    | succ count ih => exact ih.blank rfl
  exact (hblanks (2 * level)).blank rfl

theorem spells_lines (h : ∀ item ∈ items, Spells (write item) (read item)) (level : Nat)
    {opening closing : Char} {first last : Token}
    (hopening : Token.punctuation? opening = some first)
    (hclosing : Token.punctuation? closing = some last) :
    Spells (lines level opening closing (items.map write))
      (first :: separated (items.map read) ++ [last]) := by
  have hlast : Spells [closing] [last] := Spells.nil.punctuation hclosing
  cases items with
  | nil => exact hlast.punctuation hopening
  | cons item items =>
    have hlines : ∀ other ∈ item :: items,
        Spells (newline (level + 1) ++ write other) (read other) :=
      fun other hother ↦ spells_newline (level + 1) (h other hother)
    have hitems := (spells_commas hlines).append (spells_newline level hlast) (delimited_cons rfl _)
    have hwhole := hitems.punctuation hopening
    simpa [lines, Function.comp_def] using hwhole

end Items

theorem spells_letters {word : List Char} {value : Json} (hne : word ≠ [])
    (hplain : word.all (!Token.endsWord ·) = true) (hvalue : Token.word? word = some value) :
    Spells word [.word value] :=
  .word hne (by simpa using hplain) hvalue

theorem spells_null : Spells ['n', 'u', 'l', 'l'] [.word .null] :=
  spells_letters (by decide) (by decide) rfl

theorem spells_bool (value : Bool) : Spells (bool value).compactChars [.word (.bool value)] := by
  cases value with
  | false => exact spells_letters (by decide) (by decide) rfl
  | true => exact spells_letters (by decide) (by decide) rfl

theorem spells_toString (n : Nat) : Spells (toString n).toList [.word (.ofNat n)] := by
  rw [ofNat, toList_toString]
  exact .word Nat.toDigits_ne_nil
    (fun c hc ↦ Token.endsWord_of_isDigit (isDigit_of_mem_toDigits c hc)) (Token.word?_toDigits n)

theorem spells_member (name : String) {text : List Char} {tokens : List Token}
    (h : Spells text tokens) : Spells (quote (Quoted.encode name.toList) ++ ':' :: text)
      (.quoted (Quoted.encode name.toList) :: .colon :: tokens) :=
  (Spells.quote name.toList).append (h.punctuation rfl) (delimited_cons rfl _)

theorem Written.spells_compactChars {json : Json} (h : json.Written) :
    Spells json.compactChars json.tokens := by
  induction h with
  | null => exact spells_null
  | bool value => exact spells_bool value
  | ofNat n => exact spells_toString n
  | ofString text => exact .quote text.toList
  | array items _ ih =>
    rw [compactChars, compactItems_eq_map, tokens, itemTokens_eq_map]
    exact spells_bracketed ih rfl rfl
  | ofMembers members _ ih =>
    rw [Json.ofMembers, compactChars, compactMembers_eq_map, tokens, memberTokens_eq_map,
      List.map_map, List.map_map]
    exact spells_bracketed (fun member hmember ↦ spells_member member.1 (ih member hmember)) rfl rfl

theorem Written.spells_prettyChars {json : Json} (h : json.Written) (level : Nat) :
    Spells (json.prettyChars level) json.tokens := by
  induction h generalizing level with
  | null => exact spells_null
  | bool value =>
    cases value with
    | false => exact spells_bool false
    | true => exact spells_bool true
  | ofNat n => exact spells_toString n
  | ofString text => exact .quote text.toList
  | array items _ ih =>
    rw [prettyChars, prettyItems_eq_map, tokens, itemTokens_eq_map]
    exact spells_lines (fun item hitem ↦ ih item hitem (level + 1)) level rfl rfl
  | ofMembers members _ ih =>
    rw [Json.ofMembers, prettyChars, prettyMembers_eq_map, tokens, memberTokens_eq_map,
      List.map_map, List.map_map]
    exact spells_lines (fun member hmember ↦
      spells_member member.1 ((ih member hmember (level + 1)).blank rfl)) level rfl rfl

/-! ## The tokens rebuild the value -/

/-- Whether a value may come next. -/
def Expect.TakesValue (expect : Expect) : Prop :=
  expect = .value ∨ expect = .item ∨ expect = .itemOrClose

/-- Whether the tokens of a value put it into the containers that are open, whatever they are. -/
def Rebuilt (json : Json) : Prop :=
  ∀ (stack : List Frame) (expect : Expect) (result : Json), expect.TakesValue →
    json.tokens.foldlM Reader.step ⟨stack, expect, result⟩ = Reader.put stack json

namespace Reader

variable {stack : List Frame} {expect : Expect} {result : Json}

theorem step_of_takesValue (h : expect.TakesValue) {token : Token} (hopen : token ≠ .closeArray) :
    step ⟨stack, expect, result⟩ token = value stack token := by
  rcases h with rfl | rfl | rfl
  · rfl
  · rfl
  · cases token with
    | closeArray => exact absurd rfl hopen
    | _ => rfl

/-- The items behind the first one of an array. -/
theorem foldlM_otherItems (stack : List Frame) {items : List Json} (h : ∀ item ∈ items, item.Rebuilt)
    (done : List Json) :
    ((items.map tokens).flatMap (.comma :: ·)).foldlM step
        ⟨.array done :: stack, .commaOrClose, .null⟩ =
      some ⟨.array (items.reverse ++ done) :: stack, .commaOrClose, .null⟩ := by
  induction items generalizing done with
  | nil => rfl
  | cons item items ih =>
    have hcomma : step ⟨.array done :: stack, .commaOrClose, .null⟩ .comma =
        some ⟨.array done :: stack, .item, .null⟩ := rfl
    have hitem := h item List.mem_cons_self (.array done :: stack) .item .null (.inr (.inl rfl))
    have hothers :=
      ih (fun other hother ↦ h other (List.mem_cons_of_mem item hother)) (item :: done)
    simp only [List.map_cons, List.flatMap_cons, List.cons_append, List.foldlM_cons, hcomma,
      List.foldlM_append, hitem, put, Option.bind_eq_bind, Option.bind_some, hothers]
    simp

theorem rebuilt_array {items : List Json} (h : ∀ item ∈ items, item.Rebuilt) :
    Rebuilt (.array items) := by
  intro stack expect result hexpect
  have hopening : step ⟨stack, expect, result⟩ .openArray =
      some ⟨.array [] :: stack, .itemOrClose, .null⟩ :=
    step_of_takesValue hexpect (by simp)
  rw [tokens, itemTokens_eq_map, List.cons_append, List.foldlM_cons, hopening]
  cases items with
  | nil => simp [separated, step, close]
  | cons item items =>
    have hitem := h item List.mem_cons_self (.array [] :: stack) .itemOrClose .null
      (.inr (.inr rfl))
    have hothers := foldlM_otherItems stack
      (fun other hother ↦ h other (List.mem_cons_of_mem item hother)) [item]
    simp [separated, List.foldlM_append, hitem, put, hothers, step, close]

/-- What is read of one member, in front of which a name may come. -/
theorem foldlM_member (stack : List Frame) (result : Json) {value : Json} (h : value.Rebuilt)
    (name : List Char) (members : List (List Char × Json))
    (hexpect : expect = .name ∨ expect = .nameOrClose) :
    (.quoted name :: .colon :: value.tokens).foldlM step
        ⟨.object members :: stack, expect, result⟩ =
      some ⟨.object ((name, value) :: members) :: stack, .commaOrClose, .null⟩ := by
  have hname : step ⟨.object members :: stack, expect, result⟩ (.quoted name) =
      some ⟨.member members name :: stack, .colon, .null⟩ := by
    rcases hexpect with rfl | rfl <;> rfl
  have hcolon : step ⟨.member members name :: stack, .colon, .null⟩ .colon =
      some ⟨.member members name :: stack, .value, .null⟩ := rfl
  simp only [List.foldlM_cons, hname, hcolon, Option.bind_eq_bind, Option.bind_some]
  exact h (.member members name :: stack) .value .null (.inl rfl)

theorem foldlM_otherMembers (stack : List Frame) {members : List (List Char × Json)}
    (h : ∀ member ∈ members, member.2.Rebuilt) (done : List (List Char × Json)) :
    ((members.map fun member ↦ .quoted member.1 :: .colon :: tokens member.2).flatMap
        (.comma :: ·)).foldlM step ⟨.object done :: stack, .commaOrClose, .null⟩ =
      some ⟨.object (members.reverse ++ done) :: stack, .commaOrClose, .null⟩ := by
  induction members generalizing done with
  | nil => rfl
  | cons member members ih =>
    have hcomma : step ⟨.object done :: stack, .commaOrClose, .null⟩ .comma =
        some ⟨.object done :: stack, .name, .null⟩ := rfl
    have hmember := foldlM_member stack .null (h member List.mem_cons_self)
      member.1 done (.inl rfl)
    have hothers :=
      ih (fun other hother ↦ h other (List.mem_cons_of_mem member hother)) (member :: done)
    rw [List.map_cons, List.flatMap_cons, List.cons_append, List.foldlM_cons, hcomma,
      Option.bind_eq_bind, Option.bind_some, List.foldlM_append, hmember, Option.bind_eq_bind,
      Option.bind_some, hothers]
    simp

theorem rebuilt_object {members : List (List Char × Json)}
    (h : ∀ member ∈ members, member.2.Rebuilt) : Rebuilt (.object members) := by
  intro stack expect result hexpect
  have hopening : step ⟨stack, expect, result⟩ .openObject =
      some ⟨.object [] :: stack, .nameOrClose, .null⟩ :=
    step_of_takesValue hexpect (by simp)
  rw [tokens, memberTokens_eq_map, List.cons_append, List.foldlM_cons, hopening]
  cases members with
  | nil => simp [separated, step, close]
  | cons member members =>
    have hmember := foldlM_member stack .null (h member List.mem_cons_self)
      member.1 [] (.inr rfl)
    have hothers := foldlM_otherMembers stack
      (fun other hother ↦ h other (List.mem_cons_of_mem member hother)) [member]
    rw [List.map_cons, separated, Option.bind_eq_bind, Option.bind_some, List.foldlM_append,
      List.foldlM_append, hmember, Option.bind_eq_bind, Option.bind_some, hothers]
    simp [step, close]

end Reader

theorem Written.rebuilt {json : Json} (h : json.Written) : json.Rebuilt := by
  have hword (value : Json) (stack : List Frame) (expect : Expect) (result : Json)
      (hexpect : expect.TakesValue) :
      [Token.word value].foldlM Reader.step ⟨stack, expect, result⟩ = Reader.put stack value := by
    rw [List.foldlM_cons, Reader.step_of_takesValue hexpect (by simp)]
    simp [Reader.value]
  induction h with
  | null => exact hword .null
  | bool value => exact hword (.bool value)
  | ofNat n => exact hword (.ofNat n)
  | ofString text =>
    intro stack expect result hexpect
    rw [Json.ofString, tokens, List.foldlM_cons, Reader.step_of_takesValue hexpect (by simp)]
    simp [Reader.value]
  | array items _ ih => exact Reader.rebuilt_array ih
  | ofMembers members _ ih =>
    refine Reader.rebuilt_object fun member hmember ↦ ?_
    obtain ⟨named, hnamed, rfl⟩ := List.mem_map.mp hmember
    exact ih named hnamed

/-! ## Reading a whole text -/

theorem parse?_of_spells {json : Json} (h : json.Written) {text : List Char}
    (hspells : Spells text json.tokens) : parse? (String.ofList text) = some json := by
  have htokens : Token.ofText? text = some json.tokens := by
    have hread := hspells [] [] delimited_nil
    rw [List.append_nil, List.append_nil] at hread
    calc
      Token.ofText? text = Token.read? ⟨.between, []⟩ text := rfl
      _ = Token.read? ⟨.between, json.tokens.reverse⟩ [] := hread
      _ = some json.tokens := by simp [Token.read?]
  have hvalue := h.rebuilt [] .value .null (.inl rfl)
  simp [parse?, htokens, hvalue, Reader.put]

theorem Written.parse?_compact {json : Json} (h : json.Written) :
    parse? json.compact = some json := parse?_of_spells h h.spells_compactChars

theorem Written.parse?_pretty {json : Json} (h : json.Written) :
    parse? json.pretty = some json := parse?_of_spells h (h.spells_prettyChars 0)

/-- Blanks behind a value do not matter, such as the break at the end of the last line. -/
theorem Written.parse?_pretty_append_newline {json : Json} (h : json.Written) :
    parse? (json.pretty ++ "\n") = some json := by
  have hbreak : Spells ['\n'] [] := Spells.nil.blank rfl
  have hspells := (h.spells_prettyChars 0).append hbreak (delimited_cons rfl [])
  rw [List.append_nil] at hspells
  have htext : json.pretty ++ "\n" = String.ofList (json.prettyChars 0 ++ ['\n']) := by
    rw [String.ofList_append]
    rfl
  rw [htext]
  exact parse?_of_spells h hspells

end SpecWording.Json
