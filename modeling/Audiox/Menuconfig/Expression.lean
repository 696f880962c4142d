import Audiox.Config.Text
import Audiox.Support.OperatorGrammar
import Audiox.Support.TextFields
import Mathlib

/-!
# Conditions of the configuration menu

A default of the configuration menu may have a condition on the symbols.  The
text of the condition is cut into tokens, and the tokens are evaluated while
they are read.
-/

namespace Audiox.Menuconfig

open ByteCodec Config OperatorGrammar TextFields

/-! ## Items -/

inductive Kind where
  | bool
  | int
  | string
  | choice
deriving DecidableEq

structure Default where
  value : Bytes
  condition : Bytes
deriving DecidableEq

structure ChoiceOption where
  symbol : Bytes
  label : Bytes
deriving DecidableEq

structure Item where
  kind : Kind
  symbol : Bytes
  label : Bytes
  help : Bytes
  menu : Bytes
  values : List Bytes
  options : List ChoiceOption
  defaults : List Default
  hasRange : Bool
  rangeMin : Int
  rangeMax : Int
  value : Bytes
deriving DecidableEq

/-- The value of a symbol; an option of a choice is `y` or `n`, and what is not
a symbol stands for itself. -/
def symbolValue : List Item → Bytes → Bytes
  | [], symbol => symbol
  | item :: items, symbol =>
      if item.kind = .choice then
        if ∃ option ∈ item.options, option.symbol = symbol then
          if item.value = symbol then [chr 'y'] else [chr 'n']
        else symbolValue items symbol
      else if item.symbol = symbol then item.value
      else symbolValue items symbol

/-! ## Tokens -/

/-- The characters at which a word ends, besides white space; the search for
them also finds the end of their string. -/
def isSign (c : UInt8) : Bool :=
  c ∈ [chr '!', chr '(', chr ')', chr '=', chr '&', chr '|', 0]

def isWord (c : UInt8) : Bool :=
  !Config.isSpace c && !isSign c

/-- The tokens of a text; `none` where the loop stays in front of a character
for ever. -/
def tokens : Bytes → Option (List Bytes)
  | [] => some []
  | c :: rest =>
      if Config.isSpace c then tokens rest
      else if (c = chr '&' ∨ c = chr '|') ∧ rest.head? = some c then
        (tokens rest.tail).map ([c, c] :: ·)
      else if c = chr '!' ∧ rest.head? = some (chr '=') then
        (tokens rest.tail).map ([chr '!', chr '='] :: ·)
      else if c = chr '!' ∨ c = chr '(' ∨ c = chr ')' ∨ c = chr '=' then
        (tokens rest).map ([c] :: ·)
      else if c = chr '"' then
        (tokens (rest.dropWhile (· ≠ chr '"')).tail).map
          (rest.takeWhile (· ≠ chr '"') :: ·)
      else if isWord c then
        (tokens (rest.dropWhile isWord)).map
          ((c :: rest.takeWhile isWord) :: ·)
      else none
termination_by text => text.length
decreasing_by
  all_goals simp only [List.length_cons, List.length_tail]
  · omega
  · omega
  · omega
  · omega
  · have hle := (List.dropWhile_suffix (l := rest)
      (fun c => decide (c ≠ chr '"'))).length_le
    omega
  · have hle := (List.dropWhile_suffix (l := rest) isWord).length_le
    omega

/-! ## Evaluation -/

/-- What is behind the operators and parentheses of a factor. -/
def comparison (items : List Item) : List Bytes → Bool × List Bytes
  | [] => (false, [])
  | left :: ts =>
      match accept [chr '='] ts with
      | some [] => (false, [])
      | some (right :: rest) =>
          (symbolValue items left == symbolValue items right, rest)
      | none =>
          match accept [chr '!', chr '='] ts with
          | some [] => (false, [])
          | some (right :: rest) =>
              (symbolValue items left != symbolValue items right, rest)
          | none => (symbolValue items left == [chr 'y'], ts)

theorem comparison_le (items : List Item) (ts : List Bytes) :
    (comparison items ts).2.length ≤ ts.length := by
  cases ts with
  | nil => exact le_refl _
  | cons left ts =>
      rw [comparison]
      split
      · exact Nat.zero_le _
      · next right rest heq =>
        rw [accept_some heq]
        simp only [List.length_cons]
        omega
      · split
        · exact Nat.zero_le _
        · next right rest heq =>
          rw [accept_some heq]
          simp only [List.length_cons]
          omega
        · exact Nat.le_succ _

def grammar (items : List Item) : Grammar Bytes where
  bang := [chr '!']
  opening := [chr '(']
  closing := [chr ')']
  conj := [chr '&', chr '&']
  disj := [chr '|', chr '|']
  leaf := comparison items
  nodup := by decide
  leaf_le := comparison_le items

/-- The value of a condition; `none` where it does not end. -/
def evaluate (items : List Item) (text : Bytes) : Option Bool :=
  (tokens text).bind fun ts =>
    (parseOr (grammar items) (3 * ts.length + 3) ts).map Prod.fst

/-! ## The text of a condition -/

inductive Comparison where
  | truth (word : Bytes)
  | same (left right : Bytes)
  | different (left right : Bytes)

def Comparison.left : Comparison → Bytes
  | .truth word => word
  | .same left _ => left
  | .different left _ => left

/-- The tokens of a comparison. -/
def Comparison.spell : Comparison → List Bytes
  | .truth word => [word]
  | .same left right => [left, [chr '='], right]
  | .different left right => [left, [chr '!', chr '='], right]

def Comparison.value (items : List Item) : Comparison → Bool
  | .truth word => symbolValue items word == [chr 'y']
  | .same left right => symbolValue items left == symbolValue items right
  | .different left right => symbolValue items left != symbolValue items right

/-- A comparison that does not begin like a negation or a parenthesis. -/
abbrev Operand : Type :=
  { c : Comparison // c.left ≠ [chr '!'] ∧ c.left ≠ [chr '('] }

/-- No comparison goes on behind a factor. -/
theorem accept_of_ends {items : List Item} {t : Bytes} {ts : List Bytes}
    (h : OperatorGrammar.Ends (grammar items) ts)
    (ht : t ∉ [[chr ')'], [chr '&', chr '&'], [chr '|', chr '|']]) :
    accept t ts = none := by
  rcases h with rfl | ⟨head, rest, rfl, hhead⟩
  · rfl
  · exact accept_of_ne (fun heq : head = t => ht (heq ▸ hhead)) rest

theorem spells_comparison (items : List Item) :
    Spells (grammar items) (fun c : Operand => c.val.spell)
      (fun c => c.val.value items) where
  bang := by
    rintro ⟨c, hbang, -⟩ ts
    cases c with
    | truth word => exact accept_of_ne hbang _
    | same left right => exact accept_of_ne hbang _
    | different left right => exact accept_of_ne hbang _
  opening := by
    rintro ⟨c, -, hopening⟩ ts
    cases c with
    | truth word => exact accept_of_ne hopening _
    | same left right => exact accept_of_ne hopening _
    | different left right => exact accept_of_ne hopening _
  leaf := by
    rintro ⟨c, -⟩ ts hends
    cases c with
    | truth word =>
        change comparison items (word :: ts) = _
        rw [comparison, accept_of_ends hends (by decide),
          accept_of_ends hends (by decide)]
        rfl
    | same left right =>
        change comparison items (left :: [chr '='] :: right :: ts) = _
        rw [comparison, accept_self]
        rfl
    | different left right =>
        change comparison items (left :: [chr '!', chr '='] :: right :: ts) = _
        rw [comparison, accept_of_ne (by decide), accept_self]
        rfl

/-- A piece of the text, which is one token. -/
inductive Piece where
  | sign (token : Bytes)
  | bare (word : Bytes)
  | quoted (word : Bytes)

def signs : List Bytes :=
  [[chr '!'], [chr '('], [chr ')'], [chr '='], [chr '!', chr '='],
    [chr '&', chr '&'], [chr '|', chr '|']]

namespace Piece

def token : Piece → Bytes
  | sign token => token
  | bare word => word
  | quoted word => word

def text : Piece → Bytes
  | sign token => token
  | bare word => word
  | quoted word => chr '"' :: word ++ [chr '"']

/-- A piece that is read as it is meant. -/
def Proper : Piece → Prop
  | sign token => token ∈ signs
  | bare word => word ≠ [] ∧ word.head? ≠ some (chr '"') ∧
      ∀ c ∈ word, isWord c = true
  | quoted word => chr '"' ∉ word

/-- What is behind the piece does not run together with it. -/
def Apart (rest : Bytes) : Piece → Prop
  | sign token => token = [chr '!'] → rest.head? ≠ some (chr '=')
  | bare _ => ∀ c ∈ rest.head?, isWord c = false
  | quoted _ => True

end Piece

/-- Pieces with white space in front of each. -/
def textOf : List (Bytes × Piece) → Bytes → Bytes
  | [], trailing => trailing
  | (space, piece) :: pieces, trailing =>
      space ++ piece.text ++ textOf pieces trailing

/-- White space is white, and there is some of it where two pieces would run
together. -/
inductive Spaced (trailing : Bytes) : List (Bytes × Piece) → Prop
  | nil : Spaced trailing []
  | cons {space : Bytes} {piece : Piece} {pieces : List (Bytes × Piece)} :
      (∀ c ∈ space, Config.isSpace c = true) → piece.Proper →
        piece.Apart (textOf pieces trailing) → Spaced trailing pieces →
          Spaced trailing ((space, piece) :: pieces)

theorem tokens_space {space : Bytes}
    (h : ∀ c ∈ space, Config.isSpace c = true) (rest : Bytes) : tokens (space ++ rest) = tokens rest := by
  induction space with
  | nil => rfl
  | cons c space ih =>
      rw [List.cons_append, tokens, if_pos (h c (by simp))]
      exact ih fun d hd => h d (List.mem_cons_of_mem _ hd)

theorem tokens_sign {token : Bytes} (h : token ∈ signs) (rest : Bytes)
    (hapart : token = [chr '!'] → rest.head? ≠ some (chr '=')) :
    tokens (token ++ rest) = (tokens rest).map (token :: ·) := by
  have hnot : ∀ c : UInt8, c = chr '!' ∨ c = chr '(' ∨ c = chr ')' ∨
      c = chr '=' → Config.isSpace c = false ∧ c ≠ chr '&' ∧ c ≠ chr '|' := by
    rintro c (rfl | rfl | rfl | rfl) <;> decide
  have hsingle : ∀ c : UInt8, c = chr '!' ∨ c = chr '(' ∨ c = chr ')' ∨
      c = chr '=' → (c = chr '!' → rest.head? ≠ some (chr '=')) →
        tokens (c :: rest) = (tokens rest).map ([c] :: ·) := by
    intro c hc hne
    obtain ⟨hspace, hand, hor⟩ := hnot c hc
    rw [tokens, if_neg (by simp [hspace]), if_neg (by simp [hand, hor]),
      if_neg (fun h => hne h.1 h.2), if_pos hc]
  have hdouble : ∀ c : UInt8, c = chr '&' ∨ c = chr '|' →
      tokens (c :: c :: rest) = (tokens rest).map ([c, c] :: ·) := by
    intro c hc
    have hspace : Config.isSpace c = false := by
      rcases hc with rfl | rfl <;> decide
    rw [tokens, if_neg (by simp [hspace]), if_pos ⟨hc, rfl⟩]
    rfl
  simp only [signs, List.mem_cons, List.not_mem_nil, or_false] at h
  rcases h with rfl | rfl | rfl | rfl | rfl | rfl | rfl
  · exact hsingle _ (by simp) fun _ => hapart rfl
  · exact hsingle _ (by simp) fun heq => absurd heq (by decide)
  · exact hsingle _ (by simp) fun heq => absurd heq (by decide)
  · exact hsingle _ (by simp) fun heq => absurd heq (by decide)
  · change tokens (chr '!' :: chr '=' :: rest) = _
    rw [tokens, if_neg (by decide), if_neg fun h => absurd h.1 (by decide),
      if_pos ⟨rfl, rfl⟩]
    rfl
  · exact hdouble _ (by simp)
  · exact hdouble _ (by simp)

theorem tokens_bare {word : Bytes} (hne : word ≠ [])
    (hquote : word.head? ≠ some (chr '"'))
    (hword : ∀ c ∈ word, isWord c = true) (rest : Bytes)
    (hapart : ∀ c ∈ rest.head?, isWord c = false) :
    tokens (word ++ rest) = (tokens rest).map (word :: ·) := by
  obtain ⟨c, word, rfl⟩ := List.exists_cons_of_ne_nil hne
  have hc := hword c (by simp)
  have htail : ∀ d ∈ word, isWord d = true :=
    fun d hd => hword d (List.mem_cons_of_mem _ hd)
  have hspace : ¬ Config.isSpace c = true := by
    intro h
    rw [isWord, h] at hc
    cases hc
  have hsign : isSign c = false := by
    rw [isWord, Bool.and_eq_true] at hc
    simpa using hc.2
  simp only [isSign, List.mem_cons, List.not_mem_nil, or_false,
    decide_eq_false_iff_not, not_or] at hsign
  obtain ⟨h1, h2, h3, h4, h5, h6, -⟩ := hsign
  have hquoted : c ≠ chr '"' := fun heq => hquote (by rw [heq]; rfl)
  rw [List.cons_append, tokens, if_neg hspace, if_neg (by simp [h5, h6]),
    if_neg (by simp [h1]), if_neg (by simp [h1, h2, h3, h4]), if_neg hquoted,
    if_pos hc, takeWhile_word htail hapart, dropWhile_word htail hapart]

theorem tokens_quoted {word : Bytes} (h : chr '"' ∉ word) (rest : Bytes) :
    tokens (chr '"' :: word ++ [chr '"'] ++ rest) =
      (tokens rest).map (word :: ·) := by
  obtain ⟨htake, hdrop⟩ := takeWhile_stop h rest
  rw [List.cons_append, List.cons_append, List.append_assoc,
    List.singleton_append, tokens, if_neg (by decide),
    if_neg fun h => absurd h.1 (by decide),
    if_neg fun h => absurd h.1 (by decide), if_neg (by decide), if_pos rfl,
    htake, hdrop]
  rfl

/-- Pieces are read back as their tokens. -/
theorem tokens_textOf {pieces : List (Bytes × Piece)} {trailing : Bytes}
    (h : Spaced trailing pieces)
    (htrailing : ∀ c ∈ trailing, Config.isSpace c = true) :
    tokens (textOf pieces trailing) =
      some (pieces.map fun p => p.2.token) := by
  induction h with
  | nil =>
      rw [textOf, ← List.append_nil trailing, tokens_space htrailing, tokens]
      rfl
  | @cons space piece pieces hspace hproper hapart _ ih =>
      have hread : tokens (piece.text ++ textOf pieces trailing) =
          (tokens (textOf pieces trailing)).map (piece.token :: ·) := by
        cases piece with
        | sign token => exact tokens_sign hproper _ hapart
        | bare word =>
            exact tokens_bare hproper.1 hproper.2.1 hproper.2.2 _ hapart
        | quoted word => exact tokens_quoted hproper _
      rw [textOf, List.append_assoc, tokens_space hspace, hread, ih]
      rfl

/-- A condition has the value of the formula that it spells, however it is
spaced and whatever words are quoted. -/
theorem evaluate_textOf (items : List Item) (f : Formula Operand)
    {pieces : List (Bytes × Piece)} {trailing : Bytes}
    (h : Spaced trailing pieces)
    (htrailing : ∀ c ∈ trailing, Config.isSpace c = true)
    (hpieces : pieces.map (fun p => p.2.token) =
      f.tokens (grammar items) (fun c => c.val.spell) .disjunction) :
    evaluate items (textOf pieces trailing) =
      some (f.value fun c => c.val.value items) := by
  rw [evaluate, tokens_textOf h htrailing, hpieces, Option.bind_some,
    parseOr_tokens (spells_comparison items) f]
  rfl

end Audiox.Menuconfig
