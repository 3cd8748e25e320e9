import Relink.Proofs.Script.Gap
import Relink.Script.Site

/-!
# Clauses

What stands between the keyword of a statement and its `from`: words, blanks, comments and a few
marks. The walk over a clause finds the first `from` that a quote follows, and passes over every
other one as a name.
-/

namespace Relink.Script

/-- A specifier: not empty, and without blanks and quotes. -/
structure IsSpecifier (text : List Char) : Prop where
  ne_nil : text ≠ []
  characters : ∀ character ∈ text, isSpecifierCharacter character = true

instance (text : List Char) : Decidable (IsSpecifier text) :=
  decidable_of_iff (text ≠ [] ∧ text.all isSpecifierCharacter = true)
    ⟨fun ⟨ne_nil, characters⟩ => ⟨ne_nil, List.all_eq_true.1 characters⟩,
      fun isSpecifier => ⟨isSpecifier.ne_nil, List.all_eq_true.2 isSpecifier.characters⟩⟩

/-- What may stand before a keyword: neither a part of a longer word nor a point. -/
def BeforeWord (previous : Option Char) : Prop :=
  ∀ character, previous = some character → isWord character = false ∧ character ≠ '.'

/-- What may stand after a keyword. -/
def AfterWord (rest : List Char) : Prop :=
  ∀ character, rest.head? = some character → isWord character = false

/-- The characters of a clause outside its comments. -/
def isClauseCharacter (character : Char) : Bool :=
  isWord character || isBlank character || isClausePunctuation character

/-- The clause between a keyword and its `from`. It holds no quote outside its comments, so that
none of its own words `from` can take the specifier. -/
inductive Clause : List Char -> Prop where
  | nil : Clause []
  | character {character : Char} {rest : List Char}
      (plain : isClauseCharacter character = true) (clause : Clause rest) :
      Clause (character :: rest)
  | comment {text rest : List Char} (comment : Comment text) (clause : Clause rest) :
      Clause (text ++ rest)

/-- A text that keeps two words apart, one on either side. -/
structure Apart (text : List Char) : Prop where
  ne_nil : text ≠ []
  first : ∀ character, text.head? = some character → isWord character = false
  last : ∀ character, text.getLast? = some character → isWord character = false

/-- A word may end before a text that keeps words apart. -/
theorem Apart.afterWord {text : List Char} (apart : Apart text) (rest : List Char) :
    AfterWord (text ++ rest) := by
  intro character first
  refine apart.first character ?_
  obtain ⟨head, tail, rfl⟩ := List.exists_cons_of_ne_nil apart.ne_nil
  exact first

/-! ## Words -/

/-- A text begins with a word if nothing before or after it goes on with the word. -/
theorem beginsWithWord_iff {previous : Option Char} {word text : List Char} :
    beginsWithWord previous word text = true ↔
      BeforeWord previous ∧ ∃ rest, text = word ++ rest ∧ AfterWord rest := by
  unfold beginsWithWord BeforeWord AfterWord
  constructor
  · intro begins
    simp only [Bool.and_eq_true, Bool.not_eq_true', List.isPrefixOf_iff_prefix] at begins
    obtain ⟨⟨⟨rest, rfl⟩, before⟩, after⟩ := begins
    rw [List.drop_left] at after
    refine ⟨fun character same => ?_, rest, rfl, fun character same => ?_⟩
    · simpa [same] using before
    · simpa [same] using after
  · rintro ⟨before, rest, rfl, after⟩
    simp only [Bool.and_eq_true, Bool.not_eq_true', List.isPrefixOf_iff_prefix]
    refine ⟨⟨List.prefix_append word rest, ?_⟩, ?_⟩
    · cases previous with
      | none => rfl
      | some character => simpa using before character rfl
    · rw [List.drop_left]
      cases first : rest.head? with
      | none => rfl
      | some character => simpa using after character first

/-- A quote ends every word. -/
theorem isWord_of_isQuote {quote : Char} (isQuote : isQuote quote = true) :
    isWord quote = false := by
  simp only [Script.isQuote, Bool.or_eq_true, beq_iff_eq] at isQuote
  rcases isQuote with rfl | rfl <;> decide

/-! ## Quoted specifiers -/

theorem not_isSpecifierCharacter_of_isQuote {quote : Char} (isQuote : isQuote quote = true) :
    isSpecifierCharacter quote = false := by
  simp [isSpecifierCharacter, isQuote]

/-- What a specifier is made of has no quote. -/
theorem quote_not_mem {quote : Char} {text : List Char} (isQuote : isQuote quote = true)
    (plain : ∀ character ∈ text, isSpecifierCharacter character = true) : quote ∉ text := by
  intro member
  have inside := plain quote member
  rw [not_isSpecifierCharacter_of_isQuote isQuote] at inside
  cases inside

/-- A specifier between two quotes is read. -/
theorem quotedSpecifier?_eq_some {quote : Char} {specifier : List Char} (rest : List Char)
    (isQuote : isQuote quote = true) (isSpecifier : IsSpecifier specifier) :
    quotedSpecifier? (quote :: (specifier ++ quote :: rest)) = some specifier := by
  have taken : (specifier ++ quote :: rest).takeWhile isSpecifierCharacter = specifier := by
    rw [List.takeWhile_append_of_pos isSpecifier.characters, List.takeWhile_cons_of_neg]
    · exact List.append_nil specifier
    · simp [not_isSpecifierCharacter_of_isQuote isQuote]
  have filled : specifier.isEmpty = false := by simpa using isSpecifier.ne_nil
  simp [quotedSpecifier?, taken, isQuote, filled]

/-- What is read as a quoted specifier is one, between two quotes. -/
theorem exists_of_quotedSpecifier? {text specifier : List Char}
    (found : quotedSpecifier? text = some specifier) :
    ∃ quote rest, text = quote :: (specifier ++ quote :: rest) ∧ isQuote quote = true ∧
      IsSpecifier specifier := by
  cases text with
  | nil => cases found
  | cons quote rest =>
    unfold quotedSpecifier? at found
    simp only [Bool.and_eq_true, Bool.not_eq_true', Option.ite_none_right_eq_some,
      Option.some.injEq, beq_iff_eq, List.isEmpty_eq_false_iff] at found
    obtain ⟨⟨⟨isQuote, filled⟩, closed⟩, rfl⟩ := found
    have whole := List.prefix_iff_eq_append.1
      (List.takeWhile_prefix isSpecifierCharacter (l := rest))
    obtain ⟨tail, closed⟩ := List.head?_eq_some_iff.1 closed
    rw [closed] at whole
    exact ⟨quote, tail, by rw [whole], isQuote, filled,
      fun _ member => List.mem_takeWhile_imp member⟩

/-! ## Clauses -/

/-- What is passed already counts for the length of a clause. -/
theorem clauseLengthFrom?_passed (previous : Char) (pending passed : Nat) (text : List Char) :
    clauseLengthFrom? previous pending passed text =
      (clauseLengthFrom? previous pending 0 text).map (passed + ·) := by
  induction text generalizing previous pending passed with
  | nil => simp [clauseLengthFrom?]
  | cons character rest ih =>
    have shift (previous : Char) (pending : Nat) :
        clauseLengthFrom? previous pending (passed + 1) rest =
          (clauseLengthFrom? previous pending (0 + 1) rest).map (passed + ·) := by
      rw [ih previous pending (passed + 1), ih previous pending (0 + 1), Option.map_map]
      congr 1
      funext length
      simp only [Function.comp_apply]
      omega
    cases pending with
    | succ more => rw [clauseLengthFrom?, clauseLengthFrom?, shift]
    | zero =>
      rw [clauseLengthFrom?, clauseLengthFrom?]
      split
      · dsimp only
        split
        · simp only [Option.map_some, Option.some.injEq]
          omega
        · exact shift character 3
      · split
        · exact shift character _
        · split
          · exact shift character 0
          · rfl

/-- A part that is settled is passed over, up to its last character. -/
theorem clauseLengthFrom?_append (previous : Char) (passed : Nat) (settled rest : List Char) :
    clauseLengthFrom? previous settled.length passed (settled ++ rest) =
      clauseLengthFrom? (settled.getLast?.getD previous) 0 (passed + settled.length) rest := by
  induction settled generalizing previous passed with
  | nil => rfl
  | cons character settled ih =>
    rw [List.cons_append, List.length_cons, clauseLengthFrom?, ih, List.getLast?_cons,
      Option.getD_some, Nat.add_right_comm, Nat.add_assoc]

/-- A comment that a text begins with is passed over as a whole. -/
theorem clauseLengthFrom?_of_comment {previous : Char} {text : List Char} {length : Nat}
    (found : commentLength? text = some length) :
    clauseLengthFrom? previous 0 0 text =
      (clauseLengthFrom? ((text.take length).getLast?.getD previous) 0 0 (text.drop length)).map
        (length + ·) := by
  obtain ⟨two, fits⟩ := commentLength?_bounds found
  cases text with
  | nil => simp only [List.length_nil] at fits; omega
  | cons character rest =>
    obtain ⟨more, rfl⟩ : ∃ more, length = more + 1 := ⟨length - 1, by omega⟩
    have fits : more ≤ rest.length := by simpa using fits
    have noWord : beginsWithWord (some previous) "from".toList (character :: rest) = false := by
      by_cases slash : character = '/'
      · simp [beginsWithWord, slash]
      · rw [commentLength?_eq_none rest slash] at found; cases found
    rw [clauseLengthFrom?, noWord, found]
    have skipped := clauseLengthFrom?_append character 1 (rest.take more) (rest.drop more)
    rw [List.take_append_drop, List.length_take_of_le fits] at skipped
    simp only [Bool.false_eq_true, if_false, List.drop_succ_cons, List.take_succ_cons,
      Nat.zero_add, skipped, List.getLast?_cons, Option.getD_some]
    rw [clauseLengthFrom?_passed, Nat.add_comm 1 more]

theorem not_slash_of_isClauseCharacter {character : Char}
    (plain : isClauseCharacter character = true) : character ≠ '/' := by
  rintro rfl
  exact absurd plain (by decide)

/-- A character of a clause at which no `from` begins is passed over. -/
theorem clauseLengthFrom?_character {previous character : Char} {rest : List Char}
    (plain : isClauseCharacter character = true)
    (noWord : beginsWithWord (some previous) "from".toList (character :: rest) = false) :
    clauseLengthFrom? previous 0 0 (character :: rest) =
      (clauseLengthFrom? character 0 0 rest).map (1 + ·) := by
  have noComment := commentLength?_eq_none rest (not_slash_of_isClauseCharacter plain)
  unfold isClauseCharacter at plain
  rw [clauseLengthFrom?, noWord, noComment]
  simp only [plain, Bool.false_eq_true, if_false, if_true]
  rw [clauseLengthFrom?_passed]

/-- A clause ends its statement before a character that it cannot hold. -/
theorem clauseLengthFrom?_foreign {previous character : Char} {rest : List Char}
    (foreign : isClauseCharacter character = false)
    (noComment : commentLength? (character :: rest) = none) :
    clauseLengthFrom? previous 0 0 (character :: rest) = none := by
  have noWord : beginsWithWord (some previous) "from".toList (character :: rest) = false := by
    by_cases letter : character = 'f'
    · rw [letter] at foreign; exact absurd foreign (by decide)
    · simp [beginsWithWord, Ne.symm letter]
  unfold isClauseCharacter at foreign
  rw [clauseLengthFrom?, noWord, noComment]
  simp only [foreign, Bool.false_eq_true, if_false]

/-- A comment in a clause is passed over. -/
theorem clauseLengthFrom?_comment {previous : Char} {text : List Char} (rest : List Char)
    (comment : Comment text) :
    clauseLengthFrom? previous 0 0 (text ++ rest) =
      (clauseLengthFrom? (text.getLast?.getD previous) 0 0 rest).map (text.length + ·) := by
  cases comment with
  | @block body open_ =>
    have found := commentLength?_block rest open_
    have shape : '/' :: '*' :: (body ++ ['*', '/']) ++ rest =
        '/' :: '*' :: (body ++ '*' :: '/' :: rest) := by simp
    have taken : ('/' :: '*' :: (body ++ '*' :: '/' :: rest)).take (body.length + 4) =
        '/' :: '*' :: (body ++ ['*', '/']) := by
      rw [← shape]
      exact List.take_left' (by simp)
    rw [shape, clauseLengthFrom?_of_comment found, drop_block, taken]
    simp
  | @line body oneLine =>
    have found := commentLength?_line rest oneLine
    have shape : '/' :: '/' :: (body ++ ['\n']) ++ rest =
        '/' :: '/' :: (body ++ '\n' :: rest) := by simp
    -- The comment is measured without its line feed, which is a blank of its own.
    rw [shape, clauseLengthFrom?_of_comment found, drop_line,
      clauseLengthFrom?_character (by rfl : isClauseCharacter '\n' = true)
        (by simp [beginsWithWord]),
      Option.map_map]
    congr 1
    · funext length
      simp only [Function.comp_apply, List.length_cons, List.length_append, List.length_nil]
      omega
    · rw [show '/' :: '/' :: (body ++ ['\n']) = '/' :: '/' :: body ++ ['\n'] from rfl,
        List.getLast?_concat, Option.getD_some]

/-- A word that a clause and what follows it begin with is a part of the clause, unless the
clause is empty or ends in a part of a word. -/
theorem exists_append_of_word {word clause rest tail : List Char}
    (isWord_ : ∀ character ∈ word, isWord character = true) (filled : clause ≠ [])
    (last : ∀ character, clause.getLast? = some character → isWord character = false)
    (same : clause ++ rest = word ++ tail) : ∃ later, clause = word ++ later := by
  rcases List.append_eq_append_iff.1 same with ⟨later, shorter, -⟩ | ⟨later, longer, -⟩
  · have member : clause.getLast filled ∈ word := by
      rw [shorter]
      exact List.mem_append_left _ (List.getLast_mem filled)
    have solid := last _ (List.getLast?_eq_some_getLast filled)
    rw [isWord_ _ member] at solid
    cases solid
  · exact ⟨later, longer⟩

/-- A clause without its first character is a clause, unless that begins a comment. -/
theorem Clause.of_cons {character : Char} {rest : List Char} (clause : Clause (character :: rest))
    (other : character ≠ '/') : Clause rest := by
  generalize same : character :: rest = text at clause
  cases clause with
  | nil => cases same
  | character _ clause =>
    obtain ⟨-, rfl⟩ := List.cons.inj same
    exact clause
  | comment comment _ =>
    obtain ⟨body, rfl, -⟩ := comment.exists_cons
    exact absurd (List.cons.inj same).1 other

/-- A comment ends with a slash or a line feed. -/
theorem Comment.getLast? {text : List Char} (comment : Comment text) :
    text.getLast? = some '/' ∨ text.getLast? = some '\n' := by
  cases comment with
  | @block body _ =>
    left
    rw [show '/' :: '*' :: (body ++ ['*', '/']) = '/' :: '*' :: body ++ ['*'] ++ ['/'] by simp,
      List.getLast?_concat]
  | @line body _ =>
    right
    rw [show '/' :: '/' :: (body ++ ['\n']) = '/' :: '/' :: body ++ ['\n'] by simp,
      List.getLast?_concat]

/-- No clause ends with a dot. -/
theorem Clause.getLast?_ne_point {clause : List Char} (isClause : Clause clause) :
    clause.getLast? ≠ some '.' := by
  induction isClause with
  | nil => simp
  | @character character rest plain _ ih =>
    cases rest with
    | nil =>
      rw [List.getLast?_singleton, ne_eq, Option.some.injEq]
      rintro rfl
      exact absurd plain (by decide)
    | cons next rest => rwa [List.getLast?_cons_cons]
  | @comment text rest comment _ ih =>
    rw [List.getLast?_append]
    cases last : rest.getLast? with
    | some character => simpa [last] using ih
    | none =>
      rw [Option.none_or]
      rcases comment.getLast? with same | same <;> rw [same] <;> decide

/-- A word that a clause begins with leaves a clause. -/
theorem Clause.of_word {word rest : List Char} (clause : Clause (word ++ rest))
    (isWord_ : ∀ character ∈ word, isWord character = true) : Clause rest := by
  induction word with
  | nil => exact clause
  | cons character word ih =>
    refine ih (clause.of_cons ?_) fun other member => isWord_ other (List.mem_cons_of_mem _ member)
    rintro rfl
    exact absurd (isWord_ '/' (List.mem_cons_self ..)) (by decide)

/-- What comes after the gap that a clause begins with is a part of the clause, or what comes
after the clause. -/
theorem Clause.head?_drop_triviaLength {clause : List Char} {next : Char} {rest : List Char}
    (isClause : Clause clause) (solid : isBlank next = false)
    (noComment : commentLength? (next :: rest) = none) :
    ∃ head, ((clause ++ next :: rest).drop (triviaLength (clause ++ next :: rest))).head? =
      some head ∧ (isClauseCharacter head = true ∨ head = next) := by
  induction isClause with
  | nil =>
    rw [List.nil_append, triviaLength_solid solid noComment]
    exact ⟨next, rfl, .inr rfl⟩
  | @character character clause plain _ ih =>
    obtain ⟨head, found, kind⟩ := ih
    by_cases blank : isBlank character = true
    · rw [List.cons_append, triviaLength_blank _ blank, List.drop_succ_cons]
      exact ⟨head, found, kind⟩
    · rw [List.cons_append, triviaLength_solid (by simpa using blank)
        (commentLength?_eq_none _ (not_slash_of_isClauseCharacter plain))]
      exact ⟨character, rfl, .inl plain⟩
  | comment comment _ ih =>
    obtain ⟨head, found, kind⟩ := ih
    rw [List.append_assoc, triviaLength_comment _ comment, ← List.drop_drop, List.drop_left]
    exact ⟨head, found, kind⟩

/-- What comes after the gap that a clause before a `from` begins with is a part of the clause, or
of that word. -/
theorem Clause.head?_drop_from {clause : List Char} (isClause : Clause clause)
    (rest : List Char) :
    ∃ head, ((clause ++ ("from".toList ++ rest)).drop
      (triviaLength (clause ++ ("from".toList ++ rest)))).head? = some head ∧
        isClauseCharacter head = true := by
  obtain ⟨head, found, kind⟩ := isClause.head?_drop_triviaLength (by decide : isBlank 'f' = false)
    (commentLength?_eq_none ("rom".toList ++ rest) (by decide))
  refine ⟨head, found, ?_⟩
  rcases kind with plain | rfl
  · exact plain
  · decide

/-- A clause ends behind a `from` that a quote comes after. -/
theorem clauseLengthFrom?_from {previous : Char} {following : List Char}
    (begins : beginsWithWord (some previous) "from".toList ("from".toList ++ following) = true)
    (quoted : (following.drop (triviaLength following)).head?.any isQuote = true) :
    clauseLengthFrom? previous 0 0 ("from".toList ++ following) =
      some (4 + triviaLength following) := by
  have shape : "from".toList ++ following = 'f' :: 'r' :: 'o' :: 'm' :: following := rfl
  rw [shape] at begins ⊢
  rw [clauseLengthFrom?, begins]
  simp only [if_true, List.drop_succ_cons, List.drop_zero, quoted, Nat.zero_add]

/-- A `from` that no quote follows is a name like any other. -/
theorem clauseLengthFrom?_name {previous : Char} {following : List Char}
    (begins : beginsWithWord (some previous) "from".toList ("from".toList ++ following) = true)
    (unquoted : (following.drop (triviaLength following)).head?.any isQuote = false) :
    clauseLengthFrom? previous 0 0 ("from".toList ++ following) =
      (clauseLengthFrom? 'm' 0 0 following).map (4 + ·) := by
  have shape : "from".toList ++ following = 'f' :: 'r' :: 'o' :: 'm' :: following := rfl
  rw [shape] at begins ⊢
  rw [clauseLengthFrom?, begins]
  simp only [if_true, List.drop_succ_cons, List.drop_zero, unquoted, Bool.false_eq_true, if_false]
  rw [clauseLengthFrom?, clauseLengthFrom?, clauseLengthFrom?, clauseLengthFrom?_passed]

theorem isWord_of_isBlank {character : Char} (blank : isBlank character = true) :
    isWord character = false := by
  simp only [isBlank, Bool.or_eq_true, beq_iff_eq] at blank
  rcases blank with (((rfl | rfl) | rfl) | rfl) | rfl <;> decide

/-- A word may end before a gap that no word follows. -/
theorem Gap.afterWord {gap : List Char} {next : Char} (rest : List Char) (isGap : Gap gap)
    (solid : isWord next = false) : AfterWord (gap ++ next :: rest) := by
  intro character first
  cases isGap with
  | nil =>
    obtain rfl : next = character := by simpa using first
    exact solid
  | @blank character' _ blank _ =>
    obtain rfl : character' = character := by simpa using first
    exact isWord_of_isBlank blank
  | comment comment _ =>
    obtain ⟨body, rfl, -⟩ := comment.exists_cons
    obtain rfl : '/' = character := by simpa using first
    decide

theorem isWord_from : ∀ character ∈ "from".toList, isWord character = true := by
  rw [← List.all_eq_true]
  rfl

theorem isWord_import : ∀ character ∈ "import".toList, isWord character = true := by
  rw [← List.all_eq_true]
  rfl

theorem isWord_export : ∀ character ∈ "export".toList, isWord character = true := by
  rw [← List.all_eq_true]
  rfl

theorem isWord_require : ∀ character ∈ "require".toList, isWord character = true := by
  rw [← List.all_eq_true]
  rfl

theorem isQuote_of_isClauseCharacter {character : Char}
    (plain : isClauseCharacter character = true) : isQuote character = false := by
  by_contra quoted
  simp only [isQuote, Bool.not_eq_false, Bool.or_eq_true, beq_iff_eq] at quoted
  rcases quoted with rfl | rfl <;> exact absurd plain (by decide)

/-- A quote is neither a blank nor the beginning of a comment. -/
theorem triviaLength_quote {gap : List Char} {quote : Char} (rest : List Char) (isGap : Gap gap)
    (isQuote : isQuote quote = true) : triviaLength (gap ++ quote :: rest) = gap.length := by
  rw [triviaLength_gap _ isGap, triviaLength_solid, Nat.add_zero]
  · simp only [Script.isQuote, Bool.or_eq_true, beq_iff_eq] at isQuote
    rcases isQuote with rfl | rfl <;> decide
  · refine commentLength?_eq_none rest ?_
    rintro rfl
    exact absurd isQuote (by decide)

/-- The last character of a text behind another, if one comes before both. -/
theorem getLast?_cons_append (previous : Char) (text rest : List Char) :
    (previous :: (text ++ rest)).getLast? = (text.getLast?.getD previous :: rest).getLast? := by
  rw [List.getLast?_cons, List.getLast?_cons, List.getLast?_append]
  cases rest.getLast? <;> simp

/-- A word is made of clause characters. -/
theorem Clause.word_append {word clause : List Char} (isClause : Clause clause)
    (isWord_ : ∀ character ∈ word, isWord character = true) : Clause (word ++ clause) := by
  induction word with
  | nil => exact isClause
  | cons character word ih =>
    refine .character ?_ (ih fun other member => isWord_ other (List.mem_cons_of_mem _ member))
    simp [isClauseCharacter, isWord_ character (List.mem_cons_self ..)]

/-- A word is a clause. -/
theorem Clause.word {word : List Char} (isWord_ : ∀ character ∈ word, isWord character = true) :
    Clause word :=
  List.append_nil word ▸ Clause.nil.word_append isWord_

/-- A word `from` that a clause begins with leaves a clause, and no quote follows it. -/
theorem Clause.exists_of_begins {previous : Char} {clause : List Char} (rest : List Char)
    (isClause : Clause clause) (filled : clause ≠ []) (last : BeforeWord clause.getLast?)
    (begins : beginsWithWord (some previous) "from".toList
      (clause ++ ("from".toList ++ rest)) = true) :
    ∃ later, clause = "from".toList ++ later ∧ Clause later ∧
      (((later ++ ("from".toList ++ rest)).drop
        (triviaLength (later ++ ("from".toList ++ rest)))).head?.any isQuote) = false := by
  obtain ⟨-, tail, same, -⟩ := beginsWithWord_iff.1 begins
  obtain ⟨later, rfl⟩ := exists_append_of_word isWord_from filled
    (fun character found => (last character found).1) same
  have isLater := isClause.of_word isWord_from
  obtain ⟨head, found, plain⟩ := isLater.head?_drop_from rest
  refine ⟨later, rfl, isLater, ?_⟩
  rw [found]
  exact isQuote_of_isClauseCharacter plain

/-- A text that comes after `previous` holds a clause, the `from` after it, a gap and a quote.
`length` characters come before the quote. -/
inductive LeadsToQuote (previous : Char) : Nat -> List Char -> Prop where
  | mk {clause gap : List Char} {quote : Char} (rest : List Char) (isClause : Clause clause)
      (isGap : Gap gap) (isQuote : isQuote quote = true)
      (before : BeforeWord (previous :: clause).getLast?) :
      LeadsToQuote previous (clause.length + 4 + gap.length)
        (clause ++ ("from".toList ++ (gap ++ quote :: rest)))

/-- What makes a longer clause of a clause can come before it. -/
theorem LeadsToQuote.extend {previous last : Char} {front text : List Char} {length : Nat}
    (leads : LeadsToQuote last length text) (ends : front.getLast?.getD previous = last)
    (longer : ∀ {clause}, Clause clause -> Clause (front ++ clause)) :
    LeadsToQuote previous (front.length + length) (front ++ text) := by
  cases leads with
  | @mk clause gap quote rest isClause isGap isQuote before =>
    have whole := LeadsToQuote.mk rest (longer isClause) isGap isQuote
      (by rwa [getLast?_cons_append, ends])
    rw [List.append_assoc, List.length_append] at whole
    rwa [← Nat.add_assoc, ← Nat.add_assoc]

/-- A clause is passed over up to the quote after its `from`. -/
theorem LeadsToQuote.clauseLengthFrom?_eq {previous : Char} {text : List Char} {length : Nat}
    (leads : LeadsToQuote previous length text) :
    clauseLengthFrom? previous 0 0 text = some length := by
  obtain @⟨clause, gap, quote, rest, isClause, isGap, isQuote, before⟩ := leads
  have measured := triviaLength_quote rest isGap isQuote
  have after : AfterWord (gap ++ quote :: rest) := isGap.afterWord rest (isWord_of_isQuote isQuote)
  -- The walk passes over four characters at once where the clause holds a word `from`.
  induction size : clause.length using Nat.strong_induction_on generalizing clause previous with
  | _ size ih =>
    subst size
    cases isClause with
    | nil =>
      rw [List.nil_append, clauseLengthFrom?_from
        (beginsWithWord_iff.2 ⟨by simpa using before, _, rfl, after⟩), measured]
      · rfl
      · rw [measured, List.drop_left]
        simpa using isQuote
    | @character character clause plain isClause =>
      have last : BeforeWord (character :: clause).getLast? := by
        simpa only [List.getLast?_cons_cons] using before
      by_cases begins : beginsWithWord (some previous) "from".toList
          (character :: clause ++ ("from".toList ++ (gap ++ quote :: rest))) = true
      · obtain ⟨later, split, isLater, unquoted⟩ :=
          (Clause.character plain isClause).exists_of_begins _ (List.cons_ne_nil _ _) last begins
        have shorter : later.length < (character :: clause).length := by
          rw [split, List.length_append]
          exact Nat.lt_add_of_pos_left (by decide)
        have before : BeforeWord ('m' :: later).getLast? := by
          rwa [split, getLast?_cons_append] at before
        rw [split, List.append_assoc] at begins ⊢
        rw [clauseLengthFrom?_name begins unquoted, ih later.length shorter isLater before rfl,
          Option.map_some, List.length_append, show "from".toList.length = 4 from rfl]
        congr 1
        omega
      · rw [List.cons_append] at begins ⊢
        rw [clauseLengthFrom?_character plain (by simpa using begins),
          ih clause.length (by simp) isClause last rfl, Option.map_some, List.length_cons]
        congr 1
        omega
    | @comment text clause comment isClause =>
      have shorter : clause.length < (text ++ clause).length := by
        rw [List.length_append]
        exact Nat.lt_add_of_pos_left comment.length_pos
      rw [getLast?_cons_append] at before
      rw [List.append_assoc, clauseLengthFrom?_comment _ comment,
        ih clause.length shorter isClause before rfl, Option.map_some, List.length_append]
      congr 1
      omega

/-- Where the walk over a clause ends, a clause stands before a `from` and a quote after it. -/
theorem LeadsToQuote.of_clauseLengthFrom? {previous : Char} {text : List Char} {length : Nat}
    (found : clauseLengthFrom? previous 0 0 text = some length) :
    LeadsToQuote previous length text := by
  -- By the length of the text, since a comment or a word is passed over as a whole.
  induction size : text.length using Nat.strong_induction_on
    generalizing previous text length with
  | _ size ih =>
    subst size
    by_cases begins : beginsWithWord (some previous) "from".toList text = true
    · obtain ⟨before, following, rfl, -⟩ := beginsWithWord_iff.1 begins
      cases quoted : (following.drop (triviaLength following)).head?.any isQuote with
      | true =>
        rw [clauseLengthFrom?_from begins quoted, Option.some.injEq] at found
        obtain ⟨quote, head, isQuote⟩ := (Option.any_eq_true _ _).1 quoted
        obtain ⟨gap, rest, rfl, isGap, measured⟩ := exists_gap_of_triviaLength head
        have leads := LeadsToQuote.mk rest .nil isGap isQuote before
        rwa [List.nil_append, List.length_nil, Nat.zero_add, measured, found] at leads
      | false =>
        rw [clauseLengthFrom?_name begins quoted, Option.map_eq_some_iff] at found
        obtain ⟨length, found, rfl⟩ := found
        have shorter : following.length < ("from".toList ++ following).length := by
          rw [List.length_append]
          exact Nat.lt_add_of_pos_left (by decide)
        exact (ih following.length shorter found rfl).extend rfl (·.word_append isWord_from)
    cases text with
    | nil => cases found
    | cons character rest =>
      cases comment : commentLength? (character :: rest) with
      | some size =>
        rcases comment_or_endless comment with ⟨text, tail, same, isComment⟩ | whole
        · have shorter : tail.length < (character :: rest).length := by
            rw [same, List.length_append]
            exact Nat.lt_add_of_pos_left isComment.length_pos
          rw [same, clauseLengthFrom?_comment tail isComment, Option.map_eq_some_iff] at found
          obtain ⟨length, found, rfl⟩ := found
          rw [same]
          exact (ih tail.length shorter found rfl).extend rfl (.comment isComment)
        · rw [clauseLengthFrom?_of_comment comment, whole, List.drop_length] at found
          simp [clauseLengthFrom?] at found
      | none =>
        cases plain : isClauseCharacter character with
        | true =>
          rw [clauseLengthFrom?_character plain (by simpa using begins),
            Option.map_eq_some_iff] at found
          obtain ⟨length, found, rfl⟩ := found
          have longer {clause : List Char} (isClause : Clause clause) :
              Clause ([character] ++ clause) := .character plain isClause
          exact (ih rest.length (by simp) found rfl).extend rfl longer
        | false =>
          rw [clauseLengthFrom?_foreign plain comment] at found
          cases found

/-- The walk over a clause ends where a quote follows the `from` of the clause, and nowhere
else. -/
theorem clauseLengthFrom?_eq_some_iff {previous : Char} {text : List Char} {length : Nat} :
    clauseLengthFrom? previous 0 0 text = some length ↔ LeadsToQuote previous length text :=
  ⟨LeadsToQuote.of_clauseLengthFrom?, LeadsToQuote.clauseLengthFrom?_eq⟩

end Relink.Script
