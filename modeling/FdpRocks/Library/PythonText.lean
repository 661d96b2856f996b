import FdpRocks.Library.Numerals
import FdpRocks.Library.Pattern

/-! # Text as Python sees it

What the scripts take from Python itself: the Unicode character classes behind
`\s` and `\d`, `int` and `float` of matched text, the newline translation of
`read_text`, and `in`.  Of the classes only the ASCII part is fixed here.
-/

namespace FdpRocks.Library.PythonText

open FdpRocks.Library.Pattern FdpRocks.Library.Numerals

/-! ## Character classes -/

def isAsciiSpace (character : Char) : Bool :=
  character ∈ [' ', '\t', '\n', '\x0b', '\x0c', '\r', '\x1c', '\x1d', '\x1e', '\x1f']

/-- The interpreter's Unicode tables, known on ASCII. -/
structure Unicode where
  isSpace : Char → Bool
  isDigit : Char → Bool
  digitValue : Char → ℕ
  isSpace_ascii : ∀ character, character.toNat < 128 → isSpace character = isAsciiSpace character
  isDigit_ascii : ∀ character, character.toNat < 128 → isDigit character = character.isDigit
  digitValue_ascii : ∀ character, character.isDigit = true →
    digitValue character = character.toNat - '0'.toNat

/-- Without the characters of a class at both ends. -/
def trim (drops : Char → Bool) (text : List Char) : List Char :=
  ((text.dropWhile drops).reverse.dropWhile drops).reverse

@[simp] theorem trim_nil (drops : Char → Bool) : trim drops [] = [] := rfl

theorem trim_kept {drops : Char → Bool} {text : List Char}
    (keeps : ∀ character ∈ text, drops character = false) : trim drops text = text := by
  have kept : ∀ {word : List Char}, (∀ character ∈ word, drops character = false) →
      word.dropWhile drops = word := by
    intro word all
    cases word with
    | nil => rfl
    | cons head word => exact List.dropWhile_cons_of_neg (by simp [all head List.mem_cons_self])
  have back := @kept text.reverse fun character member => keeps character (List.mem_reverse.mp member)
  rw [trim, kept keeps, back, List.reverse_reverse]

/-- Tables that know nothing beyond ASCII. -/
def Unicode.ascii : Unicode where
  isSpace := isAsciiSpace
  isDigit := Char.isDigit
  digitValue character := character.toNat - '0'.toNat
  isSpace_ascii _ _ := rfl
  isDigit_ascii _ _ := rfl
  digitValue_ascii _ _ := rfl

theorem ascii_of_isDigit {character : Char} (digit : character.isDigit = true) :
    character.toNat < 128 := by
  obtain ⟨_, high⟩ := Char.isDigit_iff_toNat.mp digit
  exact Nat.lt_of_le_of_lt high (by decide)

namespace Unicode

variable (unicode : Unicode)

theorem isDigit_of_digit {character : Char} (digit : character.isDigit = true) :
    unicode.isDigit character = true := by
  rw [unicode.isDigit_ascii character (ascii_of_isDigit digit)]
  exact digit

theorem isSpace_of_digit {character : Char} (digit : character.isDigit = true) :
    unicode.isSpace character = false := by
  rw [unicode.isSpace_ascii character (ascii_of_isDigit digit)]
  rw [Char.isDigit_iff_toNat] at digit
  by_contra space
  rw [Bool.not_eq_false, isAsciiSpace, decide_eq_true_eq] at space
  simp only [List.mem_cons, List.not_mem_nil, or_false] at space
  rcases space with rfl | rfl | rfl | rfl | rfl | rfl | rfl | rfl | rfl | rfl <;>
    revert digit <;> decide

@[simp] theorem isSpace_blank : unicode.isSpace ' ' = true := unicode.isSpace_ascii _ (by decide)

@[simp] theorem isSpace_colon : unicode.isSpace ':' = false := unicode.isSpace_ascii _ (by decide)

@[simp] theorem isSpace_point : unicode.isSpace '.' = false := unicode.isSpace_ascii _ (by decide)

@[simp] theorem isDigit_blank : unicode.isDigit ' ' = false := unicode.isDigit_ascii _ (by decide)

@[simp] theorem isDigit_point : unicode.isDigit '.' = false := unicode.isDigit_ascii _ (by decide)

/-- `text.strip()`. -/
def strip (text : List Char) : List Char := trim unicode.isSpace text

/-- `int` of a run of digits. -/
def int (digits : List Char) : ℕ :=
  digits.foldl (fun value character => 10 * value + unicode.digitValue character) 0

theorem foldl_digits {digits : List Char}
    (ascii : ∀ character ∈ digits, character.isDigit = true) (start : ℕ) :
    digits.foldl (fun value character => 10 * value + unicode.digitValue character) start
      = Nat.ofDigitChars 10 digits start := by
  induction digits generalizing start with
  | nil => rfl
  | cons head digits inductionHypothesis =>
    rw [List.foldl_cons, Nat.ofDigitChars_cons,
      unicode.digitValue_ascii head (ascii head List.mem_cons_self)]
    exact inductionHypothesis (fun character member => ascii character (List.mem_cons_of_mem _ member)) _

theorem int_ascii {digits : List Char}
    (ascii : ∀ character ∈ digits, character.isDigit = true) :
    unicode.int digits = Nat.ofDigitChars 10 digits 0 :=
  unicode.foldl_digits ascii 0

@[simp] theorem int_decimal (value : ℕ) : unicode.int (decimal value) = value := by
  rw [unicode.int_ascii (fun _ => decimal_isDigit), decimal, Nat.ofDigitChars_ten_toDigits]

/-- `float` of text made of digits and points, exactly; `none` is `ValueError`. -/
def float (text : List Char) : Option ℚ :=
  let whole := text.takeWhile unicode.isDigit
  match text.dropWhile unicode.isDigit with
  | [] => if whole = [] then none else some (unicode.int whole : ℚ)
  | point :: fraction =>
    if point = '.' ∧ fraction.all unicode.isDigit ∧ whole ++ fraction ≠ [] then
      some ((unicode.int (whole ++ fraction) : ℚ) / 10 ^ fraction.length)
    else
      none

theorem float_pointed (places scaled : ℕ) :
    unicode.float (pointed places scaled) = some ((scaled : ℚ) / 10 ^ places) := by
  obtain ⟨whole, fraction, text, digits, someWhole, count, value, _⟩ := pointed_parts places scaled
  have inside : ∀ character ∈ whole ++ fraction, unicode.isDigit character = true :=
    fun character member => unicode.isDigit_of_digit (digits character member)
  have stops : Stops unicode.isDigit ('.' :: fraction) :=
    stops_cons unicode.isDigit_point
  have left : ∀ character ∈ whole, unicode.isDigit character = true :=
    fun character member => inside character (List.mem_append_left _ member)
  have right : fraction.all unicode.isDigit = true := by
    rw [List.all_eq_true]
    exact fun character member => inside character (List.mem_append_right _ member)
  have rest : (whole ++ '.' :: fraction).dropWhile unicode.isDigit = '.' :: fraction := by
    rw [List.dropWhile_append_of_pos left, List.dropWhile_cons_of_neg (by simp)]
  rw [text, float, takeWhile_stops left stops, rest]
  dsimp only
  rw [if_pos ⟨rfl, right, fun none => someWhole (List.append_eq_nil_iff.mp none).1⟩,
    unicode.int_ascii digits, value, count]

end Unicode

/-- `[\d.]`. -/
def digitOrPoint (unicode : Unicode) (character : Char) : Bool :=
  unicode.isDigit character || character = '.'

section DigitOrPoint

variable (unicode : Unicode)

@[simp] theorem digitOrPoint_blank : digitOrPoint unicode ' ' = false := by
  simp [digitOrPoint]

theorem digitOrPoint_pointed {places scaled : ℕ} {character : Char}
    (member : character ∈ pointed places scaled) : digitOrPoint unicode character = true := by
  cases pointed_characters member with
  | inl digit => simp [digitOrPoint, unicode.isDigit_of_digit digit]
  | inr point => simp [digitOrPoint, point]

end DigitOrPoint

/-! ## Reading files -/

/-- The newline translation of text mode: `\r\n` and a lone `\r` become `\n`. -/
def universalNewlines : List Char → List Char
  | [] => []
  | '\r' :: '\n' :: text => '\n' :: universalNewlines text
  | '\r' :: text => '\n' :: universalNewlines text
  | head :: text => head :: universalNewlines text

theorem universalNewlines_clean {clean : List Char} (noReturn : '\r' ∉ clean) (text : List Char) :
    universalNewlines (clean ++ text) = clean ++ universalNewlines text := by
  induction clean with
  | nil => rfl
  | cons head clean inductionHypothesis =>
    have different : head ≠ '\r' := (List.ne_of_not_mem_cons noReturn).symm
    rw [List.cons_append, universalNewlines,
      inductionHypothesis (List.not_mem_of_not_mem_cons noReturn), List.cons_append]
    all_goals simp [different]

/-- Text is translated piece by piece, unless a piece opens with `\n`. -/
theorem universalNewlines_append (before after : List Char) (opens : after.head? ≠ some '\n') :
    universalNewlines (before ++ after) = universalNewlines before ++ universalNewlines after := by
  induction before using universalNewlines.induct with
  | case1 => rfl
  | case2 text inductionHypothesis =>
    simp [universalNewlines, inductionHypothesis]
  | case3 text single inductionHypothesis =>
    -- A lone `\r` stays alone: what follows it is not `\n` on either side.
    cases text with
    | nil =>
      cases after with
      | nil => rfl
      | cons head after =>
        have different : head ≠ '\n' := by simpa using opens
        simp [universalNewlines, different]
    | cons head text =>
      have different : head ≠ '\n' := by
        rintro rfl
        exact single text rfl
      rw [List.cons_append, List.cons_append, universalNewlines, universalNewlines]
      · rw [← List.cons_append, inductionHypothesis, List.cons_append]
      all_goals simp [different]
  | case4 head text noPair noReturn inductionHypothesis =>
    have different : head ≠ '\r' := noReturn
    rw [List.cons_append, universalNewlines, universalNewlines, inductionHypothesis,
      List.cons_append]
    all_goals simp [different]

theorem prefix_of_universalNewlines {needle text : List Char} (oneLine : '\n' ∉ needle)
    (opens : needle <+: universalNewlines text) : needle <+: text := by
  induction text using universalNewlines.induct generalizing needle with
  | case1 => exact opens
  | case2 text inductionHypothesis =>
    cases needle with
    | nil => exact List.nil_prefix
    | cons first needle =>
      obtain ⟨rfl, _⟩ := List.cons_prefix_cons.mp opens
      exact absurd List.mem_cons_self oneLine
  | case3 text single inductionHypothesis =>
    cases needle with
    | nil => exact List.nil_prefix
    | cons first needle =>
      rw [universalNewlines] at opens
      · obtain ⟨rfl, _⟩ := List.cons_prefix_cons.mp opens
        exact absurd List.mem_cons_self oneLine
      · exact single
  | case4 head text noPair noReturn inductionHypothesis =>
    cases needle with
    | nil => exact List.nil_prefix
    | cons first needle =>
      rw [universalNewlines] at opens
      · obtain ⟨rfl, rest⟩ := List.cons_prefix_cons.mp opens
        rw [List.cons_prefix_cons]
        exact ⟨rfl, inductionHypothesis (List.not_mem_of_not_mem_cons oneLine) rest⟩
      all_goals assumption

/-- One character stays one character: what the translation opens with was there. -/
theorem infix_of_translated {needle text : List Char} {head image : Char} (oneLine : '\n' ∉ needle)
    (translated : universalNewlines (head :: text) = image :: universalNewlines text)
    (later : needle <:+: universalNewlines text → needle <:+: text)
    (inside : needle <:+: universalNewlines (head :: text)) : needle <:+: head :: text := by
  rw [translated, List.infix_cons_iff, ← translated] at inside
  cases inside with
  | inl opens => exact (prefix_of_universalNewlines oneLine opens).isInfix
  | inr behind => exact List.infix_cons (later behind)

/-- Translation makes no one-line text appear that was not there. -/
theorem infix_of_universalNewlines {needle text : List Char} (oneLine : '\n' ∉ needle)
    (inside : needle <:+: universalNewlines text) : needle <:+: text := by
  induction text using universalNewlines.induct with
  | case1 => exact inside
  | case2 text inductionHypothesis =>
    rw [universalNewlines, List.infix_cons_iff] at inside
    rcases inside with opens | later
    · exact (@prefix_of_universalNewlines _ ('\r' :: '\n' :: text) oneLine opens).isInfix
    · exact List.infix_cons (List.infix_cons (inductionHypothesis later))
  | case3 text single inductionHypothesis =>
    have translated : universalNewlines ('\r' :: text) = '\n' :: universalNewlines text := by
      rw [universalNewlines]
      exact single
    exact infix_of_translated oneLine translated inductionHypothesis inside
  | case4 head text noPair noReturn inductionHypothesis =>
    have translated : universalNewlines (head :: text) = head :: universalNewlines text := by
      rw [universalNewlines]
      all_goals assumption
    exact infix_of_translated oneLine translated inductionHypothesis inside

/-! ## Exceptions -/

inductive Raised where
  | valueError (message : List Char)
  | zeroDivisionError
  | overflowError
deriving DecidableEq

/-- A computation that may raise; `none` once a loop has run out of fuel. -/
abbrev Script := ExceptT Raised Option

variable {α β : Type}

def Returns (script : Script α) (value : α) : Prop := script.run = some (.ok value)

theorem returns_unique {script : Script α} {value other : α} (first : Returns script value)
    (second : Returns script other) : value = other := by
  unfold Returns at first second
  rw [first] at second
  cases second
  rfl

/-- A sequence returns when its first part returns and its second part does after it. -/
theorem returns_bind {script : Script α} {rest : α → Script β} {value : β} :
    Returns (script >>= rest) value ↔
      ∃ middle, Returns script middle ∧ Returns (rest middle) value := by
  simp only [Returns, ExceptT.run_bind, Option.bind_eq_bind]
  cases script.run with
  | none => simp
  | some outcome => cases outcome <;> simp

@[simp] theorem returns_pure {value other : α} : Returns (pure other) value ↔ other = value := by
  simp [Returns]

@[simp] theorem returns_throw {raised : Raised} {value : α} :
    ¬ Returns (throw raised) value := by
  simp [Returns]

@[simp] theorem returns_lift {given : Option α} {value : α} :
    Returns (liftM given) value ↔ given = some value := by
  cases given with
  | none =>
    show none = some _ ↔ none = some _
    simp
  | some other =>
    show some (Except.ok other) = some (.ok value) ↔ some other = some value
    simp

/-- A traversal that returns is a map when each of its steps can return one value only. -/
theorem returns_mapM {step : α → Script β} {result : α → β}
    (only : ∀ item value, Returns (step item) value → value = result item)
    {items : List α} {values : List β} (returns : Returns (items.mapM step) values) :
    values = items.map result ∧ ∀ item ∈ items, Returns (step item) (result item) := by
  induction items generalizing values with
  | nil =>
    rw [List.mapM_nil, returns_pure] at returns
    simp [← returns]
  | cons item items inductionHypothesis =>
    rw [List.mapM_cons, returns_bind] at returns
    obtain ⟨value, first, returns⟩ := returns
    rw [returns_bind] at returns
    obtain ⟨others, rest, returns⟩ := returns
    rw [returns_pure] at returns
    obtain ⟨rfl, all⟩ := inductionHypothesis rest
    cases only item value first
    subst returns
    refine ⟨rfl, ?_⟩
    intro each member
    cases List.mem_cons.mp member with
    | inl same => exact same ▸ first
    | inr later => exact all each later

/-! ### Arithmetic -/

/-- Ends in an exception that is no `ValueError`. -/
def Fails (script : Script α) : Prop :=
  ∃ raised, (∀ message, raised ≠ .valueError message) ∧ script = throw raised

theorem fails_zeroDivision : Fails (throw .zeroDivisionError : Script α) :=
  ⟨_, fun message => by simp, rfl⟩

theorem fails_overflow : Fails (throw .overflowError : Script α) := ⟨_, fun message => by simp, rfl⟩

theorem Fails.bind {script : Script α} (fails : Fails script) (rest : α → Script β) :
    Fails (script >>= rest) := by
  obtain ⟨raised, other, rfl⟩ := fails
  exact ⟨raised, other, rfl⟩

/-! ## One result after the other -/

theorem mapM_of_forall {M : Type → Type} [Monad M] [LawfulMonad M] {step : α → M β} {result : α → β}
    {items : List α} (each : ∀ item ∈ items, step item = pure (result item)) :
    items.mapM step = pure (items.map result) := by
  induction items with
  | nil => simp
  | cons item items inductionHypothesis =>
    obtain ⟨here, later⟩ := List.forall_mem_cons.mp each
    rw [List.mapM_cons, here, inductionHypothesis later]
    simp

/-- Where each step gives a value or fails, one that fails is enough. -/
theorem mapM_fails {step : α → Script β} {items : List α}
    (each : ∀ item ∈ items, (∃ result, step item = pure result) ∨ Fails (step item))
    (some : ∃ item ∈ items, Fails (step item)) : Fails (items.mapM step) := by
  induction items with
  | nil =>
    obtain ⟨item, member, _⟩ := some
    cases member
  | cons item items inductionHypothesis =>
    obtain ⟨here, later⟩ := List.forall_mem_cons.mp each
    rw [List.mapM_cons]
    rcases here with ⟨result, gives⟩ | fails
    · rcases (List.exists_mem_cons_iff _ _ _).mp some with fails | others
      · exact fails.bind _
      · rw [gives, pure_bind]
        exact (inductionHypothesis later others).bind _
    · exact fails.bind _

theorem mapM_congr {M : Type → Type} [Monad M] [LawfulMonad M] {step other : α → M β} {items : List α}
    (same : ∀ item ∈ items, step item = other item) : items.mapM step = items.mapM other := by
  induction items with
  | nil => simp
  | cons item items inductionHypothesis =>
    obtain ⟨here, later⟩ := List.forall_mem_cons.mp same
    rw [List.mapM_cons, List.mapM_cons, here, inductionHypothesis later]

section Order

variable {Error A B : Type} {step : A → Except Error B}

/-- The first failure is what remains. -/
theorem mapM_error {before after : List A} {item : A} {error : Error}
    (each : ∀ other ∈ before, ∃ result, step other = .ok result) (fails : step item = .error error) :
    (before ++ item :: after).mapM step = .error error := by
  induction before with
  | nil =>
    rw [List.nil_append, List.mapM_cons, fails]
    rfl
  | cons other before inductionHypothesis =>
    obtain ⟨result, here⟩ := each other List.mem_cons_self
    have later := inductionHypothesis fun item member => each item (List.mem_cons_of_mem _ member)
    rw [List.cons_append, List.mapM_cons, here, later]
    rfl

/-- Each result comes from its item. -/
theorem forall₂_of_mapM {items : List A} {results : List B} (ok : items.mapM step = .ok results) :
    List.Forall₂ (fun item result => step item = .ok result) items results := by
  induction items generalizing results with
  | nil =>
    cases ok
    exact .nil
  | cons item items inductionHypothesis =>
    rw [List.mapM_cons] at ok
    cases here : step item with
    | error failure =>
      rw [here] at ok
      cases ok
    | ok result =>
      cases later : items.mapM step with
      | error failure =>
        rw [here, later] at ok
        cases ok
      | ok others =>
        rw [here, later] at ok
        cases ok
        exact .cons here (inductionHypothesis later)

theorem exists_of_mem_mapM {items : List A} {results : List B} (ok : items.mapM step = .ok results)
    {result : B} (member : result ∈ results) : ∃ item ∈ items, step item = .ok result := by
  have each := forall₂_of_mapM ok
  clear ok
  induction each with
  | nil => cases member
  | cons here _ inductionHypothesis =>
    cases member with
    | head => exact ⟨_, List.mem_cons_self, here⟩
    | tail _ later =>
      obtain ⟨item, listed, found⟩ := inductionHypothesis later
      exact ⟨item, List.mem_cons_of_mem _ listed, found⟩

end Order

end FdpRocks.Library.PythonText
