import Mathlib

/-! # Backtracking patterns and text search

The fragment of regular expressions in which every repetition is a greedy run
over a character class, matched with backtracking, and the substring search
next to it.

* `matchPieces_run`, `matchPieces_group` — a run stops where its class ends,
  when what follows matches from there.
* `search_skip` — a pattern that opens with a literal passes over text without it.
* `infix_flatten_iff` — where a substring of joined text can be.
* `infix_fields_iff` — the words between separators.
-/

namespace FdpRocks.Library.Pattern

/-! ## Matching -/

/-- One item of a pattern: a character, or a greedy run of at least `least`
    characters of a class, whose text a group keeps. -/
inductive Piece where
  | literal (character : Char)
  | run (least : Nat) (accepts : Char → Bool)
  | group (least : Nat) (accepts : Char → Bool)

def literals (text : List Char) : List Piece := text.map .literal

structure Match where
  groups : List (List Char)
  rest : List Char
deriving DecidableEq, Repr

/-- Tries `count`, then every smaller number down to `least`. -/
def backtrack (least : Nat) (attempt : Nat → Option Match) : Nat → Option Match
  | 0 => if least = 0 then attempt 0 else none
  | count + 1 =>
    if least ≤ count + 1 then (attempt (count + 1)).or (backtrack least attempt count) else none

def matchPieces : List Piece → List Char → Option Match
  | [], text => some ⟨[], text⟩
  | .literal _ :: _, [] => none
  | .literal character :: pieces, head :: text =>
    if head = character then matchPieces pieces text else none
  | .run least accepts :: pieces, text =>
    backtrack least (fun count => matchPieces pieces (text.drop count))
      (text.takeWhile accepts).length
  | .group least accepts :: pieces, text =>
    backtrack least
      (fun count => (matchPieces pieces (text.drop count)).map
        fun found => ⟨text.take count :: found.groups, found.rest⟩)
      (text.takeWhile accepts).length

/-- The leftmost match. -/
def search (pattern : List Piece) : List Char → Option Match
  | [] => matchPieces pattern []
  | head :: text => (matchPieces pattern (head :: text)).or (search pattern text)

/-- All matches from left to right, none overlapping the one before, for a
    pattern that consumes text.  `skip` counts characters of the last match. -/
def findAll (pattern : List Piece) : Nat → List Char → List Match
  | _, [] => []
  | skip + 1, _ :: text => findAll pattern skip text
  | 0, head :: text =>
    match matchPieces pattern (head :: text) with
    | some found => found :: findAll pattern (text.length - found.rest.length) text
    | none => findAll pattern 0 text

/-! ## Runs and literals -/

theorem backtrack_first {least count : Nat} {attempt : Nat → Option Match} {found : Match}
    (enough : least ≤ count) (matched : attempt count = some found) :
    backtrack least attempt count = some found := by
  cases count with
  | zero => rw [backtrack, if_pos (Nat.le_zero.mp enough), matched]
  | succ count => rw [backtrack, if_pos enough, matched, Option.some_or]

/-- The class ends here: at the end of the text or at a character outside it. -/
def Stops (accepts : Char → Bool) (text : List Char) : Prop :=
  ∀ head ∈ text.head?, accepts head = false

theorem stops_cons {accepts : Char → Bool} {head : Char} {text : List Char}
    (outside : accepts head = false) : Stops accepts (head :: text) := by
  intro first same
  cases same
  exact outside

theorem takeWhile_stops {accepts : Char → Bool} {taken text : List Char}
    (inside : ∀ character ∈ taken, accepts character = true) (stops : Stops accepts text) :
    (taken ++ text).takeWhile accepts = taken := by
  rw [List.takeWhile_append_of_pos inside]
  cases text with
  | nil => simp
  | cons head rest => simp [stops head rfl]

/-- Text that stops the class splits in one way only. -/
theorem append_inj_of_stops {accepts : Char → Bool} {taken other text rest : List Char}
    (all : ∀ character ∈ taken, accepts character = true)
    (otherAll : ∀ character ∈ other, accepts character = true) (stops : Stops accepts text)
    (otherStops : Stops accepts rest) (same : taken ++ text = other ++ rest) :
    taken = other ∧ text = rest := by
  have parts := congrArg (List.takeWhile accepts) same
  rw [takeWhile_stops all stops, takeWhile_stops otherAll otherStops] at parts
  subst parts
  exact ⟨rfl, List.append_cancel_left same⟩

theorem matchPieces_literals (text : List Char) (pieces : List Piece) (rest : List Char) :
    matchPieces (literals text ++ pieces) (text ++ rest) = matchPieces pieces rest := by
  induction text with
  | nil => rfl
  | cons head text inductionHypothesis =>
    simpa [literals, matchPieces] using inductionHypothesis

theorem matchPieces_run (least : Nat) {accepts : Char → Bool} {pieces : List Piece}
    {taken text : List Char} {found : Match} (enough : least ≤ taken.length)
    (inside : ∀ character ∈ taken, accepts character = true) (stops : Stops accepts text)
    (continues : matchPieces pieces text = some found) :
    matchPieces (.run least accepts :: pieces) (taken ++ text) = some found := by
  rw [matchPieces, takeWhile_stops inside stops]
  apply backtrack_first enough
  rw [List.drop_left]
  exact continues

theorem matchPieces_group (least : Nat) {accepts : Char → Bool} {pieces : List Piece}
    {taken text : List Char} {found : Match} (enough : least ≤ taken.length)
    (inside : ∀ character ∈ taken, accepts character = true) (stops : Stops accepts text)
    (continues : matchPieces pieces text = some found) :
    matchPieces (.group least accepts :: pieces) (taken ++ text)
      = some ⟨taken :: found.groups, found.rest⟩ := by
  rw [matchPieces, takeWhile_stops inside stops]
  apply backtrack_first enough
  rw [List.drop_left, List.take_left, continues]
  rfl

theorem backtrack_some {least count : Nat} {attempt : Nat → Option Match} {found : Match}
    (matched : backtrack least attempt count = some found) :
    ∃ tried, attempt tried = some found := by
  induction count with
  | zero =>
    rw [backtrack] at matched
    split at matched
    · exact ⟨0, matched⟩
    · cases matched
  | succ count inductionHypothesis =>
    rw [backtrack] at matched
    split at matched
    · cases first : attempt (count + 1) with
      | some other =>
        rw [first, Option.some_or] at matched
        exact ⟨count + 1, first.trans matched⟩
      | none =>
        rw [first, Option.none_or] at matched
        exact inductionHypothesis matched
    · cases matched

/-- What a match leaves over is the end of the text. -/
theorem matchPieces_suffix {pieces : List Piece} {text : List Char} {found : Match}
    (matched : matchPieces pieces text = some found) : found.rest <:+ text := by
  induction pieces generalizing text found with
  | nil =>
    cases matched
    exact List.suffix_rfl
  | cons piece pieces inductionHypothesis =>
    cases piece with
    | literal character =>
      cases text with
      | nil => cases matched
      | cons head text =>
        rw [matchPieces] at matched
        split at matched
        · exact (inductionHypothesis matched).trans (List.suffix_cons head text)
        · cases matched
    | run least accepts =>
      obtain ⟨tried, continues⟩ := backtrack_some matched
      exact (inductionHypothesis continues).trans (List.drop_suffix tried text)
    | group least accepts =>
      obtain ⟨tried, continues⟩ := backtrack_some matched
      obtain ⟨inner, matchedInner, rfl⟩ := Option.map_eq_some_iff.mp continues
      exact (inductionHypothesis matchedInner).trans (List.drop_suffix tried text)

/-! ## Searching -/

theorem search_here {pattern : List Piece} {text : List Char} {found : Match}
    (matched : matchPieces pattern text = some found) : search pattern text = some found := by
  cases text with
  | nil => exact matched
  | cons head text => rw [search, matched, Option.some_or]

theorem search_skip {character : Char} {pieces : List Piece} {skipped : List Char}
    (absent : character ∉ skipped) (text : List Char) :
    search (.literal character :: pieces) (skipped ++ text)
      = search (.literal character :: pieces) text := by
  induction skipped with
  | nil => rfl
  | cons head skipped inductionHypothesis =>
    have different : head ≠ character := (List.ne_of_not_mem_cons absent).symm
    rw [List.cons_append, search, matchPieces, if_neg different, Option.none_or]
    exact inductionHypothesis (List.not_mem_of_not_mem_cons absent)

/-! ## All matches -/

theorem findAll_skip (pattern : List Piece) (skipped text : List Char) :
    findAll pattern skipped.length (skipped ++ text) = findAll pattern 0 text := by
  induction skipped with
  | nil => rfl
  | cons head skipped inductionHypothesis => exact inductionHypothesis

theorem findAll_literal {head character : Char} {pieces : List Piece} {text : List Char}
    {found : Match}
    (matched : matchPieces (.literal character :: pieces) (head :: text) = some found) :
    findAll (.literal character :: pieces) 0 (head :: text)
      = found :: findAll (.literal character :: pieces) 0 found.rest := by
  have ends : found.rest <:+ text := by
    rw [matchPieces] at matched
    split at matched
    · exact matchPieces_suffix matched
    · cases matched
  obtain ⟨consumed, split⟩ := ends
  rw [findAll, matched]
  dsimp only
  rw [← split, List.length_append, Nat.add_sub_cancel, findAll_skip]

theorem findAll_absent {character : Char} {pieces : List Piece} {text : List Char}
    (absent : character ∉ text) : findAll (.literal character :: pieces) 0 text = [] := by
  induction text with
  | nil => rfl
  | cons head text inductionHypothesis =>
    have different : head ≠ character := (List.ne_of_not_mem_cons absent).symm
    rw [findAll, matchPieces, if_neg different]
    exact inductionHypothesis (List.not_mem_of_not_mem_cons absent)

/-! ## Substrings -/

/-- The text from the first occurrence of `needle` on. -/
def find (needle : List Char) : List Char → Option (List Char)
  | [] => if needle = [] then some [] else none
  | head :: text =>
    if needle.isPrefixOf (head :: text) then some (head :: text) else find needle text

theorem find_suffix {needle text found : List Char} (finds : find needle text = some found) :
    found <:+ text := by
  induction text with
  | nil =>
    rw [find] at finds
    split at finds
    · cases finds
      exact List.suffix_rfl
    · cases finds
  | cons head text inductionHypothesis =>
    rw [find] at finds
    split at finds
    · cases finds
      exact List.suffix_rfl
    · exact (inductionHypothesis finds).trans (List.suffix_cons head text)

theorem find_here {needle text : List Char} (opens : needle <+: text) :
    find needle text = some text := by
  cases text with
  | nil => rw [find, if_pos (List.prefix_nil.mp opens)]
  | cons head text => rw [find, if_pos (List.isPrefixOf_iff_prefix.mpr opens)]

theorem find_opens {needle text found : List Char} (finds : find needle text = some found) :
    needle <+: found := by
  induction text with
  | nil =>
    rw [find] at finds
    split at finds
    next empty =>
      cases finds
      rw [empty]
    next => cases finds
  | cons head text inductionHypothesis =>
    rw [find] at finds
    split at finds
    next opens =>
      cases finds
      exact List.isPrefixOf_iff_prefix.mp opens
    next => exact inductionHypothesis finds

theorem find_of_infix {needle text : List Char} (inside : needle <:+: text) :
    ∃ found, find needle text = some found := by
  induction text with
  | nil => exact ⟨[], by rw [find, if_pos (List.infix_nil.mp inside)]⟩
  | cons head text inductionHypothesis =>
    rw [find]
    split
    next => exact ⟨_, rfl⟩
    next elsewhere =>
      apply inductionHypothesis
      cases List.infix_cons_iff.mp inside with
      | inl opens => exact absurd (List.isPrefixOf_iff_prefix.mpr opens) elsewhere
      | inr later => exact later

/-- An occurrence cannot straddle a character that the needle does not have. -/
theorem not_prefix_straddle {needle rest text : List Char} {barrier : Char}
    (foreign : barrier ∉ needle) (absent : ¬ needle <:+: rest) :
    ¬ needle <+: rest ++ barrier :: text := by
  intro opens
  rcases List.prefix_or_prefix_of_prefix opens (List.prefix_append rest _) with inside | ⟨tail, rfl⟩
  · exact absent inside.isInfix
  · have after := (List.prefix_append_right_inj rest).mp opens
    cases tail with
    | nil => exact absent (by rw [List.append_nil])
    | cons head tail =>
      obtain ⟨rfl, _⟩ := List.cons_prefix_cons.mp after
      exact foreign (List.mem_append_right _ List.mem_cons_self)

def contains (text needle : List Char) : Bool := (find needle text).isSome

theorem contains_iff {text needle : List Char} : contains text needle = true ↔ needle <:+: text := by
  rw [contains, Option.isSome_iff_exists]
  constructor
  · rintro ⟨found, finds⟩
    exact (find_opens finds).isInfix.trans (find_suffix finds).isInfix
  · exact find_of_infix

/-! ## Substrings of joined text -/

theorem not_infix_of_absent {character : Char} {needle text : List Char}
    (needed : character ∈ needle) (absent : character ∉ text) : ¬ needle <:+: text :=
  fun inside => absent (inside.subset needed)

/-- An occurrence starts where its first character is. -/
theorem infix_skip {first : Char} {needle skipped text : List Char} (absent : first ∉ skipped) :
    first :: needle <:+: skipped ++ text ↔ first :: needle <:+: text := by
  induction skipped with
  | nil => rfl
  | cons head skipped inductionHypothesis =>
    rw [List.cons_append, List.infix_cons_iff,
      inductionHypothesis (List.not_mem_of_not_mem_cons absent), or_iff_right]
    intro opens
    exact List.ne_of_not_mem_cons absent (List.cons_prefix_cons.mp opens).1

/-- None of these characters is in the text. -/
def Lacks (characters text : List Char) : Prop := ∀ character ∈ characters, character ∉ text

theorem lacks_iff {characters text : List Char} :
    (characters.all fun character => !text.contains character) = true ↔ Lacks characters text := by
  simp [Lacks]

instance (characters text : List Char) : Decidable (Lacks characters text) :=
  decidable_of_iff _ lacks_iff

theorem Lacks.append {characters left right : List Char} (lacksLeft : Lacks characters left)
    (lacksRight : Lacks characters right) : Lacks characters (left ++ right) := by
  intro character member inside
  cases List.mem_append.mp inside with
  | inl here => exact lacksLeft character member here
  | inr later => exact lacksRight character member later

theorem Lacks.not_infix {character : Char} {characters needle text : List Char}
    (lacks : Lacks characters text) (member : character ∈ characters)
    (needed : character ∈ needle) : ¬ needle <:+: text :=
  not_infix_of_absent needed (lacks character member)

/-- No occurrence goes on behind a text whose last character it does not have. -/
theorem infix_append_of_last {needle left right : List Char}
    (closed : ∀ last ∈ left.getLast?, last ∉ needle) (inside : needle <:+: left ++ right) :
    needle <:+: left ∨ needle <:+: right := by
  rcases List.infix_append_iff_ne_nil.mp inside with here | later | ⟨ending, _, some, _, same, suffix, _⟩
  · exact .inl here
  · exact .inr later
  · have last := List.getLast_mem some
    have member : ending.getLast some ∈ needle := by
      rw [same]
      exact List.mem_append_left _ last
    refine absurd member (closed _ ?_)
    rw [suffix.getLast some]
    exact List.getLast?_eq_some_getLast _

/-- No occurrence starts before a text whose first character it does not have. -/
theorem infix_append_of_head {needle left right : List Char}
    (opened : ∀ first ∈ right.head?, first ∉ needle) (inside : needle <:+: left ++ right) :
    needle <:+: left ∨ needle <:+: right := by
  rcases List.infix_append_iff_ne_nil.mp inside with here | later | ⟨_, rest, _, some, same, _, opens⟩
  · exact .inl here
  · exact .inr later
  · have member : rest.head some ∈ needle := by
      rw [same]
      exact List.mem_append_right _ (List.head_mem some)
    refine absurd member (opened _ ?_)
    rw [opens.head some]
    exact List.head?_eq_some_head _

theorem infix_flatten_iff {needle : List Char} (some : needle ≠ []) {chunks : List (List Char)}
    (closed : ∀ chunk ∈ chunks, ∀ last ∈ chunk.getLast?, last ∉ needle) :
    needle <:+: chunks.flatten ↔ ∃ chunk ∈ chunks, needle <:+: chunk := by
  constructor
  · intro inside
    induction chunks with
    | nil => exact absurd (List.infix_nil.mp inside) some
    | cons chunk chunks inductionHypothesis =>
      rw [List.flatten_cons] at inside
      cases infix_append_of_last (closed chunk List.mem_cons_self) inside with
      | inl here => exact ⟨chunk, List.mem_cons_self, here⟩
      | inr later =>
        obtain ⟨other, member, found⟩ := inductionHypothesis
          (fun other member => closed other (List.mem_cons_of_mem _ member)) later
        exact ⟨other, List.mem_cons_of_mem _ member, found⟩
  · rintro ⟨chunk, member, found⟩
    exact found.trans (List.infix_of_mem_flatten member)

/-! ## Fields -/

/-- A field opens a text if and only if it is the first one. -/
theorem prefix_field_iff {separator : Char} {word field rest : List Char}
    (plain : separator ∉ word) (plainField : separator ∉ field) :
    word ++ [separator] <+: field ++ separator :: rest ↔ word = field := by
  constructor
  · intro opens
    obtain ⟨later, same⟩ := opens
    have other : ∀ text : List Char, separator ∉ text →
        ∀ character ∈ text, decide (character ≠ separator) = true := by
      intro text absent character member
      exact decide_eq_true fun equal => absent (equal ▸ member)
    have stops : ∀ text, Stops (fun character => decide (character ≠ separator)) (separator :: text) :=
      fun text => stops_cons (by simp)
    rw [List.append_assoc] at same
    exact (append_inj_of_stops (other word plain) (other field plainField) (stops later) (stops rest)
      same).1
  · rintro rfl
    exact ⟨rest, by simp⟩

/-- A word between separators is in a text between separators if and only if it
    is one of its fields. -/
theorem infix_fields_iff {separator : Char} {word : List Char} (plain : separator ∉ word)
    (text : List Char) :
    separator :: word ++ [separator] <:+: separator :: text ++ [separator]
      ↔ word ∈ text.splitOn separator := by
  have noRoom : ¬ separator :: (word ++ [separator]) <:+: [separator] := by
    intro inside
    have short := inside.length_le
    simp at short
  induction h : text.length using Nat.strong_induction_on generalizing text with
  | _ length inductionHypothesis =>
    rw [List.cons_append, List.cons_append, List.infix_cons_iff, List.cons_prefix_cons]
    by_cases several : separator ∈ text
    · obtain ⟨field, rest, split, absent⟩ := List.eq_append_cons_of_mem several
      subst split
      have shorter : rest.length < length := by
        rw [← h, List.length_append, List.length_cons]
        omega
      have later : separator :: word ++ [separator] <:+: separator :: rest ++ [separator]
          ↔ word ∈ rest.splitOn separator := inductionHypothesis _ shorter rest rfl
      rw [List.splitOn_append_cons_self_of_not_mem absent, List.mem_cons, ← later]
      simp only [true_and, List.append_assoc, List.cons_append, prefix_field_iff plain absent,
        infix_skip absent]
    · rw [List.splitOn_eq_singleton several, List.mem_singleton, infix_skip several]
      simp [noRoom, prefix_field_iff plain several]

end FdpRocks.Library.Pattern
