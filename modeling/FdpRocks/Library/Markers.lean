import FdpRocks.Library.PythonText

/-! # Text between markers

A word that no end of it opens again cannot overlap itself, so that text without
it may stand before any of its occurrences.  Searching, collecting and splitting
then go from one occurrence to the next.

* `search_gap`, `findAll_closed` — a pattern that opens with such a word passes over a gap.
* `split_pieces` — splitting undoes joining.
* `findAll_line` — nothing is found in a line without the word, in text mode.
-/

namespace FdpRocks.Library.Pattern

/-- No proper end of the word opens it. -/
def Unbordered (word : List Char) : Prop :=
  ∀ kept < word.length, 0 < kept → ¬ word.drop kept <+: word

instance (word : List Char) : Decidable (Unbordered word) :=
  inferInstanceAs (Decidable (∀ kept < word.length, 0 < kept → ¬ word.drop kept <+: word))

/-! ## Gaps -/

section Gaps

variable {word gap text : List Char} {pieces : List Piece}

/-- An occurrence does not start in a gap and end behind it. -/
theorem Unbordered.not_prefix (unbordered : Unbordered word) (some : gap ≠ [])
    (absent : ¬ word <:+: gap) : ¬ word <+: gap ++ (word ++ text) := by
  intro opens
  cases List.prefix_or_prefix_of_prefix opens (List.prefix_append gap _) with
  | inl inside => exact absent inside.isInfix
  | inr covers =>
    obtain ⟨ending, same⟩ := covers
    have behind : ending <+: word ++ text := by
      apply (List.prefix_append_right_inj gap).mp
      rw [same]
      exact opens
    have short : ending.length ≤ word.length := by
      rw [← same, List.length_append]
      exact Nat.le_add_left _ _
    have reopens : ending <+: word := List.prefix_of_prefix_length_le behind (List.prefix_append _ _) short
    have dropped : word.drop gap.length = ending := by rw [← same, List.drop_left]
    have long : gap.length < word.length := by
      by_contra whole
      have gone : ending = [] := by rw [← dropped, List.drop_of_length_le (by omega)]
      rw [gone, List.append_nil] at same
      exact absent (same ▸ List.infix_refl gap)
    refine unbordered gap.length long (List.length_pos_of_ne_nil some) ?_
    rw [dropped]
    exact reopens

theorem matchPieces_absent (absent : ¬ word <+: text) :
    matchPieces (literals word ++ pieces) text = none := by
  induction word generalizing text with
  | nil => exact absurd List.nil_prefix absent
  | cons first word inductionHypothesis =>
    cases text with
    | nil => rfl
    | cons head text =>
      rw [literals, List.map_cons, List.cons_append, matchPieces]
      split
      next same =>
        subst same
        exact inductionHypothesis fun opens => absent (List.cons_prefix_cons.mpr ⟨rfl, opens⟩)
      next => rfl

/-- Nothing but the gap is between here and the next occurrence. -/
theorem gap_cons {head : Char} (unbordered : Unbordered word) (absent : ¬ word <:+: head :: gap) :
    ¬ word <+: head :: (gap ++ (word ++ text)) ∧ ¬ word <:+: gap :=
  ⟨unbordered.not_prefix (List.cons_ne_nil head gap) absent,
    fun inside => absent (List.infix_cons inside)⟩

theorem search_gap (unbordered : Unbordered word) (absent : ¬ word <:+: gap) :
    search (literals word ++ pieces) (gap ++ (word ++ text))
      = search (literals word ++ pieces) (word ++ text) := by
  induction gap with
  | nil => rfl
  | cons head gap inductionHypothesis =>
    obtain ⟨here, later⟩ := @gap_cons word gap text head unbordered absent
    rw [List.cons_append, search, matchPieces_absent here, Option.none_or]
    exact inductionHypothesis later

theorem search_absent (absent : ¬ word <:+: text) : search (literals word ++ pieces) text = none := by
  induction text with
  | nil => exact matchPieces_absent fun opens => absent opens.isInfix
  | cons head text inductionHypothesis =>
    rw [search, matchPieces_absent fun opens => absent opens.isInfix, Option.none_or]
    exact inductionHypothesis fun inside => absent (List.infix_cons inside)

/-- Nothing starts in a gap whose last character the word does not have. -/
theorem findAll_closed (absent : ¬ word <:+: gap) (closed : ∀ last ∈ gap.getLast?, last ∉ word) :
    findAll (literals word ++ pieces) 0 (gap ++ text) = findAll (literals word ++ pieces) 0 text := by
  induction gap with
  | nil => rfl
  | cons head gap inductionHypothesis =>
    have elsewhere : ¬ word <+: head :: (gap ++ text) := by
      intro opens
      cases List.prefix_or_prefix_of_prefix opens (List.prefix_append (head :: gap) text) with
      | inl inside => exact absent inside.isInfix
      | inr covers =>
        have isLast := List.getLast?_eq_some_getLast (List.cons_ne_nil head gap)
        exact closed _ isLast (covers.subset (List.getLast_mem _))
    have later : ∀ last ∈ gap.getLast?, last ∉ word := by
      intro last isLast
      cases gap with
      | nil => cases isLast
      | cons next gap => exact closed last isLast
    rw [List.cons_append, findAll, matchPieces_absent elsewhere]
    exact inductionHypothesis (fun inside => absent (List.infix_cons inside)) later

end Gaps

/-! ## Sealed texts -/

/-- The word is not in the text and does not start at its end. -/
structure Sealed (word text : List Char) : Prop where
  absent : ¬ word <:+: text
  closed : ∀ last ∈ text.getLast?, last ∉ word

namespace Sealed

variable {word text more : List Char}

theorem append (isSealed : Sealed word text) (moreSealed : Sealed word more) :
    Sealed word (text ++ more) where
  absent inside := (infix_append_of_last isSealed.closed inside).elim isSealed.absent moreSealed.absent
  closed last isLast := by
    cases more with
    | nil =>
      rw [List.append_nil] at isLast
      exact isSealed.closed last isLast
    | cons head more =>
      rw [List.getLast?_append_of_ne_nil _ (List.cons_ne_nil head more)] at isLast
      exact moreSealed.closed last isLast

theorem check_iff {word text : List Char} :
    (!contains text word && text.getLast?.all fun last => !word.contains last) = true ↔
      Sealed word text := by
  have inside : contains text word = false ↔ ¬ word <:+: text := by
    rw [← contains_iff, Bool.not_eq_true]
  simp only [Bool.and_eq_true, Bool.not_eq_true', inside, Option.all_eq_true, List.contains_eq_mem,
    decide_eq_false_iff_not]
  exact ⟨fun both => ⟨both.1, both.2⟩, fun isSealed => ⟨isSealed.absent, isSealed.closed⟩⟩

instance (word text : List Char) : Decidable (Sealed word text) := decidable_of_iff _ check_iff

theorem of_lacks (some : word ≠ []) (lacks : Lacks word text) : Sealed word text where
  absent := lacks.not_infix (List.head_mem some) (List.head_mem some)
  closed last isLast member := lacks last member (List.mem_of_getLast? isLast)

end Sealed

/-! ## Splitting -/

/-- The pieces between the occurrences of a separator, none overlapping the one
    before: the first piece and the others.  `skip` counts characters of the
    last occurrence. -/
def split (separator : List Char) : ℕ → List Char → List Char × List (List Char)
  | _, [] => ([], [])
  | skip + 1, _ :: text => split separator skip text
  | 0, head :: text =>
    if separator.isPrefixOf (head :: text) then
      let later := split separator (separator.length - 1) text
      ([], later.1 :: later.2)
    else
      let later := split separator 0 text
      (head :: later.1, later.2)

section Split

variable {separator gap text : List Char}

theorem split_skip (skipped text : List Char) :
    split separator skipped.length (skipped ++ text) = split separator 0 text := by
  induction skipped with
  | nil => rfl
  | cons head skipped inductionHypothesis => exact inductionHypothesis

theorem split_separator (some : separator ≠ []) :
    split separator 0 (separator ++ text)
      = ([], (split separator 0 text).1 :: (split separator 0 text).2) := by
  cases separator with
  | nil => exact absurd rfl some
  | cons first rest =>
    have opens : (first :: rest).isPrefixOf (first :: (rest ++ text)) = true :=
      List.isPrefixOf_iff_prefix.mpr (List.prefix_append (first :: rest) text)
    rw [List.cons_append, split, if_pos opens]
    show ([], (split _ rest.length _).1 :: (split _ rest.length _).2) = _
    rw [split_skip]

theorem split_gap (unbordered : Unbordered separator) (absent : ¬ separator <:+: gap) :
    split separator 0 (gap ++ (separator ++ text))
      = (gap ++ (split separator 0 (separator ++ text)).1, (split separator 0 (separator ++ text)).2) := by
  induction gap with
  | nil => rfl
  | cons head gap inductionHypothesis =>
    obtain ⟨here, later⟩ := @gap_cons separator gap text head unbordered absent
    rw [List.cons_append, split, if_neg fun opens => here (List.isPrefixOf_iff_prefix.mp opens),
      inductionHypothesis later]
    rfl

theorem split_absent (absent : ¬ separator <:+: text) : split separator 0 text = (text, []) := by
  induction text with
  | nil => rfl
  | cons head text inductionHypothesis =>
    have elsewhere : ¬ separator.isPrefixOf (head :: text) = true :=
      fun opens => absent (List.isPrefixOf_iff_prefix.mp opens).isInfix
    rw [split, if_neg elsewhere, inductionHypothesis fun inside => absent (List.infix_cons inside)]

/-- Pieces without the separator come back as they were. -/
theorem split_pieces (unbordered : Unbordered separator) (some : separator ≠ [])
    {first : List Char} {pieces : List (List Char)} (firstFree : ¬ separator <:+: first)
    (free : ∀ piece ∈ pieces, ¬ separator <:+: piece) :
    split separator 0 (first ++ pieces.flatMap (separator ++ ·)) = (first, pieces) := by
  induction pieces generalizing first with
  | nil =>
    rw [List.flatMap_nil, List.append_nil]
    exact split_absent firstFree
  | cons piece pieces inductionHypothesis =>
    have later := inductionHypothesis (free piece List.mem_cons_self)
      fun other member => free other (List.mem_cons_of_mem _ member)
    rw [List.flatMap_cons, List.append_assoc, split_gap unbordered firstFree, split_separator some,
      later, List.append_nil]

end Split

end FdpRocks.Library.Pattern

namespace FdpRocks.Library.PythonText

open FdpRocks.Library.Pattern

/-! ## Lines in text mode -/

/-- A seam is seen only where it cuts `\r\n` in two; then the translation is
    that of the line before it. -/
theorem universalNewlines_seam (before after : List Char) :
    universalNewlines (before ++ after) = universalNewlines before ++ universalNewlines after ∨
      ∃ rest, after = '\n' :: rest ∧
        universalNewlines (before ++ after) = universalNewlines before ++ universalNewlines rest := by
  by_cases opens : after.head? = some '\n'
  · obtain ⟨rest, rfl⟩ := List.head?_eq_some_iff.mp opens
    induction before using universalNewlines.induct with
    | case1 => exact .inl rfl
    | case2 text inductionHypothesis => simpa [universalNewlines] using inductionHypothesis
    | case3 text single inductionHypothesis =>
      cases text with
      | nil => exact .inr ⟨rest, rfl, by simp [universalNewlines]⟩
      | cons head text =>
        have different : head ≠ '\n' := by
          rintro rfl
          exact single text rfl
        simpa [universalNewlines, different] using inductionHypothesis
    | case4 head text noPair noReturn inductionHypothesis =>
      have different : head ≠ '\r' := noReturn
      simpa [universalNewlines, different] using inductionHypothesis
  · exact .inl (universalNewlines_append before after opens)

theorem universalNewlines_getLast? (text : List Char) : (universalNewlines text).getLast?
    = text.getLast?.map fun last => if last = '\r' then '\n' else last := by
  induction text using universalNewlines.induct with
  | case1 => rfl
  | case2 text inductionHypothesis =>
    simp only [universalNewlines, List.getLast?_cons, inductionHypothesis]
    cases text.getLast? <;> simp
  | case3 text single inductionHypothesis =>
    rw [universalNewlines]
    · simp only [List.getLast?_cons, inductionHypothesis]
      cases text.getLast? <;> simp
    · exact single
  | case4 head text noPair noReturn inductionHypothesis =>
    have different : head ≠ '\r' := noReturn
    rw [universalNewlines]
    · simp only [List.getLast?_cons, inductionHypothesis]
      cases text.getLast? <;> simp [different]
    all_goals assumption

/-- The translation keeps a word without breaks. -/
theorem infix_universalNewlines {word text : List Char} (noReturn : '\r' ∉ word)
    (noBreak : '\n' ∉ word) (inside : word <:+: text) : word <:+: universalNewlines text := by
  obtain ⟨before, after, rfl⟩ := inside
  cases word with
  | nil => exact List.nil_infix
  | cons first word =>
    have opens : ((first :: word) ++ after).head? ≠ some '\n' := by
      rintro same
      cases same
      exact noBreak List.mem_cons_self
    rw [List.append_assoc, universalNewlines_append _ _ opens, universalNewlines_clean noReturn,
      ← List.append_assoc]
    exact List.infix_append _ _ _

/-- A line without the word adds nothing to what is found. -/
theorem findAll_line {word line text : List Char} {pieces : List Piece} (oneLine : '\n' ∉ word)
    (someWord : word ≠ []) (absent : ¬ word <:+: line)
    (ended : ∀ last ∈ line.getLast?, last ∈ ['\n', '\r']) :
    findAll (literals word ++ pieces) 0 (universalNewlines (line ++ text))
      = findAll (literals word ++ pieces) 0 (universalNewlines text) := by
  have free : ¬ word <:+: universalNewlines line :=
    fun inside => absent (infix_of_universalNewlines oneLine inside)
  have closed : ∀ last ∈ (universalNewlines line).getLast?, last ∉ word := by
    intro last isLast
    rw [universalNewlines_getLast?] at isLast
    obtain ⟨original, known, rfl⟩ := Option.map_eq_some_iff.mp isLast
    have ends := ended original known
    have same : (if original = '\r' then '\n' else original) = '\n' := by
      simp at ends
      rcases ends with rfl | rfl <;> decide
    rw [same]
    exact oneLine
  rcases universalNewlines_seam line text with seam | ⟨rest, rfl, seam⟩
  · rw [seam, findAll_closed free closed]
  · have alone : ¬ word <:+: ['\n'] := by
      intro inside
      obtain ⟨first, member⟩ := List.exists_mem_of_ne_nil word someWord
      have isBreak := List.mem_singleton.mp (inside.subset member)
      exact oneLine (isBreak ▸ member)
    have broken : universalNewlines ('\n' :: rest) = ['\n'] ++ universalNewlines rest :=
      @universalNewlines_clean ['\n'] (by decide) rest
    rw [seam, findAll_closed free closed, broken, findAll_closed alone (by simpa using oneLine)]

end FdpRocks.Library.PythonText
