import FdpRocks.Benchmark.WriteAmplification
import FdpRocks.Library.Loop
import FdpRocks.Library.PythonText

/-! # `wa_blocks`

Both converters look for write-amplification blocks in the same way: from every
occurrence of the first line's label, three patterns are searched for in a
window of 700 characters.  `legacy_logs_to_wa_csv.py` keeps where each block
was found; `results_to_wa_csv.py` insists on a last block with user bytes.
-/

namespace FdpRocks.Scripts

open FdpRocks.Library.Loop FdpRocks.Library.Numerals FdpRocks.Library.Pattern
open FdpRocks.Library.PythonText FdpRocks.Benchmark

/-- One tuple `(user, flush, compact)`. -/
@[ext] structure Sample where
  user : ℕ
  flush : ℕ
  compact : ℕ
deriving DecidableEq, Repr

/-- What the searches look for first. -/
def marker : List Char := "User bytes written (ingest):".toList

variable (unicode : Unicode)

/-- A label, white space, and a captured number: `label:\s+(\d+)`. -/
def labelled (label : List Char) : List Piece :=
  literals label ++ [.run 1 unicode.isSpace, .group 1 unicode.isDigit]

/-- `USER_RE`. -/
def userRe : List Piece := labelled unicode marker

/-- `FLUSH_RE`. -/
def flushRe : List Piece := labelled unicode "Flush bytes written:".toList

/-- `COMPACT_RE`. -/
def compactRe : List Piece := labelled unicode "Compaction bytes written:".toList

/-- `int(match.group(1))`. -/
def firstGroup (found : Match) : ℕ := unicode.int (found.groups.headD [])

/-- The tuple of one window, if all three patterns match. -/
def readSample (chunk : List Char) : Option Sample :=
  match search (userRe unicode) chunk, search (flushRe unicode) chunk,
    search (compactRe unicode) chunk with
  | some user, some flush, some compact =>
    some ⟨firstGroup unicode user, firstGroup unicode flush, firstGroup unicode compact⟩
  | _, _, _ => none

/-- The variables of the loop: `position`, the text from there on, `blocks`. -/
structure Scan where
  position : ℕ
  rest : List Char
  blocks : List (ℕ × Sample)

def scanTurn (scan : Scan) : Turn Scan (List (ℕ × Sample)) :=
  match find marker scan.rest with
  | none => .done scan.blocks
  | some found =>
    let start := scan.position + (scan.rest.length - found.length)
    let block := (readSample unicode (found.take 700)).toList.map fun sample => (start, sample)
    .again ⟨start + 1, found.tail, scan.blocks ++ block⟩

/-- `wa_blocks` of `legacy_logs_to_wa_csv.py`, each block with its `start`. -/
def locatedBlocks (text : List Char) : Option (List (ℕ × Sample)) :=
  run (scanTurn unicode) (text.length + 1) ⟨0, text, []⟩

/-- `wa_blocks` of `results_to_wa_csv.py`, on a file with this content. -/
def waBlocks (path content : List Char) : Option (Except Raised (List Sample)) :=
  (locatedBlocks unicode (universalNewlines content)).map fun located =>
    let blocks := located.map Prod.snd
    if blocks.getLast?.all (fun last => last.user ≤ 0) then
      .error (.valueError ("No valid write-amplification samples in ".toList ++ path))
    else
      .ok blocks

/-! ## The loop finds every occurrence -/

/-- The blocks of a text that starts at `position`, one occurrence at a time. -/
def blocksFrom (position : ℕ) : List Char → List (ℕ × Sample)
  | [] => []
  | head :: text =>
    (if marker.isPrefixOf (head :: text)
      then (readSample unicode ((head :: text).take 700)).toList.map fun sample => (position, sample)
      else [])
    ++ blocksFrom (position + 1) text

theorem scanTurn_skip {position : ℕ} {head : Char} {text : List Char} {blocks : List (ℕ × Sample)}
    (absent : ¬ marker <+: head :: text) :
    scanTurn unicode ⟨position, head :: text, blocks⟩
      = scanTurn unicode ⟨position + 1, text, blocks⟩ := by
  have same : find marker (head :: text) = find marker text := by
    rw [find, if_neg (fun opens => absent (List.isPrefixOf_iff_prefix.mp opens))]
  unfold scanTurn
  dsimp only
  rw [same]
  cases finds : find marker text with
  | none => rfl
  | some found =>
    have shorter := (find_suffix finds).length_le
    have start : position + ((head :: text).length - found.length)
        = position + 1 + (text.length - found.length) := by
      rw [List.length_cons]
      omega
    simp only [start]

theorem scan_run (text : List Char) {fuel : ℕ} (enough : text.length < fuel) (position : ℕ)
    (blocks : List (ℕ × Sample)) :
    run (scanTurn unicode) fuel ⟨position, text, blocks⟩
      = some (blocks ++ blocksFrom unicode position text) := by
  induction text generalizing fuel position blocks with
  | nil =>
    obtain ⟨fuel, rfl⟩ := Nat.exists_eq_succ_of_ne_zero (Nat.ne_zero_of_lt enough)
    have finished : scanTurn unicode ⟨position, [], blocks⟩ = .done blocks := rfl
    rw [run_done finished, blocksFrom, List.append_nil]
  | cons head text inductionHypothesis =>
    rw [List.length_cons] at enough
    obtain ⟨fuel, rfl⟩ := Nat.exists_eq_succ_of_ne_zero (Nat.ne_zero_of_lt enough)
    by_cases here : marker <+: head :: text
    · have turn : scanTurn unicode ⟨position, head :: text, blocks⟩
          = .again ⟨position + 1, text, blocks ++ (readSample unicode ((head :: text).take 700)).toList.map
            fun sample => (position, sample)⟩ := by
        unfold scanTurn
        rw [find_here here]
        simp
      rw [run_again turn, inductionHypothesis (by omega), blocksFrom,
        if_pos (List.isPrefixOf_iff_prefix.mpr here), List.append_assoc]
    · -- The search goes on as if it had started one character later.
      have same := @scanTurn_skip unicode position head text blocks here
      have later := @inductionHypothesis (fuel + 1) (by omega) (position + 1) blocks
      rw [run, ← same, ← run] at later
      rw [later, blocksFrom, if_neg (fun opens => here (List.isPrefixOf_iff_prefix.mp opens)),
        List.nil_append]

theorem locatedBlocks_eq (text : List Char) :
    locatedBlocks unicode text = some (blocksFrom unicode 0 text) :=
  scan_run unicode text (Nat.lt_succ_self _) 0 []

theorem waBlocks_eq (path content : List Char) :
    waBlocks unicode path content
      = some (let blocks := (blocksFrom unicode 0 (universalNewlines content)).map Prod.snd
        if blocks.getLast?.all (fun last => last.user ≤ 0) then
          .error (.valueError ("No valid write-amplification samples in ".toList ++ path))
        else
          .ok blocks) := by
  rw [waBlocks, locatedBlocks_eq]
  rfl

end FdpRocks.Scripts
