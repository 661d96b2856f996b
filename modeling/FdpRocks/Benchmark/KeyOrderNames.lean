import FdpRocks.Benchmark.PrepareKeysSoundness
import FdpRocks.Library.Pattern

/-! # The names of the key-order files

A generated name is read from both ends: the numbers in front stop where their
digits do, and the thread id behind the sort order starts after the last
underscore, whatever the sort order is.

* `keyFile_toList` — the parts of a name.
* `keyFile_noAlias` — settings that share a file generate the same keys.
-/

namespace FdpRocks.Benchmark

open FdpRocks.Library.Numerals FdpRocks.Library.Pattern

variable {flags other : Flags} {tid otherTid : UInt32}

/-! ## Parts of a name -/

/-- The thread id as the signed number that is printed. -/
def tidText (tid : UInt32) : List Char := (toString tid.toInt32.toInt).toList

def sortText (flags : Flags) : List Char :=
  if flags.keyDistribution = "uniform" then "_sort_".toList ++ flags.keySort.toList else []

/-- What follows the distribution. -/
def nameEnd (flags : Flags) (tid : UInt32) : List Char :=
  sortText flags ++ ("_tid_".toList ++ (tidText tid ++ ".bin".toList))

theorem keyFile_toList (generated : flags.keyFilePath = "") (tid : UInt32) :
    (keyFile flags tid).toList = flags.keyOrderDir.toList ++ ("/keys_num_".toList
      ++ (decimal flags.num.toNat ++ ("_threads_".toList ++ (decimal flags.workerThreads.toNat
      ++ ("_dist_".toList ++ (flags.keyDistribution.toList ++ nameEnd flags tid)))))) := by
  have num : (toString flags.num).toList = decimal flags.num.toNat := Nat.toList_repr
  have threads : (toString flags.workerThreads).toList = decimal flags.workerThreads.toNat :=
    Nat.toList_repr
  by_cases uniform : flags.keyDistribution = "uniform" <;>
    simp [keyFile, getKeyOrderFilePath, generated, uniform, num, threads, nameEnd, sortText, tidText]

theorem tidText_injective (same : tidText tid = tidText otherTid) : tid = otherTid := by
  have signed : tid.toInt32 = otherTid.toInt32 :=
    Int32.toInt_inj.mp (Int.repr_inj.mp (String.toList_inj.mp same))
  simpa using congrArg Int32.toUInt32 signed

theorem not_mem_tidText (tid : UInt32) : '_' ∉ tidText tid := by
  rw [tidText, Int.toString_eq_repr, Int.repr_eq_if]
  split <;> simp

/-! ## Reading a name -/

theorem threads_stop (rest : List Char) : Stops Char.isDigit ("_threads_".toList ++ rest) :=
  stops_cons rfl

theorem dist_stop (rest : List Char) : Stops Char.isDigit ("_dist_".toList ++ rest) :=
  stops_cons rfl

theorem decimal_inj_of_stops {number otherNumber : ℕ} {rest otherRest : List Char}
    (stops : Stops Char.isDigit rest) (otherStops : Stops Char.isDigit otherRest)
    (same : decimal number ++ rest = decimal otherNumber ++ otherRest) :
    number = otherNumber ∧ rest = otherRest := by
  obtain ⟨digits, rests⟩ := append_inj_of_stops (fun _ => decimal_isDigit)
    (fun _ => decimal_isDigit) stops otherStops same
  have numbers := congrArg (Nat.ofDigitChars 10 · 0) digits
  simp only [decimal, Nat.ofDigitChars_ten_toDigits] at numbers
  exact ⟨numbers, rests⟩

theorem distribution_inj (accepted : acceptedDistribution flags = true)
    (otherAccepted : acceptedDistribution other = true) {rest otherRest : List Char}
    (same : flags.keyDistribution.toList ++ rest = other.keyDistribution.toList ++ otherRest) :
    flags.keyDistribution = other.keyDistribution := by
  -- The three names differ in their first letter.
  have heads := congrArg List.head? same
  simp only [acceptedDistribution, decide_eq_true_eq] at accepted otherAccepted
  generalize flags.keyDistribution = first at *
  generalize other.keyDistribution = second at *
  fin_cases accepted <;> fin_cases otherAccepted <;> first | rfl | simp at heads

/-- The thread id starts behind the last underscore. -/
theorem tid_inj {sort otherSort : List Char}
    (same : sort ++ ("_tid_".toList ++ tidText tid) = otherSort ++ ("_tid_".toList ++ tidText otherTid)) :
    tid = otherTid ∧ sort = otherSort := by
  have backwards : ∀ (sort : List Char) (tid : UInt32),
      (sort ++ ("_tid_".toList ++ tidText tid)).reverse
        = (tidText tid).reverse ++ '_' :: ("_tid".toList.reverse ++ sort.reverse) := by
    intro sort tid
    simp
  have noUnderscore : ∀ tid : UInt32, ∀ character ∈ (tidText tid).reverse,
      (character != '_') = true := by
    intro tid character member
    have different := ne_of_mem_of_not_mem (List.mem_reverse.mp member) (not_mem_tidText tid)
    simpa using different
  have reversed := congrArg List.reverse same
  rw [backwards, backwards] at reversed
  obtain ⟨tids, _⟩ := append_inj_of_stops (noUnderscore tid) (noUnderscore otherTid)
    (stops_cons (by simp)) (stops_cons (by simp)) reversed
  cases tidText_injective (List.reverse_injective tids)
  exact ⟨rfl, List.append_cancel_right same⟩

/-- Two settings that share a file have the same thread, numbers and
    distribution, with a uniform distribution the same sort order, and so they
    generate the same keys. -/
theorem keyFile_noAlias (generated : flags.keyFilePath = "") (otherGenerated : other.keyFilePath = "")
    (directory : flags.keyOrderDir = other.keyOrderDir)
    (accepted : acceptedDistribution flags = true)
    (otherAccepted : acceptedDistribution other = true)
    (same : keyFile flags tid = keyFile other otherTid) :
    tid = otherTid ∧ flags.num = other.num ∧ flags.workerThreads = other.workerThreads ∧
      flags.keyDistribution = other.keyDistribution ∧
      (flags.keyDistribution = "uniform" → flags.keySort = other.keySort) ∧
      ∀ (library : RandomLibrary) (fuel : ℕ),
        (generateThread library flags fuel tid).map Generated.keys
          = (generateThread library other fuel otherTid).map Generated.keys := by
  have texts := congrArg String.toList same
  rw [keyFile_toList generated, keyFile_toList otherGenerated, directory] at texts
  have numbers := List.append_cancel_left (List.append_cancel_left texts)
  obtain ⟨num, behindNum⟩ := decimal_inj_of_stops (threads_stop _) (threads_stop _) numbers
  obtain ⟨threads, behindThreads⟩ := decimal_inj_of_stops (dist_stop _) (dist_stop _)
    (List.append_cancel_left behindNum)
  have behindDist := List.append_cancel_left behindThreads
  have distribution := distribution_inj accepted otherAccepted behindDist
  rw [distribution] at behindDist
  have ends := List.append_cancel_left behindDist
  simp only [nameEnd, ← List.append_assoc] at ends
  have idEnds := List.append_cancel_right ends
  simp only [List.append_assoc] at idEnds
  obtain ⟨rfl, sorts⟩ := tid_inj idEnds
  have sorted : flags.keyDistribution = "uniform" → flags.keySort = other.keySort := by
    intro uniform
    rw [sortText, sortText, if_pos uniform, if_pos (distribution ▸ uniform)] at sorts
    exact String.toList_inj.mp (List.append_cancel_left sorts)
  have sameNum : flags.num = other.num := UInt64.toNat_inj.mp num
  have sameThreads : flags.workerThreads = other.workerThreads := UInt32.toNat_inj.mp threads
  refine ⟨rfl, sameNum, sameThreads, distribution, sorted, ?_⟩
  intro library fuel
  apply generateThread_congr library sameNum sameThreads distribution
  intro uniform
  funext keys
  simp only [sortKeys, shuffleSeed, sorted uniform]

/-- Only a uniform distribution has its sort order in the name. -/
theorem keyFile_noAlias_zipfian :
    (generateThread .still { keyDistribution := "zipfian", keySort := "ascending" } 0 3).map
        Generated.keys
      = (generateThread .still { keyDistribution := "zipfian", keySort := "descending" } 0 3).map
        Generated.keys := by
  have shared := @keyFile_noAlias { keyDistribution := "zipfian", keySort := "ascending" }
    { keyDistribution := "zipfian", keySort := "descending" } 3 3
    rfl rfl rfl rfl rfl (by simp [keyFile, getKeyOrderFilePath])
  exact shared.2.2.2.2.2 .still 0

end FdpRocks.Benchmark
