import FdpRocks.Benchmark.IndexKey

/-! # Who owns the bytes of a key

* `Sound` — every long key owns a block, and every other block was released once.
* `destroy_sound`, `put_short`, `put_long` — the moves all operations are made of.
* `step_sound`, `step_unsafe` — one operation, where it is safe and where not.
* `operations_sound_iff` — the programs that stay sound.
-/

namespace FdpRocks.Benchmark

namespace KeyMemory

variable {Id : Type}

/-! ## Ownership -/

def Owns (memory : KeyMemory Id) (object : Id) (block : ℕ) : Prop :=
  ∃ key, memory.objects object = some key ∧ key.isLong = true ∧ key.data = .heap block

structure Sound (memory : KeyMemory Id) : Prop where
  long : ∀ object key, memory.objects object = some key → key.isLong = true →
    ∃ block bytes, key.data = .heap block ∧ memory.blocks[block]? = some bytes ∧
      bytes.length = key.len.toNat
  alone : ∀ block first second, memory.Owns first block → memory.Owns second block →
    first = second
  short : ∀ object key, memory.objects object = some key → key.isLong = false → key.len ≠ 0 →
    key.data = .stack object
  owned : ∀ object block, memory.Owns object block → memory.released.count block = 0
  once : ∀ block < memory.blocks.length, (∀ object, ¬ memory.Owns object block) →
    memory.released.count block = 1
  known : ∀ block ∈ memory.released, block < memory.blocks.length
  noStack : memory.releasedStacks = []

variable {memory : KeyMemory Id}

theorem sound_start : ({} : KeyMemory Id).Sound where
  long _ _ alive := nomatch alive
  alone _ _ _ owns := by
    obtain ⟨_, alive, _⟩ := owns
    cases alive
  short _ _ alive := nomatch alive
  owned _ _ _ := rfl
  once _ below := absurd below (Nat.not_lt_zero _)
  known _ member := absurd member List.not_mem_nil
  noStack := rfl

theorem Sound.owned_lt (sound : memory.Sound) {object : Id} {block : ℕ}
    (owns : memory.Owns object block) : block < memory.blocks.length := by
  obtain ⟨key, alive, long, data⟩ := owns
  obtain ⟨own, bytes, same, found, _⟩ := sound.long object key alive long
  rw [data] at same
  cases same
  exact (List.getElem?_eq_some_iff.mp found).1

@[simp] theorem free_objects (key : IndexKey Id) : (memory.free key).objects = memory.objects := by
  unfold free delete
  split
  · split <;> rfl
  · rfl

@[simp] theorem free_blocks (key : IndexKey Id) : (memory.free key).blocks = memory.blocks := by
  unfold free delete
  split
  · split <;> rfl
  · rfl

/-- What a sound object gives back is its own block, if it has one. -/
theorem Sound.free_released (sound : memory.Sound) {object : Id} {key : IndexKey Id}
    (alive : memory.objects object = some key) :
    (memory.free key).releasedStacks = [] ∧
      ((∃ block, memory.Owns object block ∧
        (memory.free key).released = memory.released ++ [block]) ∨
      (∀ block, ¬ memory.Owns object block) ∧ (memory.free key).released = memory.released) := by
  unfold free
  by_cases long : key.isLong = true
  · obtain ⟨block, bytes, data, _⟩ := sound.long object key alive long
    rw [if_pos long, data]
    exact ⟨sound.noStack, .inl ⟨block, ⟨key, alive, long, data⟩, rfl⟩⟩
  · rw [if_neg long]
    refine ⟨sound.noStack, .inr ⟨?_, rfl⟩⟩
    rintro block ⟨other, found, otherLong, _⟩
    rw [alive] at found
    cases found
    exact long otherLong

/-! ## Moves -/

variable [DecidableEq Id]

theorem owns_destroy {object other : Id} {key : IndexKey Id} {block : ℕ} :
    (memory.destroy object key).Owns other block ↔ other ≠ object ∧ memory.Owns other block := by
  unfold Owns destroy
  by_cases same : other = object
  · subst same
    simp
  · simp [same]

theorem destroy_sound (sound : memory.Sound) {object : Id} {key : IndexKey Id}
    (alive : memory.objects object = some key) : (memory.destroy object key).Sound := by
  obtain ⟨noStack, freed⟩ := sound.free_released alive
  have others : ∀ other found, (memory.destroy object key).objects other = some found →
      memory.objects other = some found := by
    intro other found
    by_cases same : other = object
    · subst same
      simp [destroy]
    · simp [destroy, Function.update_of_ne same]
  have blocks : (memory.destroy object key).blocks = memory.blocks := free_blocks key
  constructor
  case long =>
    intro other found here
    rw [blocks]
    exact sound.long other found (others other found here)
  case alone =>
    intro block first second left right
    exact sound.alone block first second (owns_destroy.mp left).2 (owns_destroy.mp right).2
  case short =>
    intro other found here
    exact sound.short other found (others other found here)
  case owned =>
    intro other block owns
    obtain ⟨apart, before⟩ := owns_destroy.mp owns
    have count := sound.owned other block before
    show (memory.free key).released.count block = 0
    -- only the own block is released, and nobody else owns it
    obtain ⟨own, mine, released⟩ | ⟨_, released⟩ := freed
    · have different : own ≠ block := fun same => apart (sound.alone block _ _ before (same ▸ mine))
      rw [released, List.count_append, count, List.count_singleton, if_neg (by simpa using different)]
    · rw [released, count]
  case once =>
    rw [blocks]
    intro block below unowned
    show (memory.free key).released.count block = 1
    -- what loses its last owner here is the own block
    have onlyMine : ∀ other, memory.Owns other block → other = object := by
      intro other owns
      by_contra apart
      exact unowned other (owns_destroy.mpr ⟨apart, owns⟩)
    obtain ⟨own, mine, released⟩ | ⟨none, released⟩ := freed
    · rw [released, List.count_append, List.count_singleton]
      by_cases same : own = block
      · subst same
        rw [sound.owned object own mine, if_pos (by simp)]
      · rw [sound.once block below, if_neg (by simpa using same)]
        intro other owns
        cases onlyMine other owns
        obtain ⟨_, found, _, data⟩ := owns
        obtain ⟨_, again, _, ownData⟩ := mine
        rw [found] at again
        cases again
        rw [data] at ownData
        cases ownData
        exact same rfl
    · rw [released, sound.once block below]
      intro other owns
      cases onlyMine other owns
      exact none block owns
  case known =>
    rw [blocks]
    intro block member
    have here : block ∈ (memory.free key).released := member
    obtain ⟨own, mine, released⟩ | ⟨_, released⟩ := freed
    · rw [released] at here
      cases List.mem_append.mp here with
      | inl before => exact sound.known block before
      | inr last => exact List.mem_singleton.mp last ▸ sound.owned_lt mine
    · rw [released] at here
      exact sound.known block here
  case noStack => exact noStack

theorem objects_put {object other : Id} {key found : IndexKey Id}
    (alive : (memory.put object key).objects other = some found) :
    other = object ∧ found = key ∨ other ≠ object ∧ memory.objects other = some found := by
  by_cases same : other = object
  · subst same
    left
    rw [put_self] at alive
    exact ⟨rfl, (Option.some.inj alive).symm⟩
  · right
    rw [put_of_ne _ same] at alive
    exact ⟨same, alive⟩

/-- A new object takes nothing from the others. -/
theorem Owns.put {object other : Id} {key : IndexKey Id} {block : ℕ}
    (fresh : memory.objects object = none) (owns : memory.Owns other block) :
    (memory.put object key).Owns other block := by
  obtain ⟨found, alive, long, heap⟩ := owns
  have apart : other ≠ object := by
    rintro rfl
    rw [fresh] at alive
    cases alive
  exact ⟨found, (put_of_ne _ apart key).trans alive, long, heap⟩

/-- A new key that owns nothing changes nobody's ownership. -/
theorem put_short (sound : memory.Sound) {object : Id} (fresh : memory.objects object = none)
    {key : IndexKey Id} (short : key.isLong = false)
    (data : key.len = 0 ∨ key.data = .stack object) : (memory.put object key).Sound := by
  have owns : ∀ other block, (memory.put object key).Owns other block ↔ memory.Owns other block := by
    intro other block
    constructor
    · rintro ⟨found, alive, long, heap⟩
      obtain ⟨rfl, rfl⟩ | ⟨_, before⟩ := objects_put alive
      · rw [short] at long
        cases long
      · exact ⟨found, before, long, heap⟩
    · exact Owns.put fresh
  constructor
  case long =>
    intro other found alive long
    obtain ⟨rfl, rfl⟩ | ⟨_, before⟩ := objects_put alive
    · rw [short] at long
      cases long
    · exact sound.long other found before long
  case alone =>
    simp only [owns]
    exact sound.alone
  case short =>
    intro other found alive foundShort some
    obtain ⟨rfl, rfl⟩ | ⟨_, before⟩ := objects_put alive
    · exact data.resolve_left some
    · exact sound.short other found before foundShort some
  case owned =>
    simp only [owns]
    exact sound.owned
  case once =>
    simp only [owns]
    exact sound.once
  case known => exact sound.known
  case noStack => exact sound.noStack

/-- A new key that owns a new block. -/
theorem put_long (sound : memory.Sound) {object : Id} (fresh : memory.objects object = none)
    {key : IndexKey Id} {bytes : Bytes} (isLong : key.isLong = true)
    (data : key.data = .heap memory.blocks.length) (size : bytes.length = key.len.toNat) :
    ((memory.allocate bytes).put object key).Sound := by
  have owns : ∀ other block, ((memory.allocate bytes).put object key).Owns other block ↔
      other = object ∧ block = memory.blocks.length ∨ memory.Owns other block := by
    intro other block
    constructor
    · rintro ⟨found, alive, long, heap⟩
      obtain ⟨rfl, rfl⟩ | ⟨_, before⟩ := objects_put alive
      · rw [data] at heap
        cases heap
        exact .inl ⟨rfl, rfl⟩
      · exact .inr ⟨found, before, long, heap⟩
    · rintro (⟨rfl, rfl⟩ | before)
      · exact ⟨key, put_self _ _ _, isLong, data⟩
      · exact @Owns.put _ (memory.allocate bytes) _ _ _ _ _ fresh before
  -- the new block has a number that was never given out
  have unreleased : memory.released.count memory.blocks.length = 0 :=
    List.count_eq_zero.mpr fun member => absurd (sound.known _ member) (Nat.lt_irrefl _)
  have length : ((memory.allocate bytes).put object key).blocks.length
      = memory.blocks.length + 1 := List.length_append
  constructor
  case long =>
    intro other found alive long
    show ∃ block held, found.data = .heap block ∧ (memory.blocks ++ [bytes])[block]? = some held ∧
      held.length = found.len.toNat
    obtain ⟨rfl, rfl⟩ | ⟨_, before⟩ := objects_put alive
    · exact ⟨_, bytes, data, List.getElem?_concat_length, size⟩
    · obtain ⟨block, held, own, here, enough⟩ := sound.long other found before long
      have below := (List.getElem?_eq_some_iff.mp here).1
      exact ⟨block, held, own, by rw [List.getElem?_append_left below, here], enough⟩
  case alone =>
    intro block first second left right
    obtain ⟨rfl, rfl⟩ | before := (owns first block).mp left
    · obtain ⟨rfl, _⟩ | other := (owns second _).mp right
      · rfl
      · exact absurd (sound.owned_lt other) (Nat.lt_irrefl _)
    · obtain ⟨_, rfl⟩ | other := (owns second block).mp right
      · exact absurd (sound.owned_lt before) (Nat.lt_irrefl _)
      · exact sound.alone block first second before other
  case short =>
    intro other found alive foundShort some
    obtain ⟨rfl, rfl⟩ | ⟨_, before⟩ := objects_put alive
    · rw [isLong] at foundShort
      cases foundShort
    · exact sound.short other found before foundShort some
  case owned =>
    intro other block owned
    obtain ⟨_, rfl⟩ | before := (owns other block).mp owned
    · exact unreleased
    · exact sound.owned other block before
  case once =>
    rw [length]
    intro block below unowned
    -- an older block keeps its owner, or stays released
    have old : block ≠ memory.blocks.length := by
      rintro rfl
      exact unowned object ((owns _ _).mpr (.inl ⟨rfl, rfl⟩))
    refine sound.once block (by omega) fun other before => ?_
    exact unowned other ((owns _ _).mpr (.inr before))
  case known =>
    rw [length]
    intro block member
    have below := sound.known block member
    omega
  case noStack => exact sound.noStack

/-! ## Operations -/

theorem destroy_fresh (object : Id) (key : IndexKey Id) :
    (memory.destroy object key).objects object = none := by
  simp [destroy]

/-- Behind a destruction the name is free again. -/
theorem put_destroy (object : Id) (key next : IndexKey Id) :
    (memory.destroy object key).put object next = (memory.free key).put object next := by
  simp [destroy, put]

theorem allocate_put_destroy (object : Id) (key next : IndexKey Id) (bytes : Bytes) :
    ((memory.destroy object key).allocate bytes).put object next
      = ((memory.free key).allocate bytes).put object next := by
  simp [destroy, put, allocate]

theorem ofNat_toNat {length : ℕ} (small : length < 2 ^ 32) :
    (UInt32.ofNat length).toNat = length := by
  rw [UInt32.toNat_ofNat', Nat.mod_eq_of_lt small]

omit [DecidableEq Id] in
theorem isLong_iff {key : IndexKey Id} : key.isLong = true ↔ stackLen < key.len.toNat := by
  simp [IndexKey.isLong]

omit [DecidableEq Id] in
theorem isLong_false_iff {key : IndexKey Id} : key.isLong = false ↔ key.len.toNat ≤ stackLen := by
  simp [IndexKey.isLong]

theorem ofString_sound (sound : memory.Sound) {object : Id}
    (fresh : memory.objects object = none) {text : List UInt8} (fits : text.length ≤ stackLen) :
    (memory.ofString object text).Sound := by
  refine put_short sound fresh (isLong_false_iff.mpr ?_) (.inr rfl)
  show (UInt32.ofNat text.length).toNat ≤ stackLen
  rw [ofNat_toNat (Nat.lt_of_le_of_lt fits (by decide))]
  exact fits

theorem set_sound (sound : memory.Sound) {object : Id} {key : IndexKey Id}
    (alive : memory.objects object = some key) {bytes : List UInt8}
    (small : bytes.length < 2 ^ 32) : (memory.set object key bytes).Sound := by
  -- a set is a destruction and then a new key under the same name
  have destroyed := destroy_sound sound alive
  have fresh := @destroy_fresh Id memory _ object key
  have len := ofNat_toNat small
  unfold set
  dsimp only
  split
  next fits =>
    rw [← put_destroy]
    exact put_short destroyed fresh (isLong_false_iff.mpr (len.symm ▸ fits)) (.inr rfl)
  next exceeds =>
    rw [← allocate_put_destroy]
    refine put_long destroyed fresh (isLong_iff.mpr ?_) rfl ?_
    · show stackLen < (UInt32.ofNat bytes.length).toNat
      omega
    · rw [List.length_map, len]

theorem setKeyLen_sound (sound : memory.Sound) {object : Id} {key : IndexKey Id}
    (alive : memory.objects object = some key) (newLen : UInt32) :
    (memory.setKeyLen object key newLen).Sound := by
  have destroyed := destroy_sound sound alive
  have fresh := @destroy_fresh Id memory _ object key
  unfold setKeyLen
  dsimp only
  split
  next => exact sound
  next =>
    split
    next exceeds =>
      rw [← allocate_put_destroy]
      exact put_long destroyed fresh (isLong_iff.mpr exceeds) rfl List.length_replicate
    next fits =>
      rw [← put_destroy]
      exact put_short destroyed fresh (isLong_false_iff.mpr (not_lt.mp fits)) (.inr rfl)

/-- Taking over a short key. -/
theorem take_sound (sound : memory.Sound) {object : Id} (fresh : memory.objects object = none)
    (buffer : StackKey) (source : Id) {key : IndexKey Id} (short : key.isLong = false) :
    (memory.take object buffer source key).Sound := by
  unfold take
  rw [if_neg (by rw [short]; exact Bool.false_ne_true)]
  exact put_short sound fresh short (.inr rfl)

theorem moveAssign_sound (sound : memory.Sound) {object : Id} {target : IndexKey Id}
    (alive : memory.objects object = some target) (source : Id) {key : IndexKey Id}
    (short : key.isLong = false) : (memory.moveAssign object target source key).Sound := by
  have taken := take_sound (destroy_sound sound alive) (destroy_fresh object target)
    target.stackKey source short
  unfold take at taken
  unfold moveAssign take
  rw [if_neg (by rw [short]; exact Bool.false_ne_true)] at taken ⊢
  rw [← put_destroy]
  exact taken

/-! ## Reading back -/

/-- What is read of an object by its name. -/
def readObject (memory : KeyMemory Id) (object : Id) : Option Bytes :=
  (memory.objects object).bind memory.read

omit [DecidableEq Id] in
theorem readObject_length {object : Id} {key : IndexKey Id}
    (alive : memory.objects object = some key) {bytes : Bytes}
    (reads : memory.readObject object = some bytes) : bytes.length ≤ key.len.toNat := by
  rw [readObject, alive, Option.bind_some] at reads
  unfold read at reads
  split at reads
  next => cases reads
  next =>
    obtain ⟨_, _, rfl⟩ := Option.map_eq_some_iff.mp reads
    exact List.length_take_le _ _
  next =>
    obtain ⟨_, _, rfl⟩ := Option.map_eq_some_iff.mp reads
    exact List.length_take_le _ _

theorem ofString_reads {object : Id} {text : List UInt8} (fits : text.length ≤ stackLen) :
    (memory.ofString object text).readObject object = some (text.map some) := by
  have len := ofNat_toNat (Nat.lt_of_le_of_lt fits (by decide))
  have copied := StackKey.blank.take_copy (text.map some) (by rw [List.length_map]; exact fits)
  rw [List.length_map] at copied
  rw [readObject, ofString, put_self, Option.bind_some, read]
  dsimp only
  rw [put_self, Option.map_some, len, copied]

theorem set_reads {object : Id} {key : IndexKey Id} {bytes : List UInt8}
    (small : bytes.length < 2 ^ 32) :
    (memory.set object key bytes).readObject object = some (bytes.map some) := by
  have len := ofNat_toNat small
  unfold set
  dsimp only
  split
  next fits =>
    have copied := key.stackKey.take_copy (bytes.map some)
      (by rw [List.length_map]; exact fits)
    rw [List.length_map] at copied
    rw [readObject, put_self, Option.bind_some, read]
    dsimp only
    rw [put_self, Option.map_some, len, copied]
  next exceeds =>
    rw [readObject, put_self, Option.bind_some, read]
    dsimp only
    show ((memory.free key).blocks ++ [bytes.map some])[(memory.free key).blocks.length]?.map _ = _
    rw [List.getElem?_concat_length, Option.map_some, len, List.take_of_length_le]
    rw [List.length_map]

theorem set_len (memory : KeyMemory Id) (object : Id) (key : IndexKey Id) (bytes : List UInt8) :
    ∃ found, (memory.set object key bytes).objects object = some found ∧
      found.len = UInt32.ofNat bytes.length := by
  unfold set
  dsimp only
  split
  · exact ⟨_, put_self _ _ _, rfl⟩
  · exact ⟨_, put_self _ _ _, rfl⟩

/-- A moved-from long key still claims to be long. -/
theorem take_unsound {object source : Id} (apart : source ≠ object) {buffer : StackKey}
    {key : IndexKey Id} (long : key.isLong = true) :
    ¬ (memory.take object buffer source key).Sound := by
  intro sound
  unfold take at sound
  rw [if_pos long] at sound
  -- the source keeps its length, but its pointer is null
  have alive := (put_of_ne (memory.put source { key with data := .null }) apart
    { len := key.len, data := key.data, stackKey := buffer }).trans (put_self _ _ _)
  obtain ⟨_, _, data, _⟩ := sound.long source _ alive long
  cases data

end KeyMemory

/-! ## Programs -/

variable {Id : Type} [DecidableEq Id]

namespace Operation

/-- What is written into which key. -/
def writes : Operation Id → Option (Id × List UInt8)
  | .ofString object text => some (object, text)
  | .set object bytes => some (object, bytes)
  | _ => none

/-- The state behind an operation is sound, and what it wrote is read back. -/
def Keeps (operation : Operation Id) (after : KeyMemory Id) : Prop :=
  after.Sound ∧ ∀ object bytes, operation.writes = some (object, bytes) →
    after.readObject object = some (bytes.map some)

/-- A string that fits on the stack, a length of 32 bits, a source that is not long. -/
def Safe (memory : KeyMemory Id) : Operation Id → Prop
  | .ofString _ text => text.length ≤ stackLen
  | .set _ bytes => bytes.length < 2 ^ 32
  | .moveConstruct _ source | .moveAssign _ source =>
    ∀ key, memory.objects source = some key → key.isLong = false
  | .construct _ | .setKeyLen _ _ | .destroy _ => True

variable {memory after : KeyMemory Id}

omit [DecidableEq Id] in
theorem length_lt_of_reads {object : Id} {key : IndexKey Id} {bytes : List UInt8}
    (alive : after.objects object = some key) (len : key.len = UInt32.ofNat bytes.length)
    (reads : after.readObject object = some (bytes.map some)) : bytes.length < 2 ^ 32 := by
  have atMost := KeyMemory.readObject_length alive reads
  rw [List.length_map, len] at atMost
  exact Nat.lt_of_le_of_lt atMost (UInt32.toNat_lt _)

omit [DecidableEq Id] in
theorem keeps_of_silent {operation : Operation Id} (silent : operation.writes = none) :
    operation.Keeps after ↔ after.Sound := by
  constructor
  · exact And.left
  · refine fun sound => ⟨sound, fun object bytes writes => ?_⟩
    rw [silent] at writes
    cases writes

/-- From a sound state an operation keeps what is asked of it where it is safe,
    and nowhere else. -/
theorem step_keeps_iff (sound : memory.Sound) {operation : Operation Id}
    (step : memory.step operation = some after) :
    operation.Keeps after ↔ operation.Safe memory := by
  cases operation with
  | construct object =>
    simp only [KeyMemory.step] at step
    split at step
    next fresh =>
      cases step
      rw [keeps_of_silent rfl]
      exact ⟨fun _ => trivial, fun _ => KeyMemory.put_short sound fresh rfl (.inl rfl)⟩
    next => cases step
  | ofString object text =>
    simp only [KeyMemory.step] at step
    split at step
    next fresh =>
      cases step
      constructor
      · rintro ⟨kept, reads⟩
        have small := length_lt_of_reads (KeyMemory.put_self _ _ _) rfl (reads _ _ rfl)
        by_contra exceeds
        have long : (UInt32.ofNat text.length).toNat > stackLen := by
          rw [KeyMemory.ofNat_toNat small]
          exact not_le.mp exceeds
        -- the constructor points at the stack however long the string is
        obtain ⟨_, _, data, _⟩ := kept.long object _ (KeyMemory.put_self _ _ _)
          (KeyMemory.isLong_iff.mpr long)
        cases data
      · intro fits
        refine ⟨KeyMemory.ofString_sound sound fresh fits, fun _ _ writes => ?_⟩
        cases writes
        exact KeyMemory.ofString_reads fits
    next => cases step
  | set object bytes =>
    obtain ⟨key, alive, rfl⟩ := Option.map_eq_some_iff.mp step
    constructor
    · rintro ⟨_, reads⟩
      obtain ⟨_, found, len⟩ := memory.set_len object key bytes
      exact length_lt_of_reads found len (reads _ _ rfl)
    · intro small
      refine ⟨KeyMemory.set_sound sound alive small, fun _ _ writes => ?_⟩
      cases writes
      exact KeyMemory.set_reads small
  | setKeyLen object newLen =>
    obtain ⟨key, alive, rfl⟩ := Option.map_eq_some_iff.mp step
    rw [keeps_of_silent rfl]
    exact ⟨fun _ => trivial, fun _ => KeyMemory.setKeyLen_sound sound alive newLen⟩
  | moveConstruct object source =>
    simp only [KeyMemory.step] at step
    split at step
    next fresh alive =>
      cases step
      rw [keeps_of_silent rfl]
      have apart : source ≠ object := by
        rintro rfl
        rw [fresh] at alive
        cases alive
      constructor
      · intro kept key found
        rw [alive] at found
        cases found
        by_contra long
        exact KeyMemory.take_unsound apart (Bool.not_eq_false _ ▸ long) kept
      · exact fun short => KeyMemory.take_sound sound fresh _ source (short _ alive)
    next => cases step
  | moveAssign object source =>
    simp only [KeyMemory.step] at step
    split at step
    next target key aliveTarget alive =>
      split at step
      next => cases step
      next apart =>
        cases step
        rw [keeps_of_silent rfl]
        constructor
        · intro kept key found
          rw [alive] at found
          cases found
          by_contra long
          exact KeyMemory.take_unsound (Ne.symm apart) (Bool.not_eq_false _ ▸ long) kept
        · exact fun short => KeyMemory.moveAssign_sound sound aliveTarget source (short _ alive)
    next => cases step
  | destroy object =>
    obtain ⟨key, alive, rfl⟩ := Option.map_eq_some_iff.mp step
    rw [keeps_of_silent rfl]
    exact ⟨fun _ => trivial, fun _ => KeyMemory.destroy_sound sound alive⟩

end Operation

/-- All operations of a program that starts without objects. -/
def KeyMemory.run (memory : KeyMemory Id) : List (Operation Id) → Option (KeyMemory Id)
  | [] => some memory
  | operation :: operations => (memory.step operation).bind fun next => next.run operations

theorem run_append (memory : KeyMemory Id) (earlier later : List (Operation Id)) :
    memory.run (earlier ++ later) = (memory.run earlier).bind fun middle => middle.run later := by
  induction earlier generalizing memory with
  | nil => rfl
  | cons operation earlier inductionHypothesis =>
    simp only [List.cons_append, KeyMemory.run, Option.bind_assoc]
    cases memory.step operation with
    | none => rfl
    | some next => exact inductionHypothesis next

/-- A property of every operation that the program comes to, with the states
    before and behind it. -/
def EveryStep (operations : List (Operation Id))
    (holds : KeyMemory Id → Operation Id → KeyMemory Id → Prop) : Prop :=
  ∀ earlier operation later before after, operations = earlier ++ operation :: later →
    KeyMemory.run {} earlier = some before → before.step operation = some after →
    holds before operation after

/-- If no step leaves the sound states, none is ever left. -/
theorem sound_before {operations : List (Operation Id)}
    (keeps : EveryStep operations fun before _ after => before.Sound → after.Sound)
    {earlier later : List (Operation Id)} {before : KeyMemory Id}
    (split : operations = earlier ++ later) (runs : KeyMemory.run {} earlier = some before) :
    before.Sound := by
  -- from the start, one operation at a time
  induction earlier using List.reverseRecOn generalizing later before with
  | nil =>
    cases runs
    exact KeyMemory.sound_start
  | append_singleton earlier operation inductionHypothesis =>
    rw [run_append] at runs
    obtain ⟨middle, start, last⟩ := Option.bind_eq_some_iff.mp runs
    have step : middle.step operation = some before := by
      obtain ⟨next, steps, same⟩ := Option.bind_eq_some_iff.mp last
      cases same
      exact steps
    rw [List.append_assoc, List.singleton_append] at split
    exact keeps earlier operation later middle before split start step
      (inductionHypothesis split start)

/-- A program keeps its keys exactly where all of its operations are safe. -/
theorem operations_sound_iff (operations : List (Operation Id)) :
    EveryStep operations (fun _ operation after => operation.Keeps after) ↔
      EveryStep operations fun before operation _ => operation.Safe before := by
  constructor
  · intro keeps earlier operation later before after split runs step
    have sound := sound_before (fun first second rest left right same start next _ =>
      (keeps first second rest left right same start next).1) split runs
    exact (Operation.step_keeps_iff sound step).mp
      (keeps earlier operation later before after split runs step)
  · intro safe earlier operation later before after split runs step
    have sound := sound_before (fun first second rest left right same start next before =>
      ((Operation.step_keeps_iff before next).mpr
        (safe first second rest left right same start next)).1) split runs
    exact (Operation.step_keeps_iff sound step).mpr
      (safe earlier operation later before after split runs step)

/-- A string of 65 bytes is left on the stack, and a long key that is moved keeps
    its length without its block. -/
theorem indexKey_unsound :
    (¬ EveryStep [.ofString () (List.replicate 65 0)]
      fun _ operation after => operation.Keeps after) ∧
    (¬ EveryStep [.construct false, .set false (List.replicate 65 0), .moveConstruct true false]
      fun _ operation after => operation.Keeps after) := by
  constructor
  · intro keeps
    have kept := keeps [] _ [] _ _ rfl rfl rfl
    obtain ⟨_, _, data, _⟩ := kept.1.long () _ rfl (by decide)
    cases data
  · intro keeps
    have kept := keeps [.construct false, .set false (List.replicate 65 0)] _ [] _ _ rfl rfl rfl
    obtain ⟨_, _, data, _⟩ := kept.1.long false _ rfl (by decide)
    cases data

end FdpRocks.Benchmark
