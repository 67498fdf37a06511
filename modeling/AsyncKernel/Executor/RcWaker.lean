import AsyncKernel.Foundation.Transition

/-!
# The wakers of an `Rc`

`non_send_waker`: wakers whose data pointer is that of an `Rc<W>`, each of them one handle of the
`Rc`. The functions of their table take the handle back with `Rc::from_raw`, and `waker_clone` counts
one more with `Rc::increment_strong_count`. An `Rc` finds its counts from the data pointer and the
alignment of its value, and `waker_clone` passes the pointer on as one to `()`, where the other
functions go through `W`.

## Main definitions

* `RcBox`, `fromRaw`: the allocation of an `Rc`, and where an `Rc` looks for its counts
* `wakerClone`, `wakerWake`, `wakerWakeByRef`, `wakerDrop`: the functions of the table
* `system`: the wakers that `into_waker` and `clone` have made
* `Balanced`: an operation on a waker leaves the count that of the wakers

## Main results

* `fromRaw_one_eq_iff`: for which values `waker_clone` increments the strong count
* `Counted.step`: the operations keep the count
* `balanced_iff`: the runs whose operations are all balanced
-/

namespace AsyncKernel.RcWaker

/-! ## The allocation -/

/-- The allocation of an `Rc<W>`: its two counts are at `address`, the strong one first, and the value
lies behind them. The alignment of `W` is a power of two. -/
structure RcBox where
  address : ℕ
  alignLog2 : ℕ
  deriving DecidableEq, Repr

/-- `data_offset`: two counts of 8 bytes, and padding up to the alignment of the value. -/
def dataOffset (align : ℕ) : ℕ := (16 + align - 1) / align * align

namespace RcBox

variable (box : RcBox)

/-- The alignment of `W`. -/
def align : ℕ := 2 ^ box.alignLog2

/-- `Rc::into_raw`: the address of the value, which is the data pointer of every waker. -/
def data : ℕ := box.address + dataOffset box.align

end RcBox

/-- `Rc::<T>::from_raw`, for a `T` of alignment `align`: where the counts are. -/
def fromRaw (align data : ℕ) : ℕ := data - dataOffset align

/-- The memory by address, how often `rc_wake_by_ref` has run, and how often the value has been
dropped. -/
structure World where
  memory : ℕ → BitVec 64
  runs : ℕ
  drops : ℕ

/-- `Rc::<T>::increment_strong_count`, for a `T` of alignment `align`. There is no result when it
aborts. -/
def incrementStrongCount (align data : ℕ) (w : World) : Option World :=
  let rc := fromRaw align data
  if w.memory rc = 0 ∨ w.memory rc = BitVec.allOnes 64 then none
  else some { w with memory := Function.update w.memory rc (w.memory rc + 1) }

/-- The drop of the `Rc` with its counts at `rc`. -/
def dropRc (rc : ℕ) (w : World) : World where
  memory := Function.update w.memory rc (w.memory rc - 1)
  runs := w.runs
  drops := w.drops + if w.memory rc - 1 = 0 then 1 else 0

/-! ## The table -/

/-- `RcWake::rc_wake_by_ref`. -/
def rcWakeByRef (_rc : ℕ) (w : World) : World := { w with runs := w.runs + 1 }

/-- `RcWake::rc_wake`, which owns the `Rc`. -/
def rcWake (rc : ℕ) (w : World) : World := dropRc rc (rcWakeByRef rc w)

/-- `get_waker_rc`. -/
def getWakerRc (box : RcBox) (data : ℕ) : ℕ := fromRaw box.align data

/-- `waker_clone`: the `Rc` is one of `()`, whose alignment is 1. -/
def wakerClone (data : ℕ) (w : World) : Option World := incrementStrongCount 1 data w

/-- `waker_wake`. -/
def wakerWake (box : RcBox) (data : ℕ) (w : World) : World := rcWake (getWakerRc box data) w

/-- `waker_wake_by_ref`: the `Rc` is leaked, so it is not dropped. -/
def wakerWakeByRef (box : RcBox) (data : ℕ) (w : World) : World :=
  rcWakeByRef (getWakerRc box data) w

/-- `waker_drop`. -/
def wakerDrop (box : RcBox) (data : ℕ) (w : World) : World := dropRc (getWakerRc box data) w

/-! ## The wakers -/

/-- The wakers that have been neither woken by value nor dropped. -/
structure State where
  world : World
  wakers : Finset ℕ

/-- `into_waker`. -/
def intoWaker (w : World) (i : ℕ) : State := ⟨w, {i}⟩

inductive Label
  /-- waker `i` is cloned, and `j` is the clone -/
  | clone (i j : ℕ)
  | wake (i : ℕ)
  | wakeByRef (i : ℕ)
  | drop (i : ℕ)
  deriving DecidableEq, Repr

namespace Label

def isClone : Label → Bool
  | .clone _ _ => true
  | .wake _ | .wakeByRef _ | .drop _ => false

/-- `wake` or `wake_by_ref`. -/
def wakes : Label → Bool
  | .wake _ | .wakeByRef _ => true
  | .clone _ _ | .drop _ => false

/-- `wake` or a drop. -/
def consumes : Label → Bool
  | .wake _ | .drop _ => true
  | .clone _ _ | .wakeByRef _ => false

end Label

/-- An operation on one of the wakers. There is no state after an abort. -/
def next (box : RcBox) (s : State) : Label → Option State
  | .clone i j =>
    if i ∈ s.wakers ∧ j ∉ s.wakers then
      (wakerClone box.data s.world).map fun w => ⟨w, insert j s.wakers⟩
    else none
  | .wake i =>
    if i ∈ s.wakers then some ⟨wakerWake box box.data s.world, s.wakers.erase i⟩ else none
  | .wakeByRef i =>
    if i ∈ s.wakers then some ⟨wakerWakeByRef box box.data s.world, s.wakers⟩ else none
  | .drop i =>
    if i ∈ s.wakers then some ⟨wakerDrop box box.data s.world, s.wakers.erase i⟩ else none

/-- The wakers of an `Rc` that has been turned into one, when it has `others` more handles. -/
def system (box : RcBox) (others : ℕ) : TransitionSystem State Label where
  init s := ∃ w i, (w.memory box.address).toNat = others + 1 ∧ w.drops = 0 ∧ s = intoWaker w i
  step s l s' := next box s l = some s'

/-- The strong count. -/
def State.strong (box : RcBox) (s : State) : BitVec 64 := s.world.memory box.address

/-- The operation finds the value of the `Rc`, runs `rc_wake_by_ref` when it is to, and leaves the
count that of the handles, so that the value is dropped with the last of them. -/
structure Balanced (box : RcBox) (others : ℕ) (t : Transition State Label) : Prop where
  strong : (t.after.strong box).toNat = t.after.wakers.card + others
  runs : t.after.world.runs = t.before.world.runs + if t.label.wakes then 1 else 0
  last : t.after.strong box = 0 ↔ t.label.consumes ∧ t.after.wakers = ∅ ∧ others = 0
  alive : t.before.world.drops = 0
  drops : t.after.world.drops = if t.after.strong box = 0 then 1 else 0

/-! ## Where the counts are -/

section Offset

variable {k : ℕ}

theorem dataOffset_two_pow_of_le (hk : k ≤ 4) : dataOffset (2 ^ k) = 16 := by
  interval_cases k <;> rfl

theorem dataOffset_two_pow_of_lt (hk : 4 < k) : dataOffset (2 ^ k) = 2 ^ k := by
  have hlarge : 2 ^ 5 ≤ 2 ^ k := Nat.pow_le_pow_right two_pos hk
  have hone : (16 + 2 ^ k - 1) / 2 ^ k = 1 := by
    rw [Nat.div_eq_iff (Nat.two_pow_pos k)]
    omega
  rw [dataOffset, hone, Nat.one_mul]

variable (box : RcBox)

@[simp] theorem getWakerRc_data : getWakerRc box box.data = box.address :=
  Nat.add_sub_cancel _ _

theorem align_le_iff : box.align ≤ 16 ↔ box.alignLog2 ≤ 4 :=
  Nat.pow_le_pow_iff_right (m := 4) one_lt_two

/-- **`waker_clone` increments the strong count** when the value is not aligned to more than the two
counts. -/
theorem fromRaw_one_eq_iff : fromRaw 1 box.data = box.address ↔ box.align ≤ 16 := by
  rw [fromRaw, RcBox.data, show dataOffset 1 = 16 from rfl, align_le_iff, RcBox.align]
  constructor
  · intro h
    by_contra hlarge
    have hk : 4 < box.alignLog2 := Nat.lt_of_not_le hlarge
    have hpow : 2 ^ 5 ≤ 2 ^ box.alignLog2 := Nat.pow_le_pow_right two_pos hk
    rw [dataOffset_two_pow_of_lt hk] at h
    omega
  · intro h
    rw [dataOffset_two_pow_of_le h, Nat.add_sub_cancel]

end Offset

/-! ## What an operation does to the count -/

section Count

variable {box : RcBox} {others : ℕ} {w w' : World} {s s' : State}

theorem dropRc_memory_self (rc : ℕ) (w : World) :
    (dropRc rc w).memory rc = w.memory rc - 1 := Function.update_self ..

/-- What an increment does, unless it aborts. -/
theorem incrementStrongCount_eq_some {align data : ℕ}
    (h : incrementStrongCount align data w = some w') :
    w.memory (fromRaw align data) ≠ BitVec.allOnes 64 ∧
      w'.memory = Function.update w.memory (fromRaw align data)
        (w.memory (fromRaw align data) + 1) ∧ w'.runs = w.runs ∧ w'.drops = w.drops := by
  simp only [incrementStrongCount] at h
  split at h
  · cases h
  · rename_i hcount
    obtain rfl := Option.some.inj h
    exact ⟨fun hmax => hcount (Or.inr hmax), rfl, rfl, rfl⟩

/-- A word that is not the largest one is incremented without overflow. -/
theorem toNat_add_one {x : BitVec 64} (h : x ≠ BitVec.allOnes 64) :
    (x + 1).toNat = x.toNat + 1 := by
  have hlt : x.toNat < (BitVec.allOnes 64).toNat := BitVec.lt_def.mp (BitVec.lt_allOnes_iff.mpr h)
  rw [BitVec.toNat_allOnes] at hlt
  exact BitVec.toNat_add_of_lt (Nat.add_lt_of_lt_sub hlt)

/-- The count is that of the handles, and the value has been dropped when there is none. -/
structure Counted (box : RcBox) (others : ℕ) (s : State) : Prop where
  strong : (s.strong box).toNat = s.wakers.card + others
  drops : s.world.drops = if s.strong box = 0 then 1 else 0

theorem Counted.strong_eq_zero_iff (h : Counted box others s) :
    s.strong box = 0 ↔ s.wakers = ∅ ∧ others = 0 := by
  rw [← BitVec.toNat_inj, h.strong, ← Finset.card_eq_zero]
  exact Nat.add_eq_zero_iff

/-- While there is a waker, the value has not been dropped. -/
theorem Counted.alive (h : Counted box others s) {i : ℕ} (hi : i ∈ s.wakers) :
    s.strong box ≠ 0 ∧ s.world.drops = 0 := by
  have hne : s.strong box ≠ 0 := fun h0 =>
    Finset.ne_empty_of_mem hi (h.strong_eq_zero_iff.mp h0).1
  exact ⟨hne, by rw [h.drops, if_neg hne]⟩

/-- `into_waker` keeps the handle. -/
theorem counted_of_init (h : (system box others).init s) : Counted box others s := by
  obtain ⟨w, i, hstrong, hdrops, rfl⟩ := h
  have hne : w.memory box.address ≠ 0 := by
    intro h0
    rw [h0] at hstrong
    cases hstrong
  refine ⟨?_, ?_⟩
  · rw [State.strong, intoWaker, hstrong, Finset.card_singleton, Nat.add_comm]
  · rw [State.strong, intoWaker, hdrops, if_neg hne]

/-- The handle of waker `i` is dropped. -/
theorem Counted.release (h : Counted box others s) {i : ℕ} (hi : i ∈ s.wakers)
    (hmemory : w.memory = s.world.memory) (hdrops : w.drops = s.world.drops) :
    Counted box others ⟨dropRc box.address w, s.wakers.erase i⟩ := by
  obtain ⟨hne, halive⟩ := h.alive hi
  have hone : 1 ≤ (s.strong box).toNat :=
    Nat.pos_of_ne_zero fun h0 => hne (BitVec.eq_of_toNat_eq h0)
  have hstrong : (dropRc box.address w).memory box.address = s.strong box - 1 := by
    rw [dropRc_memory_self, hmemory, State.strong]
  refine ⟨?_, ?_⟩
  · have hpos := Finset.card_pos.mpr ⟨i, hi⟩
    rw [State.strong, hstrong, BitVec.toNat_sub_of_le hone, h.strong, Finset.card_erase_of_mem hi]
    exact Nat.sub_add_comm hpos
  · rw [State.strong, hstrong, dropRc, hdrops, halive, hmemory, Nat.zero_add]
    rfl

/-- One more handle is counted. -/
theorem Counted.clone (h : Counted box others s) (halign : box.align ≤ 16) {i j : ℕ}
    (hi : i ∈ s.wakers) (hj : j ∉ s.wakers) (hclone : wakerClone box.data s.world = some w) :
    Counted box others ⟨w, insert j s.wakers⟩ := by
  obtain ⟨hmax, hmemory, -, hdrops⟩ := incrementStrongCount_eq_some hclone
  rw [(fromRaw_one_eq_iff box).mpr halign] at hmax hmemory
  have hstrong : w.memory box.address = s.strong box + 1 := by
    rw [hmemory, Function.update_self, State.strong]
  have hsum : (s.strong box + 1).toNat = (s.strong box).toNat + 1 := toNat_add_one hmax
  have hne : s.strong box + 1 ≠ 0 := by
    intro h0
    rw [h0] at hsum
    cases hsum
  refine ⟨?_, ?_⟩
  · rw [State.strong, hstrong, hsum, h.strong, Finset.card_insert_of_notMem hj]
    omega
  · rw [State.strong, hstrong, if_neg hne, hdrops]
    exact (h.alive hi).2

end Count

/-! ## The operations of a run -/

section Runs

variable {box : RcBox} {others : ℕ} {s s' : State}

theorem next_clone {i j : ℕ} (h : next box s (.clone i j) = some s') : i ∈ s.wakers ∧
    j ∉ s.wakers ∧ ∃ w, wakerClone box.data s.world = some w ∧ s' = ⟨w, insert j s.wakers⟩ := by
  obtain ⟨⟨hi, hj⟩, hmap⟩ := Option.ite_none_right_eq_some.mp h
  obtain ⟨w, hw, rfl⟩ := Option.map_eq_some_iff.mp hmap
  exact ⟨hi, hj, w, hw, rfl⟩

theorem next_wake {i : ℕ} (h : next box s (.wake i) = some s') : i ∈ s.wakers ∧
    s' = ⟨dropRc box.address (rcWakeByRef box.address s.world), s.wakers.erase i⟩ := by
  obtain ⟨hi, hs⟩ := Option.ite_none_right_eq_some.mp h
  rw [wakerWake, getWakerRc_data, rcWake] at hs
  exact ⟨hi, (Option.some.inj hs).symm⟩

theorem next_wakeByRef {i : ℕ} (h : next box s (.wakeByRef i) = some s') : i ∈ s.wakers ∧
    s' = ⟨rcWakeByRef box.address s.world, s.wakers⟩ := by
  obtain ⟨hi, hs⟩ := Option.ite_none_right_eq_some.mp h
  rw [wakerWakeByRef, getWakerRc_data] at hs
  exact ⟨hi, (Option.some.inj hs).symm⟩

theorem next_drop {i : ℕ} (h : next box s (.drop i) = some s') : i ∈ s.wakers ∧
    s' = ⟨dropRc box.address s.world, s.wakers.erase i⟩ := by
  obtain ⟨hi, hs⟩ := Option.ite_none_right_eq_some.mp h
  rw [wakerDrop, getWakerRc_data] at hs
  exact ⟨hi, (Option.some.inj hs).symm⟩

/-- An operation on a waker, unless it is a clone of a waker of an over-aligned value. -/
theorem Counted.step (h : Counted box others s) {l : Label}
    (hl : l.isClone = true → box.align ≤ 16) (hnext : next box s l = some s') :
    Counted box others s' := by
  cases l with
  | clone i j =>
    obtain ⟨hi, hj, w, hclone, rfl⟩ := next_clone hnext
    exact h.clone (hl rfl) hi hj hclone
  | wake i =>
    obtain ⟨hi, rfl⟩ := next_wake hnext
    exact h.release hi rfl rfl
  | wakeByRef i =>
    obtain ⟨-, rfl⟩ := next_wakeByRef hnext
    exact ⟨h.strong, h.drops⟩
  | drop i =>
    obtain ⟨hi, rfl⟩ := next_drop hnext
    exact h.release hi rfl rfl

/-- Every operation is on a waker. -/
theorem exists_mem_of_next {l : Label} (h : next box s l = some s') : ∃ i, i ∈ s.wakers := by
  cases l with
  | clone i j => exact ⟨i, (next_clone h).1⟩
  | wake i => exact ⟨i, (next_wake h).1⟩
  | wakeByRef i => exact ⟨i, (next_wakeByRef h).1⟩
  | drop i => exact ⟨i, (next_drop h).1⟩

/-- `rc_wake_by_ref` runs once for each `wake` and `wake_by_ref`. -/
theorem runs_next {l : Label} (h : next box s l = some s') :
    s'.world.runs = s.world.runs + if l.wakes then 1 else 0 := by
  cases l with
  | clone i j =>
    obtain ⟨-, -, w, hclone, rfl⟩ := next_clone h
    obtain ⟨-, -, hruns, -⟩ := incrementStrongCount_eq_some hclone
    exact hruns
  | wake i =>
    obtain ⟨-, rfl⟩ := next_wake h
    rfl
  | wakeByRef i =>
    obtain ⟨-, rfl⟩ := next_wakeByRef h
    rfl
  | drop i =>
    obtain ⟨-, rfl⟩ := next_drop h
    rfl

/-- The last waker goes when it is woken by value or dropped. -/
theorem consumes_of_next {l : Label} (h : next box s l = some s') (hempty : s'.wakers = ∅) :
    l.consumes = true := by
  obtain ⟨i, hi⟩ := exists_mem_of_next h
  cases l with
  | wake i | drop i => rfl
  | clone i j =>
    obtain ⟨-, -, w, -, rfl⟩ := next_clone h
    exact absurd hempty (Finset.insert_ne_empty _ _)
  | wakeByRef j =>
    obtain ⟨-, rfl⟩ := next_wakeByRef h
    exact absurd hempty (Finset.ne_empty_of_mem hi)

/-- An operation between two states with the right count is balanced. -/
theorem Counted.balanced {t : Transition State Label} (hbefore : Counted box others t.before)
    (hafter : Counted box others t.after) (hnext : next box t.before t.label = some t.after) :
    Balanced box others t := by
  obtain ⟨i, hi⟩ := exists_mem_of_next hnext
  refine ⟨hafter.strong, runs_next hnext, ?_, (hbefore.alive hi).2, hafter.drops⟩
  rw [hafter.strong_eq_zero_iff]
  constructor
  · intro h
    exact ⟨consumes_of_next hnext h.1, h⟩
  · intro h
    exact h.2

/-- A clone that increments another word leaves a count without the new waker. -/
theorem Counted.strong_clone_ne (h : Counted box others s) (halign : ¬ box.align ≤ 16) {l : Label}
    (hl : l.isClone = true) (hnext : next box s l = some s') :
    (s'.strong box).toNat ≠ s'.wakers.card + others := by
  cases l with
  | wake i | wakeByRef i | drop i => cases hl
  | clone i j =>
    obtain ⟨-, hj, w, hclone, rfl⟩ := next_clone hnext
    obtain ⟨-, hmemory, -, -⟩ := incrementStrongCount_eq_some hclone
    have hother : box.address ≠ fromRaw 1 box.data := fun heq =>
      halign ((fromRaw_one_eq_iff box).mp heq.symm)
    have hstrong : (w.memory box.address).toNat = s.wakers.card + others := by
      rw [hmemory, Function.update_of_ne hother]
      exact h.strong
    rw [State.strong, hstrong, Finset.card_insert_of_notMem hj]
    omega

/-- **The runs whose operations are all balanced**: those of a value that is not aligned to more than
its two counts, and those without a clone. -/
theorem balanced_iff (box : RcBox) (others : ℕ) {s : State} {run : List (Transition State Label)}
    (h₀ : (system box others).init s) (h : (system box others).IsRun s run) :
    (∀ t ∈ run, Balanced box others t) ↔
      box.align ≤ 16 ∨ ∀ t ∈ run, t.label.isClone = false := by
  have hiff : (∀ t ∈ run, Balanced box others t) ↔
      ∀ t ∈ run, ¬ (t.label.isClone = true ∧ ¬ box.align ≤ 16) := by
    refine h.forall_good_iff (Counted box others) (counted_of_init h₀) ?_ ?_ ?_
    · intro t hstep hbefore hgood
      exact hbefore.step (fun hl => not_not.mp fun halign => hgood ⟨hl, halign⟩) hstep
    · intro t hstep hbefore hafter _
      exact hbefore.balanced hafter hstep
    · intro t hstep hbefore hbad
      exact fun hbalanced => hbefore.strong_clone_ne hbad.2 hbad.1 hstep hbalanced.strong
  rw [hiff]
  by_cases halign : box.align ≤ 16
  · simp [halign]
  · simp [halign]

/-- A world with strong count 1 at `0x1000`, and 1 in the word behind the counts. -/
def fresh : World := ⟨fun a => if a = 0x1000 ∨ a = 0x1010 then 1 else 0, 0, 0⟩

theorem init_fresh (alignLog2 : ℕ) :
    (system ⟨0x1000, alignLog2⟩ 0).init (intoWaker fresh 0) := ⟨fresh, 0, rfl, rfl, rfl⟩

/-- The run of a clone, both ways to wake, and a drop. -/
def freshRun (box : RcBox) : List (Transition State Label) :=
  TransitionSystem.follow (next box) (intoWaker fresh 0)
    [.clone 0 1, .wakeByRef 1, .wake 0, .drop 1]

/-- A value that is aligned to 8 bytes. -/
theorem balanced_align_eight :
    (freshRun ⟨0x1000, 3⟩).length = 4 ∧ ∀ t ∈ freshRun ⟨0x1000, 3⟩, Balanced ⟨0x1000, 3⟩ 0 t :=
  ⟨by decide, (balanced_iff ⟨0x1000, 3⟩ 0 (init_fresh 3)
    (TransitionSystem.isRun_follow (fun _ _ _ h => h) _ _)).mpr (Or.inl (by decide))⟩

/-- A value that is aligned to 32 bytes: after a clone there are two wakers and the count is 1. -/
theorem not_balanced_align_thirtyTwo : ¬ ∀ (box : RcBox) (s : State)
    (run : List (Transition State Label)), (system box 0).init s → (system box 0).IsRun s run →
      ∀ t ∈ run, Balanced box 0 t := by
  intro hall
  have hcounts : (next ⟨0x1000, 5⟩ (intoWaker fresh 0) (.clone 0 1)).map
      (fun s => ((s.strong ⟨0x1000, 5⟩).toNat, s.wakers.card)) = some (1, 2) := by decide
  obtain ⟨s, hstep, hs⟩ := Option.map_eq_some_iff.mp hcounts
  obtain ⟨hstrong, hcard⟩ := Prod.mk.inj hs
  have hbalanced := (hall _ _ [⟨intoWaker fresh 0, .clone 0 1, s⟩] (init_fresh 5)
    ⟨rfl, hstep, trivial⟩ _ List.mem_cons_self).strong
  rw [hstrong, hcard] at hbalanced
  cases hbalanced

end Runs

end AsyncKernel.RcWaker
