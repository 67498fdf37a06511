import AsyncKernel.Drivers.Plic
import AsyncKernel.Foundation.Parties

/-!
# Harts that set up the interrupt controller together

`set_priority` and `set_threshold` write one register of the controller. `set_enabled` reads a word of
an enable array and writes it back with one bit changed, and what another hart has written to the word
in between is lost. The handles that the harts make have different contexts (`new_with_addr`), so their
arrays share no word, and in whatever order the harts take their steps each call is performed as if it
were one. The registers are taken as plain memory, and the controller has 15872 contexts.

## Main definitions

* `Plic0.setPriority`, `Plic0.setThreshold`: the other setters
* `Plic0.harts`: several handles, with the read and the write of `set_enabled` one step each
* `Plic0.Settings`: what the calls are to do to the controller
* `Plic0.Shows`: the registers that hold the settings

## Main results

* `Plic0.shows_done`: the registers hold what the calls that have returned have set
-/

namespace AsyncKernel

namespace Plic0

/-- `set_priority`. -/
def setPriority (p : Plic0) (interrupt : ℕ) (priority : BitVec 32) (mem : Memory) :
    Except Fault Memory := do
  let register ← checked (p.baseAddr + interrupt * 4)
  return Function.update mem register priority

/-- `set_threshold`. -/
def setThreshold (p : Plic0) (threshold : BitVec 32) (mem : Memory) : Except Fault Memory := do
  let thresholdBase ← checked (p.baseAddr + 0x200000)
  let offset ← checked (p.contextNumber * 0x1000)
  let targetBase ← checked (thresholdBase + offset)
  return Function.update mem targetBase threshold

/-- A call of a setter. -/
inductive Setter
  | priority (interrupt : ℕ) (value : BitVec 32)
  | enabled (interrupt : ℕ) (enable : Bool)
  | threshold (value : BitVec 32)
  deriving DecidableEq, Repr

/-- A call of `set_enabled` that has read the word. -/
structure Pending where
  interrupt : ℕ
  enable : Bool
  word : BitVec 32
  deriving DecidableEq, Repr

/-- The word that `set_enabled` writes. -/
def Pending.written (c : Pending) : BitVec 32 :=
  if c.enable then c.word ||| BitVec.ofNat 32 c.enable.toNat <<< (c.interrupt % 32)
  else c.word &&& ~~~(BitVec.ofNat 32 c.enable.toNat <<< (c.interrupt % 32))

/-- The memory, and the calls that have returned. -/
structure Controller (ι : Type) where
  mem : Memory
  done : List (ι × Setter)

inductive Label
  /-- a call, up to the read when it is one of `set_enabled` -/
  | call (c : Setter)
  /-- the write of `set_enabled` -/
  | write
  deriving DecidableEq, Repr

variable {ι : Type}

/-- A call that is one access. -/
def Controller.perform (s : Controller ι) (i : ι) (c : Setter) :
    Except Fault Memory → Option (Option Pending × Controller ι)
  | .ok mem => some (none, ⟨mem, s.done ++ [(i, c)]⟩)
  -- the addition panics
  | .error _ => none

/-- What the owner of a handle does. -/
def move (handles : ι → Plic0) (i : ι) :
    Label → Option Pending → Controller ι → Option (Option Pending × Controller ι)
  | .call (.priority interrupt value), none, s =>
    s.perform i (.priority interrupt value) ((handles i).setPriority interrupt value s.mem)
  | .call (.threshold value), none, s =>
    s.perform i (.threshold value) ((handles i).setThreshold value s.mem)
  | .call (.enabled interrupt enable), none, s =>
    if (handles i).register interrupt < usizeCard then
      some (some ⟨interrupt, enable, s.mem ((handles i).register interrupt)⟩, s)
    else none
  | .write, some c, s =>
    some (none, ⟨Function.update s.mem ((handles i).register c.interrupt) c.written,
      s.done ++ [(i, .enabled c.interrupt c.enable)]⟩)
  | .call _, some _, _ | .write, none, _ => none

/-- A call is about an interrupt that the controller has. -/
def Label.Valid : Label → Prop
  | .call (.priority interrupt _) | .call (.enabled interrupt _) => interrupt < 1024
  | .call (.threshold _) | .write => True

instance (l : Label) : Decidable l.Valid :=
  match l with
  | .call (.priority interrupt _) | .call (.enabled interrupt _) =>
    inferInstanceAs (Decidable (interrupt < 1024))
  | .call (.threshold _) | .write => instDecidableTrue

/-- **Several handles**, whose owners call the setters in any order. -/
def harts [DecidableEq ι] (handles : ι → Plic0) (mem : Memory) :
    TransitionSystem (Parties ι (Option Pending) (Controller ι)) (ι × Label) :=
  (Parties.system (fun s => s = ⟨fun _ => none, mem, []⟩) (move handles)).restrict
    fun _ l _ => l.2.Valid

/-! ## The settings of a controller -/

/-- The settings of a controller. -/
structure Settings (ι : Type) where
  enabled : ι → ℕ → Bool
  priority : ℕ → BitVec 32
  threshold : ι → BitVec 32

/-- What a call does to the settings. To disable an interrupt does nothing. -/
def Settings.set [DecidableEq ι] (s : Settings ι) : ι × Setter → Settings ι
  | (_, .priority interrupt value) =>
    { s with priority := Function.update s.priority interrupt value }
  | (i, .enabled interrupt enable) =>
    let bits := Function.update (s.enabled i) interrupt (s.enabled i interrupt || enable)
    { s with enabled := Function.update s.enabled i bits }
  | (i, .threshold value) => { s with threshold := Function.update s.threshold i value }

/-- The register for the threshold of the context. -/
def thresholdRegister (p : Plic0) : ℕ := p.baseAddr + 0x200000 + p.contextNumber * 0x1000

/-- **The registers hold the settings.** -/
structure Shows (handles : ι → Plic0) (baseAddr : ℕ) (mem : Memory) (s : Settings ι) : Prop where
  enabled : ∀ i, ∀ n < 1024, (handles i).bit n mem = s.enabled i n
  priority : ∀ n < 1024, mem (baseAddr + n * 4) = s.priority n
  threshold : ∀ i, mem (handles i).thresholdRegister = s.threshold i

/-- Handles of one controller, with contexts of their own, that the controller has. -/
structure Distinct (handles : ι → Plic0) (baseAddr : ℕ) : Prop where
  base : ∀ i, (handles i).baseAddr = baseAddr
  injective : ∀ i j, (handles i).contextNumber = (handles j).contextNumber → i = j
  context_lt : ∀ i, (handles i).contextNumber < 15872

variable {handles : ι → Plic0} {baseAddr : ℕ} {i j : ι} {mem mem' : Memory}
  {m n : ℕ} {settings : Settings ι} {value : BitVec 32}

/-! ## The registers are different -/

namespace Distinct

variable (h : Distinct handles baseAddr)
include h

theorem register_ne_priority (i : ι) (hm : m < 1024) (hn : n < 1024) :
    (handles i).register m ≠ baseAddr + n * 4 := by
  have hbase := h.base i
  unfold register
  omega

theorem thresholdRegister_ne_priority (i : ι) (hn : n < 1024) :
    (handles i).thresholdRegister ≠ baseAddr + n * 4 := by
  have hbase := h.base i
  unfold thresholdRegister
  omega

theorem register_ne_threshold (i j : ι) (hn : n < 1024) :
    (handles i).register n ≠ (handles j).thresholdRegister := by
  have hbase := h.base i
  have hbase' := h.base j
  have hlt := h.context_lt i
  unfold register thresholdRegister
  omega

theorem thresholdRegister_inj (hij : (handles i).thresholdRegister = (handles j).thresholdRegister) :
    i = j := by
  have hbase := h.base i
  have hbase' := h.base j
  refine h.injective i j ?_
  unfold thresholdRegister at hij
  omega

/-- Another context has another word. -/
theorem register_ne (hij : i ≠ j) (hm : m < 1024) (hn : n < 1024) :
    (handles i).register m ≠ (handles j).register n := by
  intro heq
  have hbase : (handles i).baseAddr = (handles j).baseAddr := (h.base i).trans (h.base j).symm
  exact hij (h.injective i j ((register_eq_iff hbase hm hn).mp heq).1)

end Distinct

/-- The handles that harts make have contexts of their own. -/
theorem distinct_newWithAddr {hartid : ι → ℕ} (hinjective : Function.Injective hartid)
    (hlt : ∀ i, hartid i < 7936) (hnew : ∀ i, newWithAddr (hartid i) baseAddr = .ok (handles i)) :
    Distinct handles baseAddr := by
  have hhandle : ∀ i, handles i = ⟨baseAddr, 1 + hartid i * 2⟩ := by
    intro i
    obtain ⟨context, hget, hhandle⟩ := bind_eq_ok_iff.mp (hnew i)
    obtain ⟨modes, hmodes, hcontext⟩ := bind_eq_ok_iff.mp hget
    rw [← Except.ok.inj hhandle, (checked_eq_ok_iff.mp hcontext).2, (checked_eq_ok_iff.mp hmodes).2]
  refine ⟨fun i => by rw [hhandle], fun i j heq => ?_, fun i => ?_⟩
  · exact hinjective (contextNumber_injective (hnew i) (hnew j) heq)
  · have hbound := hlt i
    rw [hhandle]
    dsimp only
    omega

/-! ## What the calls do -/

theorem setPriority_eq_ok (hset : (handles i).setPriority n value mem = .ok mem') :
    mem' = Function.update mem ((handles i).baseAddr + n * 4) value := by
  obtain ⟨_, hregister, hresult⟩ := bind_eq_ok_iff.mp hset
  rw [(checked_eq_ok_iff.mp hregister).2] at hresult
  exact (Except.ok.inj hresult).symm

theorem setThreshold_eq_ok (hset : (handles i).setThreshold value mem = .ok mem') :
    mem' = Function.update mem (handles i).thresholdRegister value := by
  obtain ⟨_, hbase, hset⟩ := bind_eq_ok_iff.mp hset
  obtain ⟨_, hoffset, hset⟩ := bind_eq_ok_iff.mp hset
  obtain ⟨_, hregister, hresult⟩ := bind_eq_ok_iff.mp hset
  rw [(checked_eq_ok_iff.mp hregister).2, (checked_eq_ok_iff.mp hbase).2,
    (checked_eq_ok_iff.mp hoffset).2] at hresult
  exact (Except.ok.inj hresult).symm

/-- The read and the write of a call, with nothing in between, are the call. -/
theorem setEnabled_eq_written (p : Plic0) (enable : Bool) (hlt : p.register n < usizeCard) :
    p.setEnabled n enable mem = .ok (Function.update mem (p.register n)
      (Pending.written ⟨n, enable, mem (p.register n)⟩)) := by
  refine setEnabled_eq_ok_iff.mpr ⟨hlt, ?_⟩
  cases enable with
  | true => rfl
  | false =>
    have hmask : ~~~(BitVec.ofNat 32 false.toNat <<< (n % 32)) = BitVec.allOnes 32 := by
      rw [Bool.toNat_false, BitVec.zero_shiftLeft]
      rfl
    rw [Pending.written, if_neg Bool.false_ne_true, if_neg Bool.false_ne_true, hmask,
      BitVec.and_allOnes, Function.update_eq_self]

namespace Shows

variable [DecidableEq ι] (hshows : Shows handles baseAddr mem settings) (h : Distinct handles baseAddr)
include hshows h

theorem set_priority (i : ι) (hn : n < 1024) :
    Shows handles baseAddr (Function.update mem ((handles i).baseAddr + n * 4) value)
      (settings.set (i, .priority n value)) := by
  rw [h.base i]
  refine ⟨fun j m hm => ?_, fun m hm => ?_, fun j => ?_⟩
  · rw [bit, Function.update_of_ne (h.register_ne_priority j hm hn)]
    exact hshows.enabled j m hm
  · by_cases heq : m = n
    · subst heq
      rw [Function.update_self]
      exact (Function.update_self m value settings.priority).symm
    · rw [Function.update_of_ne (by omega)]
      rw [hshows.priority m hm]
      exact (Function.update_of_ne heq value settings.priority).symm
  · rw [Function.update_of_ne (h.thresholdRegister_ne_priority j hn)]
    exact hshows.threshold j

theorem set_threshold (i : ι) :
    Shows handles baseAddr (Function.update mem (handles i).thresholdRegister value)
      (settings.set (i, .threshold value)) := by
  refine ⟨fun j m hm => ?_, fun m hm => ?_, fun j => ?_⟩
  · rw [bit, Function.update_of_ne (h.register_ne_threshold j i hm)]
    exact hshows.enabled j m hm
  · rw [Function.update_of_ne (h.thresholdRegister_ne_priority i hm).symm]
    exact hshows.priority m hm
  · by_cases heq : j = i
    · subst heq
      rw [Function.update_self]
      exact (Function.update_self j value settings.threshold).symm
    · rw [Function.update_of_ne (fun hregister => heq (h.thresholdRegister_inj hregister))]
      rw [hshows.threshold j]
      exact (Function.update_of_ne heq value settings.threshold).symm

theorem set_enabled (i : ι) {enable : Bool} (hn : n < 1024)
    (hset : (handles i).setEnabled n enable mem = .ok mem') :
    Shows handles baseAddr mem' (settings.set (i, .enabled n enable)) := by
  obtain ⟨-, rfl⟩ := setEnabled_eq_ok_iff.mp hset
  have hframe : ∀ a, a ≠ (handles i).register n →
      (if enable then (handles i).enabled n mem else mem) a = mem a := by
    intro a ha
    split
    · exact Function.update_of_ne ha _ mem
    · rfl
  refine ⟨fun j m hm => ?_, fun m hm => ?_, fun j => ?_⟩
  · have hbit : (handles j).bit m (if enable then (handles i).enabled n mem else mem) =
        ((handles j).bit m mem || (decide (j = i ∧ m = n) && enable)) := by
      cases enable with
      | true =>
        have hcontext : (handles i).contextNumber = (handles j).contextNumber ↔ j = i :=
          ⟨fun heq => h.injective j i heq.symm, fun heq => by rw [heq]⟩
        rw [if_pos rfl, bit_enabled ((h.base j).trans (h.base i).symm) hm hn, Bool.and_true,
          decide_eq_decide.mpr (and_congr hcontext eq_comm)]
      | false => rw [if_neg Bool.false_ne_true, Bool.and_false, Bool.or_false]
    rw [hbit, hshows.enabled j m hm]
    dsimp only [Settings.set]
    by_cases hj : j = i
    · subst hj
      rw [Function.update_self]
      by_cases hmn : m = n
      · subst hmn
        rw [Function.update_self, decide_eq_true ⟨rfl, rfl⟩, Bool.true_and]
      · rw [Function.update_of_ne hmn, decide_eq_false fun hand => hmn hand.2, Bool.false_and,
          Bool.or_false]
    · rw [Function.update_of_ne hj, decide_eq_false fun hand => hj hand.1, Bool.false_and,
        Bool.or_false]
  · rw [hframe _ (h.register_ne_priority i hn hm).symm]
    exact hshows.priority m hm
  · rw [hframe _ (h.register_ne_threshold i j hn).symm]
    exact hshows.threshold j

end Shows

/-! ## Runs -/

/-- What the owner of a handle may rely on: the word that it has read is still there. -/
def Current (handles : ι → Plic0) (i : ι) (control : Option Pending) (s : Controller ι) : Prop :=
  ∀ c ∈ control, c.interrupt < 1024 ∧ (handles i).register c.interrupt < usizeCard ∧
    c.word = s.mem ((handles i).register c.interrupt)

/-- What a step can do. -/
inductive Steps (handles : ι → Plic0) (i : ι) (s : Controller ι) :
    Label → Option Pending → Option Pending → Controller ι → Prop
  | priority {interrupt : ℕ} {value : BitVec 32} {mem : Memory}
      (hset : (handles i).setPriority interrupt value s.mem = .ok mem) :
    Steps handles i s (.call (.priority interrupt value)) none none
      ⟨mem, s.done ++ [(i, .priority interrupt value)]⟩
  | threshold {value : BitVec 32} {mem : Memory}
      (hset : (handles i).setThreshold value s.mem = .ok mem) :
    Steps handles i s (.call (.threshold value)) none none
      ⟨mem, s.done ++ [(i, .threshold value)]⟩
  | read (interrupt : ℕ) (enable : Bool) (hlt : (handles i).register interrupt < usizeCard) :
    Steps handles i s (.call (.enabled interrupt enable)) none
      (some ⟨interrupt, enable, s.mem ((handles i).register interrupt)⟩) s
  | write (c : Pending) : Steps handles i s .write (some c) none
      ⟨Function.update s.mem ((handles i).register c.interrupt) c.written,
        s.done ++ [(i, .enabled c.interrupt c.enable)]⟩

theorem perform_eq_some {s s' : Controller ι} {c : Setter} {result : Except Fault Memory}
    {control : Option Pending} (hperform : s.perform i c result = some (control, s')) :
    ∃ mem, result = .ok mem ∧ control = none ∧ s' = ⟨mem, s.done ++ [(i, c)]⟩ := by
  cases result with
  | error fault => cases hperform
  | ok mem =>
    obtain ⟨rfl, rfl⟩ := Prod.mk.inj (Option.some.inj hperform)
    exact ⟨mem, rfl, rfl, rfl⟩

theorem steps_of_move {s s' : Controller ι} {l : Label} {control control' : Option Pending}
    (hmove : move handles i l control s = some (control', s')) :
    Steps handles i s l control control' s' := by
  cases l with
  | call c =>
    cases control with
    | some c' => cases c <;> cases hmove
    | none =>
      cases c with
      | priority interrupt value =>
        obtain ⟨mem, hset, rfl, rfl⟩ := perform_eq_some hmove
        exact .priority hset
      | threshold value =>
        have hperform : s.perform i (.threshold value) ((handles i).setThreshold value s.mem) =
            some (control', s') := hmove
        obtain ⟨mem, hset, rfl, rfl⟩ := perform_eq_some hperform
        exact .threshold hset
      | enabled interrupt enable =>
        by_cases hlt : (handles i).register interrupt < usizeCard
        · have hread := (if_pos hlt).symm.trans hmove
          obtain ⟨rfl, rfl⟩ := Prod.mk.inj (Option.some.inj hread)
          exact .read interrupt enable hlt
        · cases (if_neg hlt).symm.trans hmove
  | write =>
    cases control with
    | none => cases hmove
    | some c =>
      obtain ⟨rfl, rfl⟩ := Prod.mk.inj (Option.some.inj hmove)
      exact .write c

/-- A word that has just been read is still there. -/
theorem Steps.current {s s' : Controller ι} {l : Label} {control control' : Option Pending}
    (hsteps : Steps handles i s l control control' s') (hvalid : l.Valid) :
    Current handles i control' s' := by
  intro c hc
  cases hsteps with
  | read interrupt enable hlt =>
    obtain rfl := Option.some.inj hc
    exact ⟨hvalid, hlt, rfl⟩
  | priority | threshold | write => cases hc

/-- A step leaves the words of the other contexts. -/
theorem Steps.frame {s s' : Controller ι} {l : Label} {control control' : Option Pending}
    (hsteps : Steps handles i s l control control' s') (h : Distinct handles baseAddr)
    (hvalid : l.Valid) (hcurrent : Current handles i control s) (hj : j ≠ i) (hm : m < 1024) :
    s'.mem ((handles j).register m) = s.mem ((handles j).register m) := by
  cases hsteps with
  | priority hset =>
    rw [setPriority_eq_ok hset, h.base i]
    exact Function.update_of_ne (h.register_ne_priority j hm hvalid) _ _
  | threshold hset =>
    rw [setThreshold_eq_ok hset]
    exact Function.update_of_ne (h.register_ne_threshold j i hm) _ _
  | read interrupt enable hlt => rfl
  | write c => exact Function.update_of_ne (h.register_ne hj hm (hcurrent c rfl).1) _ _

variable [DecidableEq ι]

/-- The registers hold the settings after a step. -/
theorem Steps.shows {s s' : Controller ι} {l : Label} {control control' : Option Pending}
    (hsteps : Steps handles i s l control control' s') (h : Distinct handles baseAddr)
    (hvalid : l.Valid) (hcurrent : Current handles i control s)
    (hshows : Shows handles baseAddr s.mem (s.done.foldl Settings.set settings)) :
    Shows handles baseAddr s'.mem (s'.done.foldl Settings.set settings) := by
  cases hsteps with
  | priority hset =>
    rw [List.foldl_append, setPriority_eq_ok hset]
    exact hshows.set_priority h i hvalid
  | threshold hset =>
    rw [List.foldl_append, setThreshold_eq_ok hset]
    exact hshows.set_threshold h i
  | read interrupt enable hlt => exact hshows
  | write c =>
    obtain ⟨interrupt, enable, word⟩ := c
    obtain ⟨hn, hlt, hword⟩ := hcurrent _ rfl
    -- the word has not changed since it was read
    dsimp only at hn hlt hword ⊢
    subst hword
    rw [List.foldl_append]
    exact hshows.set_enabled h i hn (setEnabled_eq_written _ enable hlt)

/-- The registers hold the settings, and the words that have been read are still there. -/
structure Sound (handles : ι → Plic0) (baseAddr : ℕ) (settings : Settings ι)
    (s : Parties ι (Option Pending) (Controller ι)) : Prop where
  shows : Shows handles baseAddr s.shared.mem (s.shared.done.foldl Settings.set settings)
  current : ∀ i, Current handles i (s.control i) s.shared

theorem Sound.step {s s' : Parties ι (Option Pending) (Controller ι)} {l : Label}
    (hsound : Sound handles baseAddr settings s) (h : Distinct handles baseAddr)
    (hstep : s.next (move handles) (i, l) = some s') (hvalid : l.Valid) :
    Sound handles baseAddr settings s' := by
  obtain ⟨hshows, hcurrent⟩ := hsound
  constructor
  · obtain ⟨control, shared, hmove, rfl⟩ := Parties.next_eq_some hstep
    exact (steps_of_move hmove).shows h hvalid (hcurrent i) hshows
  · refine Parties.assertions hstep
      (fun control shared hmove => (steps_of_move hmove).current hvalid) ?_
    intro control shared hmove j hj c hc
    obtain ⟨hn, hlt, hword⟩ := hcurrent j c hc
    exact ⟨hn, hlt, hword.trans ((steps_of_move hmove).frame h hvalid (hcurrent i) hj hn).symm⟩

/-- **No call is lost**: in every order of their steps, the registers hold what the calls that have
returned have set, one after the other. -/
theorem shows_done {s : Parties ι (Option Pending) (Controller ι)}
    (hreach : (harts handles mem).Reachable s) (h : Distinct handles baseAddr)
    (hshows : Shows handles baseAddr mem settings) :
    Shows handles baseAddr s.shared.mem (s.shared.done.foldl Settings.set settings) := by
  have hsound : Sound handles baseAddr settings s := by
    refine hreach.invariant ?_ fun s l s' hsound hstep => hsound.step h hstep.1 hstep.2
    rintro s rfl
    exact ⟨hshows, fun i c hc => by cases hc⟩
  exact hsound.shows

/-- The handles of the first two harts. -/
def twoHandles (second : Bool) : Plic0 := ⟨0x0c000000, if second then 3 else 1⟩

/-- Both harts read a word before one of them writes. -/
def crossed : List (Bool × Label) :=
  [(false, .call (.enabled 10 true)), (true, .call (.enabled 10 true)),
    (true, .write), (false, .write), (false, .call (.priority 10 7))]

/-- The settings of a controller after a reset. -/
def noSettings : Settings Bool := ⟨fun _ _ => false, fun _ => 0, fun _ => 0⟩

/-- Both interrupts are enabled, and the priority is set. -/
theorem shows_done_crossed : ∃ s, (harts twoHandles fun _ => 0).Reachable s ∧
    s.shared.done = [(true, .enabled 10 true), (false, .enabled 10 true), (false, .priority 10 7)] ∧
    Shows twoHandles 0x0c000000 s.shared.mem (s.shared.done.foldl Settings.set noSettings) := by
  let start : Parties Bool (Option Pending) (Controller Bool) := ⟨fun _ => none, fun _ => 0, []⟩
  let okay : Parties Bool (Option Pending) (Controller Bool) → Bool × Label →
      Parties Bool (Option Pending) (Controller Bool) → Bool := fun _ l _ => decide l.2.Valid
  have hrun : (crossed.foldlM
      (fun s l => (Parties.next (move twoHandles) s l).filter (okay s l)) start).map
        (fun s => s.shared.done) =
      some [(true, .enabled 10 true), (false, .enabled 10 true), (false, .priority 10 7)] := by
    decide +kernel
  obtain ⟨s, hs, hdone⟩ := Option.map_eq_some_iff.mp hrun
  have hreach : (harts twoHandles fun _ => 0).Reachable s :=
    .foldlM_restrict (.init rfl) okay crossed (fun _ _ _ h => h)
      (fun _ _ _ hokay => of_decide_eq_true hokay) hs
  have hdistinct : Distinct twoHandles 0x0c000000 := by
    have hinjective : Function.Injective fun second : Bool => if second then 1 else 0 := by decide
    refine distinct_newWithAddr hinjective ?_ ?_
    · decide
    · intro second
      cases second <;> rfl
  refine ⟨s, hreach, hdone, shows_done hreach hdistinct ⟨fun i n _ => ?_, fun _ _ => rfl,
    fun _ => rfl⟩⟩
  exact BitVec.getLsbD_zero

end Plic0

end AsyncKernel
