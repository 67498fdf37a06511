import Mathlib.Tactic

/-!
# Outcomes of computations that may fail

`Outcome fail post x`: the computation `x` returns a value that satisfies `post`, or fails with an
error that satisfies `fail`. With `fail` false it is total correctness, with `fail` true partial
correctness; in between it says which failures are possible. The rules compose outcomes along a
sequence and along a `for` loop, a monadic fold over `List.range' start n`.

## Main definitions

* `Outcome fail post x`: the postcondition and the admitted failures of `x`

## Main results

* `Outcome.bind`, `Outcome.mono`: sequencing and weakening
* `Outcome.foldlM`, `Outcome.foldlM_range'`: the invariant rules of a loop
* `Outcome.mapM`: the rule of a list of computations
* `bind_eq_ok_iff`: a sequence returns when both of its parts do
* `bind_map_eq`, `foldlM_map_eq`: a map of results that commutes with the parts commutes with a
  sequence and with a loop
-/

variable {σ ε α β : Type}

/-- `x` returns a value in `post` or fails with an error in `fail`. -/
def Outcome (fail : ε → Prop) (post : α → Prop) : Except ε α → Prop
  | .ok a => post a
  | .error e => fail e

namespace Outcome

variable {fail fail' : ε → Prop} {post post' : α → Prop} {x : Except ε α}

theorem of_eq_ok {a : α} (hx : x = .ok a) (h : post a) : Outcome fail post x := hx ▸ h

/-- The value of a computation that returned. -/
theorem post_of_eq_ok {a : α} (h : Outcome fail post x) (hx : x = .ok a) : post a := by
  rw [hx] at h
  exact h

/-- A computation that does not fail as admitted returns. -/
theorem exists_ok (h : Outcome fail post x) (hx : ∀ e, fail e → x ≠ .error e) :
    ∃ a, x = .ok a ∧ post a := by
  cases x with
  | ok a => exact ⟨a, rfl, h⟩
  | error e => exact absurd rfl (hx e h)

theorem mono (h : Outcome fail post x) (hfail : ∀ e, fail e → fail' e)
    (hpost : ∀ a, post a → post' a) : Outcome fail' post' x := by
  cases x with
  | ok a => exact hpost a h
  | error e => exact hfail e h

theorem bind {f : α → Except ε β} {post' : β → Prop} (h : Outcome fail post x)
    (hf : ∀ a, post a → Outcome fail post' (f a)) : Outcome fail post' (x >>= f) := by
  cases x with
  | ok a => exact hf a h
  | error e => exact h

/-- Two outcomes of one computation. -/
theorem and {fail₁ fail₂ : ε → Prop} {post₁ post₂ : α → Prop} (h₁ : Outcome fail₁ post₁ x)
    (h₂ : Outcome fail₂ post₂ x) :
    Outcome (fun e => fail₁ e ∧ fail₂ e) (fun a => post₁ a ∧ post₂ a) x := by
  cases x with
  | ok a => exact ⟨h₁, h₂⟩
  | error e => exact ⟨h₁, h₂⟩

/-- The rule of a list of computations: the values are related to the elements, one by one. -/
theorem mapM {f : α → Except ε β} {R : α → β → Prop} {l : List α}
    (h : ∀ a ∈ l, Outcome fail (R a) (f a)) : Outcome fail (List.Forall₂ R l) (l.mapM f) := by
  induction l with
  | nil => exact List.Forall₂.nil
  | cons a l ih =>
    rw [List.mapM_cons]
    have hothers := ih fun a' ha' => h a' (List.mem_cons_of_mem _ ha')
    exact (h a List.mem_cons_self).bind fun b hb => hothers.bind fun bs hbs => .cons hb hbs

/-- The invariant rule of a loop over a list. -/
theorem foldlM {f : σ → α → Except ε σ} {I : σ → Prop} (hstep : ∀ s a, I s → Outcome fail I (f s a))
    {s : σ} (h₀ : I s) (l : List α) : Outcome fail I (l.foldlM f s) := by
  induction l generalizing s with
  | nil => exact h₀
  | cons a l ih =>
    rw [List.foldlM_cons]
    exact (hstep s a h₀).bind fun s₁ hs₁ => ih hs₁

/-- The invariant rule of a loop over a list, whose elements are known. -/
theorem foldlM_of_mem {f : σ → α → Except ε σ} {I : σ → Prop} {l : List α}
    (hstep : ∀ s, ∀ a ∈ l, I s → Outcome fail I (f s a)) {s : σ} (h₀ : I s) :
    Outcome fail I (l.foldlM f s) := by
  induction l generalizing s with
  | nil => exact h₀
  | cons a l ih =>
    rw [List.foldlM_cons]
    refine (hstep s a List.mem_cons_self h₀).bind fun s₁ hs₁ => ?_
    exact ih (fun s b hb => hstep s b (List.mem_cons_of_mem a hb)) hs₁

/-- **The invariant rule of a loop**: a body that carries `I` from each index to the next, or fails
as admitted, makes the loop carry `I` to the end, or fail as admitted. -/
theorem foldlM_range' {f : σ → ℕ → Except ε σ} (I : ℕ → σ → Prop) {start n : ℕ}
    (hstep : ∀ k s, start ≤ k → k < start + n → I k s → Outcome fail (I (k + 1)) (f s k))
    {s : σ} (h₀ : I start s) :
    Outcome fail (I (start + n)) ((List.range' start n).foldlM f s) := by
  induction n generalizing start s with
  | zero => exact h₀
  | succ n ih =>
    -- One round of the loop carries `I` to `start + 1`; the rest is a shorter loop from there.
    rw [List.range'_succ, List.foldlM_cons, show start + (n + 1) = start + 1 + n by omega]
    refine (hstep start s le_rfl (by omega) h₀).bind fun s₁ hI₁ => ?_
    exact ih (fun k s hk hk' => hstep k s (by omega) (by omega)) hI₁

end Outcome

instance decidableExistsOk (x : Except ε α) : Decidable (∃ a, x = .ok a) :=
  match x with
  | .ok a => isTrue ⟨a, rfl⟩
  | .error _ => isFalse (by rintro ⟨_, ⟨⟩⟩)

/-- An element of the one list has a related one in the other. -/
theorem List.Forall₂.exists_of_mem {R : α → β → Prop} {l : List α} {l' : List β}
    (h : List.Forall₂ R l l') {a : α} (ha : a ∈ l) : ∃ b ∈ l', R a b := by
  induction h with
  | nil => exact absurd ha List.not_mem_nil
  | cons hab _ ih =>
    rcases List.mem_cons.mp ha with rfl | ha
    · exact ⟨_, List.mem_cons_self, hab⟩
    · obtain ⟨b, hb, hR⟩ := ih ha
      exact ⟨b, List.mem_cons_of_mem _ hb, hR⟩

/-- Related lists have the same image when related elements have. -/
theorem List.Forall₂.map_eq {γ : Type} {R : α → β → Prop} {l : List α} {l' : List β}
    (h : List.Forall₂ R l l') {f : α → γ} {g : β → γ} (hR : ∀ a b, R a b → f a = g b) :
    l.map f = l'.map g := by
  induction h with
  | nil => rfl
  | cons hab _ ih => rw [List.map_cons, List.map_cons, hR _ _ hab, ih]

/-- The last ones of related lists that satisfy related conditions are related. -/
theorem List.Forall₂.getLast?_filter {R : α → β → Prop} {l : List α} {l' : List β}
    (h : List.Forall₂ R l l') {p : α → Bool} {q : β → Bool} (hpq : ∀ a b, R a b → p a = q b) :
    Option.Rel (fun a b => R a b ∧ p a = true) (l.filter p).getLast? (l'.filter q).getLast? := by
  induction h with
  | nil => exact Option.Rel.none
  | @cons a b l l' hab _ ih =>
    rw [List.filter_cons, List.filter_cons, ← hpq a b hab]
    split
    · rename_i hp
      rw [List.getLast?_cons, List.getLast?_cons]
      generalize (l.filter p).getLast? = x, (l'.filter q).getLast? = y at ih
      cases ih with
      | some h => exact Option.Rel.some h
      | none => exact Option.Rel.some ⟨hab, hp⟩
    · exact ih

theorem Option.Rel.map {γ δ : Type} {R : α → β → Prop} {S : γ → δ → Prop} {x : Option α}
    {y : Option β} {f : α → γ} {g : β → δ} (h : Option.Rel R x y)
    (hR : ∀ a b, R a b → S (f a) (g b)) : Option.Rel S (x.map f) (y.map g) := by
  cases h with
  | some h => exact Option.Rel.some (hR _ _ h)
  | none => exact Option.Rel.none

theorem Option.Rel.bind {γ δ : Type} {R : α → β → Prop} {S : γ → δ → Prop} {x : Option α}
    {y : Option β} {f : α → Option γ} {g : β → Option δ} (h : Option.Rel R x y)
    (hR : ∀ a b, R a b → Option.Rel S (f a) (g b)) : Option.Rel S (x.bind f) (y.bind g) := by
  cases h with
  | some h => exact hR _ _ h
  | none => exact Option.Rel.none

theorem ok_bind (a : α) (f : α → Except ε β) : (Except.ok a >>= f) = f a := rfl

theorem bind_eq_ok_iff {x : Except ε α} {f : α → Except ε β} {b : β} :
    x >>= f = .ok b ↔ ∃ a, x = .ok a ∧ f a = .ok b := by
  cases x with
  | error e => simp [bind, Except.bind]
  | ok a => simp [bind, Except.bind]

theorem map_eq_ok_iff {x : Except ε α} {m : α → β} {b : β} :
    x.map m = .ok b ↔ ∃ a, x = .ok a ∧ m a = b := by
  cases x with
  | error e => simp [Except.map]
  | ok a => simp [Except.map]

/-- A loop whose body leaves the state as it is. -/
theorem foldlM_eq_ok_self {f : σ → α → Except ε σ} {s : σ} {l : List α}
    (h : ∀ a ∈ l, f s a = .ok s) : l.foldlM f s = .ok s := by
  induction l with
  | nil => rfl
  | cons a l ih =>
    rw [List.foldlM_cons, h a List.mem_cons_self, ok_bind]
    exact ih fun b hb => h b (List.mem_cons_of_mem _ hb)

/-- A map of results along a sequence. -/
theorem bind_map_eq {α' β' : Type} {f : α → Except ε β} {f' : α' → Except ε β'} {m : α → α'}
    {m' : β → β'} (h : ∀ a, f' (m a) = (f a).map m') (x : Except ε α) :
    x.map m >>= f' = (x >>= f).map m' := by
  cases x with
  | error e => rfl
  | ok a => exact h a

/-- A map of states along a loop. -/
theorem foldlM_map_eq {σ' α' : Type} {f : σ → α → Except ε σ} {f' : σ' → α' → Except ε σ'}
    {m : σ → σ'} {k : α → α'} (h : ∀ s a, f' (m s) (k a) = (f s a).map m) (l : List α) (s : σ) :
    (l.map k).foldlM f' (m s) = (l.foldlM f s).map m := by
  induction l generalizing s with
  | nil => rfl
  | cons a l ih =>
    rw [List.map_cons, List.foldlM_cons, List.foldlM_cons, h]
    exact bind_map_eq ih (f s a)
