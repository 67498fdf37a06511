import Mathlib.Tactic

/-!
# Maps as lists of entries

A finite map as the list of its entries. `Assoc.insert` replaces the value of a key that is there, and
adds an entry otherwise; `List.lookup` finds the value of a key.

## Main definitions

* `Assoc.insert`: the map after an insertion

## Main results

* `Assoc.lookup_insert`: the values after an insertion
* `Assoc.sum_insert`: a sum over the values after an insertion
* `Assoc.mem_iff_lookup`: the entries of a map with different keys
* `Assoc.find_foldl`, `Assoc.find_foldl_of_mem`, `Assoc.find_foldl_of_notMem`: a map, of any kind,
  after insertions
-/

namespace Assoc

variable {κ α : Type} [DecidableEq κ]

/-- Insertion: an entry of the key keeps its place, and gets the new value. -/
def insert (k : κ) (v : α) : List (κ × α) → List (κ × α)
  | [] => [(k, v)]
  | (k', v') :: m => if k' = k then (k', v) :: m else (k', v') :: insert k v m

/-- What is in a map after an insertion was there, or is the new entry. -/
theorem eq_or_mem_of_mem_insert {k : κ} {v : α} {m : List (κ × α)} {e : κ × α}
    (h : e ∈ insert k v m) : e = (k, v) ∨ e ∈ m := by
  induction m with
  | nil => exact Or.inl (List.mem_singleton.mp h)
  | cons e₁ m ih =>
    obtain ⟨k₁, v₁⟩ := e₁
    rw [insert] at h
    split at h
    · rename_i hk
      subst hk
      rcases List.mem_cons.mp h with rfl | h
      · exact Or.inl rfl
      · exact Or.inr (List.mem_cons_of_mem _ h)
    · rcases List.mem_cons.mp h with rfl | h
      · exact Or.inr List.mem_cons_self
      · exact (ih h).imp_right (List.mem_cons_of_mem _)

theorem nodup_insert {k : κ} {v : α} {m : List (κ × α)} (h : (m.map Prod.fst).Nodup) :
    ((insert k v m).map Prod.fst).Nodup := by
  induction m with
  | nil => exact List.nodup_singleton k
  | cons e m ih =>
    obtain ⟨k₁, v₁⟩ := e
    rw [insert]
    split
    · exact h
    · rename_i hk
      rw [List.map_cons, List.nodup_cons] at h ⊢
      refine ⟨fun hmem => ?_, ih h.2⟩
      obtain ⟨e, he, heq⟩ := List.mem_map.mp hmem
      rcases eq_or_mem_of_mem_insert he with rfl | he
      · exact hk heq.symm
      · exact h.1 (List.mem_map.mpr ⟨e, he, heq⟩)

section Lookup

variable [BEq κ] [LawfulBEq κ] {k k' : κ} {v : α} {m : List (κ × α)}

theorem lookup_cons_eq {e : κ × α} :
    (e :: m).lookup k = if k = e.1 then some e.2 else m.lookup k := by
  obtain ⟨k₁, v₁⟩ := e
  by_cases h : k = k₁
  · simp [h]
  · simp [List.lookup_cons, h, beq_false_of_ne h]

theorem lookup_insert :
    (insert k v m).lookup k' = if k' = k then some v else m.lookup k' := by
  induction m with
  | nil => rw [insert, lookup_cons_eq]
  | cons e m ih =>
    obtain ⟨k₁, v₁⟩ := e
    rw [insert]
    split
    · rename_i hk
      subst hk
      simp only [lookup_cons_eq]
      split <;> rfl
    · rename_i hk
      simp only [lookup_cons_eq, ih]
      by_cases h : k' = k₁
      · subst h
        simp [hk]
      · simp [h]

/-- The values of a map, changed. -/
theorem lookup_map {β : Type} {f : α → β} :
    (m.map fun e => (e.1, f e.2)).lookup k = (m.lookup k).map f := by
  induction m with
  | nil => rfl
  | cons e m ih =>
    rw [List.map_cons, lookup_cons_eq, lookup_cons_eq, ih]
    split <;> rfl

/-- A sum over the values: the new value counts in the place of the one that it replaces. -/
theorem sum_insert (f : α → ℕ) :
    ((insert k v m).map fun e => f e.2).sum + (m.lookup k).elim 0 f =
      (m.map fun e => f e.2).sum + f v := by
  induction m with
  | nil => simp [insert]
  | cons e m ih =>
    obtain ⟨k₁, v₁⟩ := e
    by_cases hk : k₁ = k
    · subst hk
      simp [insert]
      omega
    · rw [insert, if_neg hk, lookup_cons_eq, if_neg (Ne.symm hk)]
      simp only [List.map_cons, List.sum_cons]
      omega

/-! ### Maps with different keys -/

theorem mem_iff_lookup (h : (m.map Prod.fst).Nodup) : (k, v) ∈ m ↔ m.lookup k = some v := by
  induction m with
  | nil => simp
  | cons e m ih =>
    obtain ⟨k₁, v₁⟩ := e
    rw [List.map_cons, List.nodup_cons] at h
    rw [lookup_cons_eq, List.mem_cons, ih h.2, Prod.mk.injEq]
    split
    · rename_i hk
      subst hk
      -- the first entry is the only one of its key
      have hnone : (k, v) ∉ m := fun hmem => h.1 (List.mem_map.mpr ⟨_, hmem, rfl⟩)
      rw [← ih h.2]
      simp [hnone, eq_comm]
    · rename_i hk
      simp [hk]

end Lookup

/-! ## Several insertions -/

section Foldl

variable {σ ι : Type} {find : σ → κ → Option α} {put : σ → ι → σ} {key : ι → κ} {val : ι → α}
  {l : List ι} {i : ι} {k : κ} {s : σ}

/-- What an insertion keeps, several keep. -/
theorem apply_foldl {τ : Type} {f : σ → τ} (hput : ∀ s i, f (put s i) = f s) :
    f (l.foldl put s) = f s := by
  induction l generalizing s with
  | nil => rfl
  | cons i l ih => rw [List.foldl_cons, ih, hput]

/-- The last one that has been inserted under a key is found under it. -/
theorem find_foldl
    (hput : ∀ s i k, find (put s i) k = if k = key i then some (val i) else find s k) :
    find (l.foldl put s) k =
      ((l.filter fun i => key i = k).getLast?.map val).or (find s k) := by
  induction l using List.reverseRecOn with
  | nil => rfl
  | append_singleton l i ih =>
    rw [List.foldl_append, List.foldl_cons, List.foldl_nil, hput, List.filter_append]
    by_cases hk : k = key i
    · simp [hk]
    · have hne : ¬ key i = k := fun h => hk h.symm
      simp [hk, hne, ih]

/-- What has not been inserted stays as it was. -/
theorem find_foldl_of_notMem
    (hput : ∀ s i k, find (put s i) k = if k = key i then some (val i) else find s k)
    (hk : k ∉ l.map key) : find (l.foldl put s) k = find s k := by
  induction l generalizing s with
  | nil => rfl
  | cons i l ih =>
    rw [List.map_cons, List.mem_cons, not_or] at hk
    rw [List.foldl_cons, ih hk.2, hput, if_neg hk.1]

/-- Entries with different keys are all there after they have been inserted. -/
theorem find_foldl_of_mem
    (hput : ∀ s i k, find (put s i) k = if k = key i then some (val i) else find s k)
    (hnodup : (l.map key).Nodup) (hi : i ∈ l) :
    find (l.foldl put s) (key i) = some (val i) := by
  induction l generalizing s with
  | nil => exact absurd hi List.not_mem_nil
  | cons j l ih =>
    rw [List.map_cons, List.nodup_cons] at hnodup
    rw [List.foldl_cons]
    rcases List.mem_cons.mp hi with rfl | hi
    · rw [find_foldl_of_notMem hput hnodup.1, hput, if_pos rfl]
    · exact ih hnodup.2 hi

end Foldl

end Assoc
