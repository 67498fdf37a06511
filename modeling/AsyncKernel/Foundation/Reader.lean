import Mathlib.Data.Seq.Basic
import Mathlib.Tactic

/-!
# Readers

A reader fills a part of a buffer with the next elements of a stream and says how many they were, or
fails. It may hand over fewer elements than the buffer holds. What a computation makes of a reader is
told by the log of its answers: the elements that were handed over before the stream has ended or a
read has failed, and which of the two came first.

## Main definitions

* `Reader`, `Answer`: a reader, and what a call gives back
* `Reader.Fills`, `Reader.Streams`: the reader hands over a stream, and ends only with it
* `Reader.Ends`: the reader does not hand over elements for ever
* `Reader.logged`: the reader with the log of its answers
* `Reader.delivered`, `Reader.stop`: what a log says
* `Reader.ofList`, `Reader.repeating`: the reader of a list in memory, and of one repeated element

## Main results

* `Reader.Fills.stream_append`: what has been handed over is a prefix of the stream
* `Reader.Streams.ends`: a finite stream ends
-/

/-- What a call gives back: its result, the contents of the buffer, and the reader afterwards. -/
structure Answer (R α σ : Type) where
  result : R
  buf : List α
  reader : σ

/-- What a call gives back, with a log. -/
def Answer.withLog {R α σ Λ : Type} (a : Answer R α σ) (log : Λ) : Answer R α (σ × Λ) :=
  ⟨a.result, a.buf, (a.reader, log)⟩

/-- A reader with the states `σ`: a read is offered a buffer, and gives it back with the same
length. -/
structure Reader (E α σ : Type) where
  read : σ → List α → Answer (Except E ℕ) α σ
  length_buf : ∀ s buf, (read s buf).buf.length = buf.length

namespace Reader

open Stream' (Seq)

variable {E α σ : Type} {r : Reader E α σ} {stream : σ → Seq α} {s : σ} {buf : List α} {n : ℕ}

/-- The reader hands over a stream: a read that returns a number has filled that many places of its
buffer with the next elements. -/
structure Fills (r : Reader E α σ) (stream : σ → Seq α) : Prop where
  le : ∀ s buf n, (r.read s buf).result = .ok n → n ≤ buf.length
  stream_eq : ∀ s buf n, (r.read s buf).result = .ok n →
    stream s = (Seq.ofList ((r.read s buf).buf.take n)).append (stream (r.read s buf).reader)

/-- The reader hands over a stream, and nothing only at its end or for an empty buffer. -/
structure Streams (r : Reader E α σ) (stream : σ → Seq α) : Prop extends r.Fills stream where
  nil : ∀ s buf, (r.read s buf).result = .ok 0 → buf = [] ∨ stream s = Seq.nil

/-- However often the reader is offered a buffer of a size, it comes to an end or to an error. -/
def Ends (r : Reader E α σ) (size : ℕ) (s : σ) : Prop :=
  Acc (fun s' s => ∃ buf n, buf.length = size ∧ (r.read s buf).result = .ok n ∧ n ≠ 0 ∧
    s' = (r.read s buf).reader) s

/-! ## Logs -/

/-- What a reader has answered: the elements that it has handed over, or an error. -/
abbrev Log (E α : Type) : Type := List (Except E (List α))

/-- The elements that were handed over before the stream has ended or a read has failed. -/
def delivered : Log E α → List α
  | [] => []
  | .ok [] :: _ => []
  | .ok (a :: elements) :: log => a :: elements ++ delivered log
  | .error _ :: _ => []

/-- What came first: the end of the stream, or an error. -/
def stop : Log E α → Option (Except E Unit)
  | [] => none
  | .ok [] :: _ => some (.ok ())
  | .ok (_ :: _) :: log => stop log
  | .error e :: _ => some (.error e)

theorem delivered_cons {elements : List α} (h : elements ≠ []) (log : Log E α) :
    delivered (.ok elements :: log) = elements ++ delivered log := by
  cases elements with
  | nil => exact absurd rfl h
  | cons a elements => rfl

theorem stop_cons {elements : List α} (h : elements ≠ []) (log : Log E α) :
    stop (.ok elements :: log) = stop log := by
  cases elements with
  | nil => exact absurd rfl h
  | cons a elements => rfl

/-- What is written into the log for an answer. -/
def entry (a : Answer (Except E ℕ) α σ) : Except E (List α) := a.result.map fun n => a.buf.take n

/-- The reader with the log of its answers. -/
def logged (r : Reader E α σ) : Reader E α (σ × Log E α) where
  read s buf :=
    let a := r.read s.1 buf
    ⟨a.result, a.buf, (a.reader, s.2 ++ [entry a])⟩
  length_buf s buf := r.length_buf s.1 buf

/-! ## Streams -/

theorem Fills.length_take (h : r.Fills stream) (hresult : (r.read s buf).result = .ok n) :
    ((r.read s buf).buf.take n).length = n := by
  rw [List.length_take, r.length_buf]
  exact min_eq_left (h.le s buf n hresult)

/-- **What has been handed over is a prefix of the stream**, one read after another. -/
theorem Fills.stream_append (h : r.Fills stream) (hresult : (r.read s buf).result = .ok n)
    {elements : List α} {s' : σ}
    (hrest : stream (r.read s buf).reader = (Seq.ofList elements).append (stream s')) :
    stream s = (Seq.ofList ((r.read s buf).buf.take n ++ elements)).append (stream s') := by
  rw [h.stream_eq s buf n hresult, hrest, Seq.ofList_append, Seq.append_assoc]

/-- The first elements of a sequence that has a prefix. -/
theorem take_of_eq_append {elements : List α} {whole rest : Seq α}
    (h : whole = (Seq.ofList elements).append rest) (hlength : elements.length = n) :
    whole.take n = elements := by
  subst h hlength
  induction elements with
  | nil => rfl
  | cons a elements ih =>
    rw [Seq.ofList_cons, Seq.cons_append, List.length_cons, Seq.take_succ_cons, ih]

/-- What is after a prefix of a finite stream. -/
theorem exists_of_append_eq_ofList {first elements : List α} {rest : Seq α}
    (h : (Seq.ofList first).append rest = Seq.ofList elements) :
    ∃ elements', rest = Seq.ofList elements' ∧ elements = first ++ elements' := by
  induction first generalizing elements with
  | nil => exact ⟨elements, by simpa using h, rfl⟩
  | cons a first ih =>
    rw [Seq.ofList_cons, Seq.cons_append] at h
    cases elements with
    | nil => exact absurd h Seq.cons_ne_nil
    | cons b elements =>
      rw [Seq.ofList_cons, Seq.cons_eq_cons] at h
      obtain ⟨rfl, h⟩ := h
      obtain ⟨elements', hrest, rfl⟩ := ih h
      exact ⟨elements', hrest, rfl⟩

/-- A finite stream ends. -/
theorem Streams.ends (h : r.Streams stream) {elements : List α} (hs : stream s = Seq.ofList elements)
    (size : ℕ) : r.Ends size s := by
  -- On the number of elements that are left.
  induction hlength : elements.length using Nat.strong_induction_on generalizing s elements with
  | h k ih =>
    refine Acc.intro _ ?_
    rintro _ ⟨buf, n, -, hresult, hn, rfl⟩
    have hstream := (h.stream_eq s buf n hresult).symm.trans hs
    have htake := h.length_take hresult
    obtain ⟨rest, hrest, rfl⟩ := exists_of_append_eq_ofList hstream
    rw [List.length_append, htake] at hlength
    exact ih rest.length (by omega) hrest rfl

/-! ## A list in memory -/

/-- The reader of what is left of a list, a number of elements at a time. -/
def ofList (E : Type) (chunk : ℕ) : Reader E α (List α) where
  read rest buf :=
    let n := min chunk (min buf.length rest.length)
    ⟨.ok n, rest.take n ++ buf.drop n, rest.drop n⟩
  length_buf rest buf := by
    simp only [List.length_append, List.length_take, List.length_drop]
    omega

theorem streams_ofList {chunk : ℕ} (h : 0 < chunk) :
    (ofList E chunk).Streams (Seq.ofList : List α → Seq α) := by
  refine ⟨⟨fun rest buf n hn => ?_, fun rest buf n hn => ?_⟩, fun rest buf hzero => ?_⟩
  · obtain rfl := Except.ok.inj hn
    exact (min_le_right _ _).trans (min_le_left _ _)
  · obtain rfl := Except.ok.inj hn
    have hle : min chunk (min buf.length rest.length) ≤ rest.length :=
      (min_le_right _ _).trans (min_le_right _ _)
    simp only [ofList]
    rw [List.take_append_of_le_length (by rw [List.length_take]; omega), List.take_take, min_self,
      ← Seq.ofList_append, List.take_append_drop]
  · have hmin : min chunk (min buf.length rest.length) = 0 := Except.ok.inj hzero
    by_cases hbuf : buf = []
    · exact Or.inl hbuf
    · have hpos := List.length_pos_iff.mpr hbuf
      obtain rfl : rest = [] := List.length_eq_zero_iff.mp (by omega)
      exact Or.inr Seq.ofList_nil

/-! ## A repeated element -/

/-- The reader that hands over one element again and again, as often as the next of the numbers
says. -/
def repeating (E : Type) (a : α) : Reader E α (List ℕ) where
  read sizes buf :=
    let n := min (sizes.headD 0) buf.length
    ⟨.ok n, List.replicate n a ++ buf.drop n, sizes.tail⟩
  length_buf sizes buf := by
    simp only [List.length_append, List.length_replicate, List.length_drop]
    omega

theorem ofList_replicate_append_const (a : α) (n : ℕ) :
    (Seq.ofList (List.replicate n a)).append (Seq.ofStream (Stream'.const a)) =
      Seq.ofStream (Stream'.const a) := by
  induction n with
  | zero => simp
  | succ n ih =>
    rw [List.replicate_succ, Seq.ofList_cons, Seq.cons_append, ih, ← Seq.ofStream_cons,
      ← Stream'.const_eq]

theorem fills_repeating (a : α) :
    (repeating E a).Fills fun _ => Seq.ofStream (Stream'.const a) := by
  refine ⟨fun sizes buf n hn => ?_, fun sizes buf n hn => ?_⟩
  · obtain rfl := Except.ok.inj hn
    exact min_le_right _ _
  · obtain rfl := Except.ok.inj hn
    simp only [repeating]
    rw [List.take_left' List.length_replicate, ofList_replicate_append_const]

end Reader
