import AsyncKernel.Streams.Read

/-!
# Reading into several buffers

`read_vectored` offers every buffer to the reader once and adds up what the reads return. The sum
tells the caller where the bytes are as long as they lie in the first places of the buffers. A buffer
that a read has not filled leaves a gap, and the bytes of the next read that returns some come after
it.

## Main definitions

* `Read.Answers`: what the reader returns for the buffers
* `Read.Gapless`: no bytes come after a buffer that has not been filled
* `Read.Contiguous`: the bytes are where the sum says

## Main results

* `Read.contiguous_of_gapless`: without a gap the bytes are where the sum says
* `Read.contiguous_iff_gapless`: with a gap there is a stream whose bytes are elsewhere
-/

namespace AsyncKernel.Read

open Stream' (Seq)

variable {E σ : Type} {r : Reader E UInt8 σ} {stream : σ → Seq UInt8} {s : σ} {buf : List UInt8}
  {bufs : List (List UInt8)} {n : ℕ} {sizes : List ℕ}

/-- What the reader returns for the buffers, one after another. -/
inductive Answers (r : Reader E UInt8 σ) : σ → List (List UInt8) → List ℕ → Prop
  | nil (s : σ) : Answers r s [] []
  | cons {s : σ} {buf : List UInt8} {bufs : List (List UInt8)} {n : ℕ} {sizes : List ℕ}
      (result : (r.read s buf).result = .ok n)
      (rest : Answers r (r.read s buf).reader bufs sizes) : Answers r s (buf :: bufs) (n :: sizes)

/-- A buffer that has not been filled is followed by no bytes. -/
def Gapless (bufs : List (List UInt8)) (sizes : List ℕ) : Prop :=
  (bufs.zip sizes).Pairwise fun x y => x.2 = x.1.length ∨ y.2 = 0

instance (bufs : List (List UInt8)) (sizes : List ℕ) : Decidable (Gapless bufs sizes) :=
  inferInstanceAs (Decidable (List.Pairwise _ _))

/-- When `read_vectored` returns a number, so many bytes of the buffers, one buffer after another, are
the next bytes of the stream. -/
def Contiguous (r : Reader E UInt8 σ) (stream : σ → Seq UInt8) (s : σ)
    (bufs : List (List UInt8)) : Prop :=
  ∀ n, (readVectored r s bufs).result = .ok n →
    (readVectored r s bufs).buf.flatten.take n = (stream s).take n

theorem gapless_cons_iff (hlength : sizes.length ≤ bufs.length) :
    Gapless (buf :: bufs) (n :: sizes) ↔
      (n = buf.length ∨ sizes.sum = 0) ∧ Gapless bufs sizes := by
  have hzero : (∀ y ∈ bufs.zip sizes, y.2 = 0) ↔ sizes.sum = 0 := by
    rw [List.sum_eq_zero_iff]
    conv_rhs => rw [← List.map_snd_zip hlength]
    exact (List.forall_mem_map (P := (· = 0))).symm
  rw [Gapless, List.zip_cons_cons, List.pairwise_cons, ← hzero]
  by_cases hn : n = buf.length
  · simp [hn, Gapless]
  · simp [hn, Gapless]

/-! ## The loop -/

theorem readBufs_cons (hresult : (r.read s buf).result = .ok n) (read : ℕ) :
    readBufs r read s (buf :: bufs) =
      let rest := readBufs r (read + n) (r.read s buf).reader bufs
      ⟨rest.result, (r.read s buf).buf :: rest.buf, rest.reader⟩ := by
  rw [readBufs]
  simp only [hresult]

theorem Answers.length_eq (h : Answers r s bufs sizes) : sizes.length = bufs.length := by
  induction h with
  | nil => rfl
  | cons _ _ ih => exact congrArg (· + 1) ih

/-- The counts are summed. -/
theorem Answers.result_readBufs (h : Answers r s bufs sizes) (read : ℕ) :
    (readBufs r read s bufs).result = .ok (read + sizes.sum) := by
  induction h generalizing read with
  | nil => rfl
  | cons result _ ih => rw [readBufs_cons result, ih, List.sum_cons, Nat.add_assoc]

/-- **The loop of `read_vectored` without a gap**: the bytes lie in the first places. -/
theorem Answers.stream_eq (h : r.Fills stream) (hanswers : Answers r s bufs sizes)
    (hgapless : Gapless bufs sizes) (read : ℕ) :
    ((readBufs r read s bufs).buf.flatten.take sizes.sum).length = sizes.sum ∧
      stream s = (Seq.ofList ((readBufs r read s bufs).buf.flatten.take sizes.sum)).append
        (stream (readBufs r read s bufs).reader) := by
  induction hanswers generalizing read with
  | nil s => exact ⟨rfl, by simp [readBufs]⟩
  | @cons s buf bufs n sizes result hrest ih =>
    obtain ⟨hfirst, hrest'⟩ := (gapless_cons_iff hrest.length_eq.le).mp hgapless
    obtain ⟨hlength, hstream⟩ := ih hrest' (read + n)
    rw [readBufs_cons result, List.sum_cons]
    -- Either the first buffer is full, or nothing comes after its bytes.
    have htake (rest : List UInt8) : ((r.read s buf).buf ++ rest).take (n + sizes.sum) =
        (r.read s buf).buf.take n ++ rest.take sizes.sum := by
      rcases hfirst with rfl | hzero
      · rw [← r.length_buf s buf, List.take_length_add_append, List.take_length]
      · have hle : n ≤ (r.read s buf).buf.length := by
          rw [r.length_buf]
          exact h.le s buf n result
        rw [hzero, Nat.add_zero, List.take_zero, List.append_nil, List.take_append_of_le_length hle]
    rw [List.flatten_cons, htake, List.length_append, hlength, h.length_take result]
    exact ⟨rfl, h.stream_append result hstream⟩

/-- **Without a gap the bytes are where the sum says.** -/
theorem contiguous_of_gapless (h : r.Fills stream) (hanswers : Answers r s bufs sizes)
    (hgapless : Gapless bufs sizes) : Contiguous r stream s bufs := by
  intro n hn
  obtain ⟨hlength, hstream⟩ := hanswers.stream_eq h hgapless 0
  have hsum : sizes.sum = n := by
    have hresult := (hanswers.result_readBufs 0).symm.trans hn
    rwa [Nat.zero_add, Except.ok.injEq] at hresult
  rw [← hsum]
  exact (Reader.take_of_eq_append hstream hlength).symm

/-! ## Gaps -/

/-- The buffers after a repeated byte has been read into them. -/
def written (b : UInt8) (bufs : List (List UInt8)) (sizes : List ℕ) : List (List UInt8) :=
  bufs.zipWith (fun buf n => List.replicate n b ++ buf.drop n) sizes

theorem answers_repeating (b : UInt8)
    (h : List.Forall₂ (fun buf n => n ≤ buf.length) bufs sizes) :
    Answers (Reader.repeating E b) sizes bufs sizes ∧
      ∀ read, (readBufs (Reader.repeating E b) read sizes bufs).buf = written b bufs sizes := by
  induction h with
  | nil => exact ⟨.nil _, fun _ => rfl⟩
  | @cons buf n bufs sizes hle _ ih =>
    have hresult : ((Reader.repeating E b).read (n :: sizes) buf).result = .ok n :=
      congrArg Except.ok (min_eq_left hle)
    refine ⟨.cons hresult ih.1, fun read => ?_⟩
    rw [readBufs_cons hresult, written, List.zipWith_cons_cons]
    simp only [Reader.repeating, List.headD_cons, List.tail_cons, min_eq_left hle]
    exact congrArg _ (ih.2 _)

/-- When every byte is found where the sum says, there is no gap. -/
theorem gapless_of_written (h : List.Forall₂ (fun buf n => n ≤ buf.length) bufs sizes)
    (hwritten : ∀ b, (written b bufs sizes).flatten.take sizes.sum =
      List.replicate sizes.sum b) : Gapless bufs sizes := by
  induction h with
  | nil => exact List.Pairwise.nil
  | @cons buf n bufs sizes hle hrest ih =>
    have hafter (b : UInt8) : (buf.drop n ++ (written b bufs sizes).flatten).take sizes.sum =
        List.replicate sizes.sum b := by
      have hb := hwritten b
      rw [written, List.zipWith_cons_cons, List.flatten_cons, List.sum_cons, List.append_assoc,
        List.take_append, List.length_replicate, List.replicate_add, List.take_replicate,
        Nat.add_sub_cancel_left, min_eq_right (Nat.le_add_right _ _)] at hb
      exact List.append_cancel_left hb
    have hfirst : n = buf.length ∨ sizes.sum = 0 := by
      by_contra hgap
      obtain ⟨hn, hsum⟩ := not_or.mp hgap
      -- the first place of the gap is a place of the sum, and keeps the byte it had
      have hplace (b : UInt8) : buf[n]? = some b := by
        have hb := congrArg (·[0]?) (hafter b)
        rw [List.getElem?_take_of_lt (Nat.pos_of_ne_zero hsum),
          List.getElem?_append_left (by rw [List.length_drop]; omega), List.getElem?_drop,
          List.getElem?_replicate_of_lt (Nat.pos_of_ne_zero hsum)] at hb
        exact hb
      exact absurd ((hplace 0).symm.trans (hplace 1)) (by decide)
    have hlength := hrest.length_eq.symm.le
    refine (gapless_cons_iff hlength).mpr ⟨hfirst, ih fun b => ?_⟩
    rcases hfirst with rfl | hzero
    · have hb := hafter b
      rwa [List.drop_length, List.nil_append] at hb
    · rw [hzero]
      rfl

/-- **The bytes are where the sum says of every reader that returns these numbers if and only if no
bytes come after a gap.** -/
theorem contiguous_iff_gapless (E : Type)
    (h : List.Forall₂ (fun buf n => n ≤ buf.length) bufs sizes) :
    (∀ (σ : Type) (r : Reader E UInt8 σ) (stream : σ → Seq UInt8) (s : σ), r.Fills stream →
      Answers r s bufs sizes → Contiguous r stream s bufs) ↔ Gapless bufs sizes := by
  refine ⟨fun hall => gapless_of_written h fun b => ?_, fun hgapless _ _ _ _ hfills hanswers =>
    contiguous_of_gapless hfills hanswers hgapless⟩
  obtain ⟨hanswers, hwritten⟩ := answers_repeating (E := E) b h
  have hcontiguous := hall _ _ _ _ (Reader.fills_repeating b) hanswers
  have hb := hcontiguous _ (hanswers.result_readBufs 0)
  rw [readVectored, hwritten, Nat.zero_add] at hb
  exact hb.trans (Reader.take_of_eq_append (Reader.ofList_replicate_append_const b _).symm
    List.length_replicate)

/-- The first buffer is filled, and the second in part. -/
theorem contiguous_iff_gapless_filled :
    (∀ (σ : Type) (r : Reader Unit UInt8 σ) (stream : σ → Seq UInt8) (s : σ), r.Fills stream →
      Answers r s [[0, 0], [0, 0]] [2, 1] → Contiguous r stream s [[0, 0], [0, 0]]) ↔
      Gapless [[0, 0], [0, 0]] [2, 1] :=
  contiguous_iff_gapless Unit (.cons (by simp) (.cons (by simp) .nil))

/-- One byte is read into either of two buffers of two bytes. -/
theorem not_contiguous_short : ¬ ∀ (E σ : Type) (r : Reader E UInt8 σ) (stream : σ → Seq UInt8)
    (s : σ) (bufs : List (List UInt8)), r.Fills stream → Contiguous r stream s bufs := by
  intro h
  have hfills := (Reader.streams_ofList (E := Unit) (α := UInt8) one_pos).toFills
  have hfirst := h _ _ _ _ [1, 2, 3] [[0, 0], [0, 0]] hfills 2 rfl
  have hnext : (Seq.ofList [1, 2, 3]).take 2 = ([1, 2] : List UInt8) :=
    Reader.take_of_eq_append (Seq.ofList_append [1, 2] [3]) rfl
  exact absurd (hfirst.trans hnext) (by decide)

end AsyncKernel.Read
