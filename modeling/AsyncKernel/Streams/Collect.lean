import AsyncKernel.Streams.Read

/-!
# Reading to the end

The loop of `read_to_end` makes room for 512 more bytes at every turn, and cuts the vector back to
what has been read when a read returns nothing. The vector is kept up to what has been read so far,
and that part is what has been delivered: whatever else was in the vector before is written over or
cut off.

## Main definitions

* `Read.Collects`: what `read_to_end` gives back
* `Read.CollectsString`: what `read_to_string` gives back

## Main results

* `Read.readMore_case`: the loop comes to its end when the reader does
* `Read.collect_whole_stream`: the vector is all that has been delivered, and a string is extended
  by the whole stream or not at all
-/

namespace AsyncKernel.Read

open Stream' (Seq)
open Reader (delivered stop Log)
open DeviceTree (Str validUtf8)

variable {E IoError σ : Type} {r : Reader E UInt8 σ} {stream : σ → Seq UInt8} {s : σ}

/-! ## Turns of the loop -/

section Turns

variable {buf : List UInt8} {read n fuel : ℕ}

/-- What a turn of the loop offers to the reader. -/
def offered (buf : List UInt8) (read : ℕ) : List UInt8 := (resize buf (read + 512)).drop read

theorem take_resize {len : ℕ} (hread : read ≤ len) (hle : read ≤ buf.length) :
    (resize buf len).take read = buf.take read := by
  rw [resize, List.take_append_of_le_length (by rw [List.length_take]; omega), List.take_take,
    min_eq_left hread]

theorem length_offered (buf : List UInt8) (read : ℕ) : (offered buf read).length = 512 := by
  rw [offered, List.length_drop, length_resize]
  omega

theorem offered_ne_nil (buf : List UInt8) (read : ℕ) : offered buf read ≠ [] := by
  rw [← List.length_pos_iff, length_offered]
  norm_num

variable (hle : read ≤ buf.length)
include hle

theorem readMore_of_error {e : E} (hresult : (r.read s (offered buf read)).result = .error e) :
    readMore r (fuel + 1) read buf s =
      some ⟨.error e, buf.take read ++ (r.read s (offered buf read)).buf,
        (r.read s (offered buf read)).reader⟩ := by
  rw [readMore, ← offered, hresult, take_resize (by omega) hle]

theorem readMore_of_end (hresult : (r.read s (offered buf read)).result = .ok 0) :
    readMore r (fuel + 1) read buf s =
      some ⟨.ok read, buf.take read, (r.read s (offered buf read)).reader⟩ := by
  have hcut (rest : List UInt8) : resize (buf.take read ++ rest) read = buf.take read := by
    have hlength : (buf.take read).length = read := by rwa [List.length_take, min_eq_left]
    rw [resize, List.take_left' hlength, List.length_append, hlength,
      Nat.sub_eq_zero_of_le (Nat.le_add_right _ _), List.replicate_zero, List.append_nil]
  rw [readMore, ← offered, hresult, take_resize (by omega) hle]
  simp only [Nat.add_zero, if_pos, hcut]

theorem readMore_of_ok (hn : n ≠ 0) (hresult : (r.read s (offered buf read)).result = .ok n) :
    readMore r (fuel + 1) read buf s =
      readMore r fuel (read + n) (buf.take read ++ (r.read s (offered buf read)).buf)
        (r.read s (offered buf read)).reader := by
  rw [readMore, ← offered, hresult, take_resize (by omega) hle]
  exact if_neg hn

/-- The next turn begins with what has been read so far and what this one has added. -/
theorem take_turn (h : r.Fills stream) (hresult : (r.read s (offered buf read)).result = .ok n) :
    let next := buf.take read ++ (r.read s (offered buf read)).buf
    read + n ≤ next.length ∧
      next.take (read + n) = buf.take read ++ (r.read s (offered buf read)).buf.take n := by
  have hlength : (buf.take read).length = read := by rwa [List.length_take, min_eq_left]
  constructor
  · rw [List.length_append, hlength, r.length_buf]
    exact Nat.add_le_add_left (h.le s _ n hresult) read
  · have hall : (buf.take read).length ≤ read + n := hlength.le.trans (Nat.le_add_right _ _)
    rw [List.take_append, hlength, Nat.add_sub_cancel_left, List.take_of_length_le hall]

end Turns

/-! ## The loop -/

/-- What the loop comes to when the vector begins with `first`, with the log of its reads: the stream
has ended, or a read has failed. -/
inductive CollectCase (stream : σ → Seq UInt8) (s : σ) (first : List UInt8)
    (a : Answer (Except E ℕ) UInt8 σ) (log : Log E UInt8) : Prop
  | ended (result : a.result = .ok (first.length + (delivered log).length))
      (filled : a.buf = first ++ delivered log) (stream_eq : stream s = Seq.ofList (delivered log))
      (none_failed : ∀ e, .error e ∉ log)
  | failed (e : E) (result : a.result = .error e) (failed_iff : ∀ e', .error e' ∈ log ↔ e = e')

/-- A turn of the loop before what comes next. -/
theorem CollectCase.cons (h : r.Streams stream) {buf first : List UInt8} {n : ℕ} (hn : n ≠ 0)
    (hresult : (r.read s buf).result = .ok n) {a : Answer (Except E ℕ) UInt8 σ} {log : Log E UInt8}
    (hrest : CollectCase stream (r.read s buf).reader (first ++ (r.read s buf).buf.take n) a log) :
    CollectCase stream s first a (.ok ((r.read s buf).buf.take n) :: log) := by
  have hne := take_ne_nil h hn hresult
  cases hrest with
  | ended result filled stream_eq none_failed =>
    refine .ended ?_ ?_ ?_ (by simpa using none_failed)
    · rw [result, Reader.delivered_cons hne, List.length_append, List.length_append, Nat.add_assoc]
    · rw [filled, Reader.delivered_cons hne, List.append_assoc]
    · rw [Reader.delivered_cons hne, Seq.ofList_append, ← stream_eq]
      exact h.stream_eq s buf n hresult
  | failed e result failed_iff => exact .failed e result (by simpa using failed_iff)

/-- **The loop of `read_to_end`**, without and with the log of its reads: it comes to its end when the
reader does. -/
theorem readMore_case (h : r.Streams stream) (hends : r.Ends 512 s) {read : ℕ} {buf : List UInt8}
    (hle : read ≤ buf.length) :
    ∃ a log enough, CollectCase stream s (buf.take read) a log ∧ ∀ fuel, enough ≤ fuel →
      readMore r fuel read buf s = some a ∧ ∀ before,
        readMore r.logged fuel read buf (s, before) = some (a.withLog (before ++ log)) := by
  -- On the reads that the reader has still to answer before it comes to an end.
  induction hends generalizing read buf with
  | intro s _ ih =>
    have hlogged (before : Log E UInt8) := logged_read r s before (offered buf read)
    cases hresult : (r.read s (offered buf read)).result with
    | error e =>
      refine ⟨⟨.error e, buf.take read ++ (r.read s (offered buf read)).buf,
        (r.read s (offered buf read)).reader⟩, [.error e], 1,
        .failed e rfl (by simp [eq_comm]), fun fuel hfuel => ?_⟩
      obtain ⟨fuel, rfl⟩ := Nat.exists_eq_succ_of_ne_zero (Nat.one_le_iff_ne_zero.mp hfuel)
      refine ⟨readMore_of_error hle hresult, fun before => ?_⟩
      rw [readMore_of_error (r := r.logged) (s := (s, before)) hle hresult, hlogged,
        entry_of_error hresult]
      rfl
    | ok n =>
      by_cases hn : n = 0
      · subst hn
        have hnil := (h.nil s _ hresult).resolve_left (offered_ne_nil buf read)
        refine ⟨⟨.ok read, buf.take read, (r.read s (offered buf read)).reader⟩, [.ok []], 1, ?_,
          fun fuel hfuel => ?_⟩
        · refine .ended ?_ (List.append_nil _).symm hnil (by simp)
          rw [List.length_take, min_eq_left hle]
          rfl
        obtain ⟨fuel, rfl⟩ := Nat.exists_eq_succ_of_ne_zero (Nat.one_le_iff_ne_zero.mp hfuel)
        refine ⟨readMore_of_end hle hresult, fun before => ?_⟩
        rw [readMore_of_end (r := r.logged) (s := (s, before)) hle hresult, hlogged,
          entry_of_ok hresult, List.take_zero]
        rfl
      · obtain ⟨hnext, hfirst⟩ := take_turn hle h.toFills hresult
        obtain ⟨a, log, enough, hcase, hrun⟩ :=
          ih _ ⟨_, n, length_offered buf read, hresult, hn, rfl⟩ hnext
        rw [hfirst] at hcase
        refine ⟨a, _, enough + 1, hcase.cons h hn hresult, fun fuel hfuel => ?_⟩
        obtain ⟨fuel, rfl⟩ := Nat.exists_eq_add_of_le' (Nat.one_le_of_lt hfuel)
        obtain ⟨hplain, hlog⟩ := hrun fuel (Nat.le_of_succ_le_succ hfuel)
        refine ⟨(readMore_of_ok hle hn hresult).trans hplain, fun before => ?_⟩
        rw [readMore_of_ok (r := r.logged) (s := (s, before)) hle hn hresult, hlogged,
          entry_of_ok hresult]
        exact (hlog _).trans (by rw [List.append_assoc, List.singleton_append])

/-! ## `read_to_end` -/

/-- What `read_to_end` gives back, with the log of its reads. -/
structure Collects (stream : σ → Seq UInt8) (s : σ) (a : Answer (Except E ℕ) UInt8 σ)
    (log : Log E UInt8) : Prop where
  /-- when no read fails, the vector is all that has been delivered, and this is the whole stream -/
  collected : (∀ e, .error e ∉ log) → a.result = .ok (delivered log).length ∧
    a.buf = delivered log ∧ stream s = Seq.ofList (delivered log)
  failed_iff : ∀ e, a.result = .error e ↔ .error e ∈ log

/-- What `read_to_string` gives back, with the log of its reads. -/
structure CollectsString (stream : σ → Seq UInt8) (errors : IoErrors IoError) (s : σ) (buf : Str)
    (a : Answer (Except IoError (Except E ℕ)) UInt8 σ) (log : Log E UInt8) : Prop where
  /-- the stream is appended -/
  appended : (∀ e, .error e ∉ log) → validUtf8 (delivered log) = true →
    a.result = .ok (.ok (delivered log).length) ∧ a.buf = buf ++ delivered log ∧
      stream s = Seq.ofList (delivered log)
  malformed : (∀ e, .error e ∉ log) → validUtf8 (delivered log) = false →
    a.result = .error (errors.ofUtf8Error (delivered log)) ∧ a.buf = buf
  failed : ∀ e, .error e ∈ log → a.result = .ok (.error e) ∧ a.buf = buf

/-- With enough turns of the loop, a method gives an answer back, and has the log of its reads. -/
def Returns {R : Type} (plain : ℕ → Option (Answer R UInt8 σ))
    (withLog : ℕ → Option (Answer R UInt8 (σ × Log E UInt8))) (a : Answer R UInt8 σ)
    (log : Log E UInt8) : Prop :=
  ∃ enough, ∀ fuel, enough ≤ fuel → plain fuel = some a ∧ withLog fuel = some (a.withLog log)

theorem readToEnd_collects (h : r.Streams stream) (hends : r.Ends 512 s) (buf : List UInt8) :
    ∃ a log, Collects stream s a log ∧ Returns (fun fuel => readToEnd r fuel s buf)
      (fun fuel => readToEnd r.logged fuel (s, []) buf) a log := by
  obtain ⟨a, log, enough, hcase, hrun⟩ := readMore_case h hends (Nat.zero_le buf.length)
  refine ⟨a, log, ?_, enough, fun fuel hfuel => ⟨(hrun fuel hfuel).1, (hrun fuel hfuel).2 []⟩⟩
  rw [List.take_zero] at hcase
  cases hcase with
  | ended result filled stream_eq none_failed =>
    rw [List.length_nil, Nat.zero_add] at result
    exact ⟨fun _ => ⟨result, filled, stream_eq⟩, fun e => by simp [result, none_failed]⟩
  | failed e result failed_iff =>
    refine ⟨fun hnone => absurd ((failed_iff e).mpr rfl) (hnone e), fun e' => ?_⟩
    rw [result, failed_iff, Except.error.injEq]

/-- What `read_to_end_new` gives back is the whole stream. -/
theorem readToEndNew_whole (h : r.Streams stream) (hends : r.Ends 512 s) :
    ∃ result s' enough, (∀ fuel, enough ≤ fuel → readToEndNew r fuel s = some (result, s')) ∧
      ∀ read bytes, result = .ok (read, bytes) → read = bytes.length ∧
        stream s = Seq.ofList bytes := by
  obtain ⟨a, log, hcollects, enough, hrun⟩ := readToEnd_collects h hends []
  refine ⟨a.result.map fun read => (read, a.buf), a.reader, enough, fun fuel hfuel => ?_,
    fun read bytes hresult => ?_⟩
  · have hplain : readToEnd r fuel s [] = some a := (hrun fuel hfuel).1
    rw [readToEndNew, hplain]
    rfl
  · cases ha : a.result with
    | error e =>
      rw [ha] at hresult
      cases hresult
    | ok n =>
      have hnone (e : E) : .error e ∉ log := by
        rw [← hcollects.failed_iff, ha]
        simp
      obtain ⟨hn, hbuf, hstream⟩ := hcollects.collected hnone
      rw [hn, hbuf] at hresult
      obtain ⟨rfl, rfl⟩ := Prod.mk.inj (Except.ok.inj hresult)
      exact ⟨rfl, hstream⟩

/-! ## `read_to_string` -/

section Decoded

variable {errors : IoErrors IoError} {buf : Str} {a : Answer (Except E ℕ) UInt8 σ} {n : ℕ}

theorem appendDecoded_of_error {e : E} (h : a.result = .error e) :
    appendDecoded errors buf a = ⟨.ok (.error e), buf, a.reader⟩ := by
  rw [appendDecoded, h]

theorem appendDecoded_of_valid (h : a.result = .ok n) (hvalid : validUtf8 a.buf = true) :
    appendDecoded errors buf a = ⟨.ok (.ok n), buf ++ a.buf, a.reader⟩ := by
  rw [appendDecoded, h]
  exact if_pos hvalid

theorem appendDecoded_of_malformed (h : a.result = .ok n) (hvalid : validUtf8 a.buf = false) :
    appendDecoded errors buf a = ⟨.error (errors.ofUtf8Error a.buf), buf, a.reader⟩ := by
  rw [appendDecoded, h]
  exact if_neg (by simp [hvalid])

theorem appendDecoded_withLog (log : Log E UInt8) :
    appendDecoded errors buf (a.withLog log) = (appendDecoded errors buf a).withLog log := by
  cases h : a.result with
  | error e =>
    rw [appendDecoded_of_error h, appendDecoded_of_error (a := a.withLog log) h]
    rfl
  | ok n =>
    cases hvalid : validUtf8 a.buf with
    | true =>
      rw [appendDecoded_of_valid h hvalid, appendDecoded_of_valid (a := a.withLog log) h hvalid]
      rfl
    | false =>
      rw [appendDecoded_of_malformed h hvalid,
        appendDecoded_of_malformed (a := a.withLog log) h hvalid]
      rfl

end Decoded

theorem readToString_collects (errors : IoErrors IoError) (h : r.Streams stream)
    (hends : r.Ends 512 s) (buf : Str) :
    ∃ a log, CollectsString stream errors s buf a log ∧
      Returns (fun fuel => readToString errors r fuel s buf)
        (fun fuel => readToString errors r.logged fuel (s, []) buf) a log := by
  obtain ⟨a, log, hcollects, enough, hrun⟩ := readToEnd_collects h hends []
  refine ⟨appendDecoded errors buf a, log, ?_, enough, fun fuel hfuel => ?_⟩
  · constructor
    · intro hnone hvalid
      obtain ⟨hresult, hbuf, hstream⟩ := hcollects.collected hnone
      rw [← hbuf] at hvalid
      rw [appendDecoded_of_valid hresult hvalid, hbuf]
      exact ⟨rfl, rfl, hstream⟩
    · intro hnone hvalid
      obtain ⟨hresult, hbuf, -⟩ := hcollects.collected hnone
      rw [← hbuf] at hvalid
      rw [appendDecoded_of_malformed hresult hvalid, hbuf]
      exact ⟨rfl, rfl⟩
    · intro e he
      rw [appendDecoded_of_error ((hcollects.failed_iff e).mpr he)]
      exact ⟨rfl, rfl⟩
  · obtain ⟨hplain, hlog⟩ := hrun fuel hfuel
    simp only [readToString, hplain, hlog, Option.map_some, appendDecoded_withLog, and_self]

/-- What `read_to_string_new` gives back is the whole stream, and it is a string. -/
theorem readToStringNew_whole (errors : IoErrors IoError) (h : r.Streams stream)
    (hends : r.Ends 512 s) :
    ∃ result s' enough,
      (∀ fuel, enough ≤ fuel → readToStringNew errors r fuel s = some (result, s')) ∧
        ∀ read text, result = .ok (.ok (read, text)) → read = text.length ∧
          validUtf8 text = true ∧ stream s = Seq.ofList text := by
  obtain ⟨a, log, hcollects, enough, hrun⟩ := readToString_collects errors h hends []
  refine ⟨a.result.map fun result => result.map fun read => (read, a.buf), a.reader, enough,
    fun fuel hfuel => ?_, fun read text hresult => ?_⟩
  · have hplain : readToString errors r fuel s [] = some a := (hrun fuel hfuel).1
    rw [readToStringNew, hplain]
    rfl
  -- A read that has failed, and bytes that are not UTF-8, would show in the result.
  by_cases hfailed : ∃ e, .error e ∈ log
  · obtain ⟨e, he⟩ := hfailed
    rw [(hcollects.failed e he).1] at hresult
    cases Except.ok.inj hresult
  have hnone := not_exists.mp hfailed
  cases hvalid : validUtf8 (delivered log) with
  | false =>
    rw [(hcollects.malformed hnone hvalid).1] at hresult
    cases hresult
  | true =>
    obtain ⟨hread, hbuf, hstream⟩ := hcollects.appended hnone hvalid
    rw [hread, hbuf] at hresult
    obtain ⟨rfl, rfl⟩ := Prod.mk.inj (Except.ok.inj (Except.ok.inj hresult))
    exact ⟨rfl, hvalid, hstream⟩

/-- **`read_to_end` and `read_to_string` collect the whole stream.** -/
theorem collect_whole_stream (errors : IoErrors IoError) (h : r.Streams stream)
    (hends : r.Ends 512 s) :
    (∀ buf, ∃ a log, Collects stream s a log ∧ Returns (fun fuel => readToEnd r fuel s buf)
      (fun fuel => readToEnd r.logged fuel (s, []) buf) a log) ∧
    ∀ buf, ∃ a log, CollectsString stream errors s buf a log ∧
      Returns (fun fuel => readToString errors r fuel s buf)
        (fun fuel => readToString errors r.logged fuel (s, []) buf) a log :=
  ⟨readToEnd_collects h hends, readToString_collects errors h hends⟩

/-- Two letters, one at a time. -/
theorem collect_whole_stream_letters :
    let r : Reader Unit UInt8 (List UInt8) := Reader.ofList Unit 1
    let s : List UInt8 := [104, 105]
    (∀ buf, ∃ a log, Collects Seq.ofList s a log ∧ Returns (fun fuel => readToEnd r fuel s buf)
      (fun fuel => readToEnd r.logged fuel (s, []) buf) a log) ∧
    ∀ buf, ∃ a log, CollectsString Seq.ofList unitErrors s buf a log ∧
      Returns (fun fuel => readToString unitErrors r fuel s buf)
        (fun fuel => readToString unitErrors r.logged fuel (s, []) buf) a log :=
  have hstreams := Reader.streams_ofList one_pos
  collect_whole_stream unitErrors hstreams (hstreams.ends rfl 512)

end AsyncKernel.Read
