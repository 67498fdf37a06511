import AsyncKernel.DeviceTree.Node
import AsyncKernel.Foundation.Reader

/-!
# Reading from byte streams

The provided methods of the trait `Read` of `kernel_io`: a loop of reads into one buffer, into a
vector that grows, and into several buffers. A future is awaited where it is made, so a method is the
sequence of its reads. Memory that cannot be allocated is not modelled.

## Main definitions

* `Read.readVectored`, `Read.readToEnd`, `Read.readToString`, `Read.readExact`: the methods
* `Read.DeliversExactly`: what `read_exact` gives back

## Main results

* `Read.readExact_deliversExactly`: a buffer is filled, or the stream has ended, or a read failed
* `Read.readToEndExact_next`: a vector of a given length holds the next bytes
-/

namespace AsyncKernel

open Stream' (Seq)
open Reader (delivered stop Log)

/-- The errors of `kernel_syscall_abi::filesystem` that are made here. -/
structure IoErrors (IoError : Type) where
  /-- `Error::new_simple(ErrorKind::UnexpectedEof)` -/
  unexpectedEof : IoError
  /-- the conversion of what `from_utf8` returns for bytes that are not UTF-8 -/
  ofUtf8Error : List UInt8 → IoError

namespace Read

variable {E IoError σ : Type}

/-- The loop of `read_vectored`. -/
def readBufs (r : Reader E UInt8 σ) (read : ℕ) (s : σ) :
    List (List UInt8) → Answer (Except E ℕ) (List UInt8) σ
  | [] => ⟨.ok read, [], s⟩
  | i :: bufs =>
    let a := r.read s i
    match a.result with
    | .ok n =>
      let rest := readBufs r (read + n) a.reader bufs
      ⟨rest.result, a.buf :: rest.buf, rest.reader⟩
    | .error e => ⟨.error e, a.buf :: bufs, a.reader⟩

/-- `read_vectored`. -/
def readVectored (r : Reader E UInt8 σ) (s : σ) (bufs : List (List UInt8)) :
    Answer (Except E ℕ) (List UInt8) σ :=
  readBufs r 0 s bufs

/-- `Vec::resize`, with zero bytes. -/
def resize (buf : List UInt8) (len : ℕ) : List UInt8 :=
  buf.take len ++ List.replicate (len - buf.length) 0

/-- The loop of `read_to_end`, as far as it is followed. -/
def readMore (r : Reader E UInt8 σ) : ℕ → ℕ → List UInt8 → σ → Option (Answer (Except E ℕ) UInt8 σ)
  | 0, _, _, _ => none
  | fuel + 1, read, buf, s =>
    let buf := resize buf (read + 512)
    let a := r.read s (buf.drop read)
    let buf := buf.take read ++ a.buf
    match a.result with
    | .ok readHere =>
      let read := read + readHere
      if readHere = 0 then some ⟨.ok read, resize buf read, a.reader⟩
      else readMore r fuel read buf a.reader
    | .error e => some ⟨.error e, buf, a.reader⟩

/-- `read_to_end`. -/
def readToEnd (r : Reader E UInt8 σ) (fuel : ℕ) (s : σ) (buf : List UInt8) :
    Option (Answer (Except E ℕ) UInt8 σ) :=
  readMore r fuel 0 buf s

/-- `read_to_end_new`. -/
def readToEndNew (r : Reader E UInt8 σ) (fuel : ℕ) (s : σ) :
    Option (Except E (ℕ × List UInt8) × σ) := do
  let a ← readToEnd r fuel s []
  return (a.result.map fun read => (read, a.buf), a.reader)

/-- What `read_to_string` makes of the vector. -/
def appendDecoded (errors : IoErrors IoError) (buf : DeviceTree.Str)
    (a : Answer (Except E ℕ) UInt8 σ) : Answer (Except IoError (Except E ℕ)) UInt8 σ :=
  match a.result with
  | .ok read =>
    if DeviceTree.validUtf8 a.buf then ⟨.ok (.ok read), buf ++ a.buf, a.reader⟩
    else ⟨.error (errors.ofUtf8Error a.buf), buf, a.reader⟩
  | .error e => ⟨.ok (.error e), buf, a.reader⟩

/-- `read_to_string`. -/
def readToString (errors : IoErrors IoError) (r : Reader E UInt8 σ) (fuel : ℕ) (s : σ)
    (buf : DeviceTree.Str) : Option (Answer (Except IoError (Except E ℕ)) UInt8 σ) :=
  (readToEnd r fuel s []).map (appendDecoded errors buf)

/-- `read_to_string_new`. -/
def readToStringNew (errors : IoErrors IoError) (r : Reader E UInt8 σ) (fuel : ℕ) (s : σ) :
    Option (Except IoError (Except E (ℕ × DeviceTree.Str)) × σ) := do
  let a ← readToString errors r fuel s []
  return (a.result.map fun result => result.map fun read => (read, a.buf), a.reader)

/-- `read_exact`. There is no result when `&mut tmp[n..]` panics. -/
def readExact (errors : IoErrors IoError) (r : Reader E UInt8 σ) (s : σ) (buf : List UInt8) :
    Answer (Option (Except IoError (Except E Unit))) UInt8 σ :=
  if _hbuf : buf = [] then ⟨some (.ok (.ok ())), buf, s⟩
  else
    let a := r.read s buf
    match a.result with
    | .ok 0 => ⟨some (.error errors.unexpectedEof), a.buf, a.reader⟩
    | .ok (n + 1) =>
      if n + 1 ≤ buf.length then
        let rest := readExact errors r a.reader (a.buf.drop (n + 1))
        ⟨rest.result, a.buf.take (n + 1) ++ rest.buf, rest.reader⟩
      else ⟨none, a.buf, a.reader⟩
    | .error e => ⟨some (.ok (.error e)), a.buf, a.reader⟩
termination_by buf.length
decreasing_by
  have _hpos := List.length_pos_iff.mpr _hbuf
  rw [List.length_drop, r.length_buf]
  omega

/-- `read_to_end_exact`. -/
def readToEndExact (errors : IoErrors IoError) (r : Reader E UInt8 σ) (s : σ) (len : ℕ) :
    Option (Except IoError (Except E (List UInt8))) × σ :=
  let a := readExact errors r s (resize [] len)
  (a.result.map fun result => result.map fun result => result.map fun _ => a.buf, a.reader)

theorem length_resize (buf : List UInt8) (len : ℕ) : (resize buf len).length = len := by
  rw [resize, List.length_append, List.length_take, List.length_replicate]
  omega

/-! ## `read_exact` -/

variable {r : Reader E UInt8 σ} {stream : σ → Seq UInt8} {errors : IoErrors IoError}

/-- What `read_exact` comes to, with the log of its reads: it has filled the buffer, or the stream
has ended, or a read has failed. -/
inductive ExactCase (stream : σ → Seq UInt8) (errors : IoErrors IoError) (s : σ) (buf : List UInt8)
    (a : Answer (Option (Except IoError (Except E Unit))) UInt8 σ) (log : Log E UInt8) : Prop
  | full (result : a.result = some (.ok (.ok ()))) (stop : stop log = none)
      (filled : a.buf = delivered log) (length : (delivered log).length = buf.length)
      (stream_eq : stream s = (Seq.ofList a.buf).append (stream a.reader))
  | ended (result : a.result = some (.error errors.unexpectedEof)) (stop : stop log = some (.ok ()))
      (length : (delivered log).length < buf.length)
      (stream_eq : stream s = Seq.ofList (delivered log))
  | failed (e : E) (result : a.result = some (.ok (.error e))) (stop : stop log = some (.error e))
      (length : (delivered log).length < buf.length)

section Turns

variable {s : σ} {buf : List UInt8} {n : ℕ}

theorem readExact_nil (s : σ) : readExact errors r s [] = ⟨some (.ok (.ok ())), [], s⟩ := by
  rw [readExact, dif_pos rfl]

theorem readExact_of_error {e : E} (hbuf : buf ≠ []) (hresult : (r.read s buf).result = .error e) :
    readExact errors r s buf =
      ⟨some (.ok (.error e)), (r.read s buf).buf, (r.read s buf).reader⟩ := by
  rw [readExact, dif_neg hbuf]
  simp only [hresult]

theorem readExact_of_end (hbuf : buf ≠ []) (hresult : (r.read s buf).result = .ok 0) :
    readExact errors r s buf =
      ⟨some (.error errors.unexpectedEof), (r.read s buf).buf, (r.read s buf).reader⟩ := by
  rw [readExact, dif_neg hbuf]
  simp only [hresult]

theorem readExact_of_ok (hbuf : buf ≠ []) (hn : n ≠ 0) (hle : n ≤ buf.length)
    (hresult : (r.read s buf).result = .ok n) : readExact errors r s buf =
      let rest := readExact errors r (r.read s buf).reader ((r.read s buf).buf.drop n)
      ⟨rest.result, (r.read s buf).buf.take n ++ rest.buf, rest.reader⟩ := by
  obtain ⟨k, rfl⟩ := Nat.exists_eq_succ_of_ne_zero hn
  rw [readExact, dif_neg hbuf]
  simp only [hresult]
  exact if_pos hle

theorem entry_of_ok (hresult : (r.read s buf).result = .ok n) :
    Reader.entry (r.read s buf) = .ok ((r.read s buf).buf.take n) := by
  rw [Reader.entry, hresult]
  rfl

theorem entry_of_error {e : E} (hresult : (r.read s buf).result = .error e) :
    Reader.entry (r.read s buf) = .error e := by
  rw [Reader.entry, hresult]
  rfl

theorem logged_read (r : Reader E UInt8 σ) (s : σ) (before : Log E UInt8) (buf : List UInt8) :
    r.logged.read (s, before) buf =
      (r.read s buf).withLog (before ++ [Reader.entry (r.read s buf)]) := rfl

theorem take_ne_nil (h : r.Streams stream) (hn : n ≠ 0) (hresult : (r.read s buf).result = .ok n) :
    (r.read s buf).buf.take n ≠ [] := by
  rw [← List.length_pos_iff, h.length_take hresult]
  omega

/-- A turn of the loop before what comes next. -/
theorem ExactCase.cons (h : r.Streams stream) (hn : n ≠ 0) (hresult : (r.read s buf).result = .ok n)
    {rest : Answer (Option (Except IoError (Except E Unit))) UInt8 σ} {log : Log E UInt8}
    (hrest : ExactCase stream errors (r.read s buf).reader ((r.read s buf).buf.drop n) rest log) :
    ExactCase stream errors s buf
      ⟨rest.result, (r.read s buf).buf.take n ++ rest.buf, rest.reader⟩
      (.ok ((r.read s buf).buf.take n) :: log) := by
  have hle := h.le s buf n hresult
  have hne := take_ne_nil h hn hresult
  have hdrop : ((r.read s buf).buf.drop n).length = buf.length - n := by
    rw [List.length_drop, r.length_buf]
  have hlength : (delivered (.ok ((r.read s buf).buf.take n) :: log)).length =
      n + (delivered log).length := by
    rw [Reader.delivered_cons hne, List.length_append, h.length_take hresult]
  cases hrest with
  | full result stop filled length stream_eq =>
    refine .full result ?_ ?_ (by omega) (h.stream_append hresult stream_eq)
    · rwa [Reader.stop_cons hne]
    · rw [Reader.delivered_cons hne, ← filled]
  | ended result stop length stream_eq =>
    refine .ended result ?_ (by omega) ?_
    · rwa [Reader.stop_cons hne]
    · rw [Reader.delivered_cons hne, Seq.ofList_append, ← stream_eq]
      exact h.stream_eq s buf n hresult
  | failed e result stop length =>
    refine .failed e result ?_ (by omega)
    rwa [Reader.stop_cons hne]

end Turns

/-- **The loop of `read_exact`**, without and with the log of its reads. -/
theorem readExact_case (errors : IoErrors IoError) (h : r.Streams stream) (s : σ)
    (buf : List UInt8) :
    ∃ log, ExactCase stream errors s buf (readExact errors r s buf) log ∧ ∀ before,
      readExact errors r.logged (s, before) buf =
        (readExact errors r s buf).withLog (before ++ log) := by
  -- On the length of the buffer: a turn of the loop leaves a shorter one.
  induction hlength : buf.length using Nat.strong_induction_on generalizing s buf with
  | h k ih =>
    by_cases hbuf : buf = []
    · subst hbuf
      refine ⟨[], ?_, fun before => ?_⟩
      · rw [readExact_nil]
        exact .full rfl rfl rfl rfl (by simp)
      · rw [readExact_nil, readExact_nil, List.append_nil]
        rfl
    cases hresult : (r.read s buf).result with
    | error e =>
      refine ⟨[.error e], ?_, fun before => ?_⟩
      · rw [readExact_of_error hbuf hresult]
        exact .failed e rfl rfl (List.length_pos_iff.mpr hbuf)
      · rw [readExact_of_error hbuf hresult,
          readExact_of_error (r := r.logged) (s := (s, before)) hbuf hresult, logged_read,
          entry_of_error hresult]
        rfl
    | ok n =>
      by_cases hn : n = 0
      · subst hn
        refine ⟨[.ok []], ?_, fun before => ?_⟩
        · rw [readExact_of_end hbuf hresult]
          refine .ended rfl rfl (List.length_pos_iff.mpr hbuf) ?_
          rw [(h.nil s buf hresult).resolve_left hbuf]
          rfl
        · rw [readExact_of_end hbuf hresult,
            readExact_of_end (r := r.logged) (s := (s, before)) hbuf hresult, logged_read,
            entry_of_ok hresult, List.take_zero]
          rfl
      · have hle := h.le s buf n hresult
        have hdrop : ((r.read s buf).buf.drop n).length < k := by
          rw [List.length_drop, r.length_buf]
          omega
        obtain ⟨log, hcase, hlog⟩ := ih _ hdrop (r.read s buf).reader _ rfl
        refine ⟨.ok ((r.read s buf).buf.take n) :: log, ?_, fun before => ?_⟩
        · rw [readExact_of_ok hbuf hn hle hresult]
          exact hcase.cons h hn hresult
        · rw [readExact_of_ok (r := r) hbuf hn hle hresult,
            readExact_of_ok (r := r.logged) (s := (s, before)) hbuf hn hle hresult, logged_read,
            entry_of_ok hresult]
          simp only [Answer.withLog, hlog]
          rw [List.append_assoc, List.singleton_append]

/-- Errors that say nothing. -/
def unitErrors : IoErrors Unit := ⟨(), fun _ => ()⟩

/-- A vector that `read_to_end_exact` gives back holds the next bytes. -/
theorem readToEndExact_next (h : r.Streams stream) {s s' : σ} {len : ℕ} {bytes : List UInt8}
    (hresult : readToEndExact errors r s len = (some (.ok (.ok bytes)), s')) :
    bytes.length = len ∧ stream s = (Seq.ofList bytes).append (stream s') := by
  obtain ⟨log, hcase, -⟩ := readExact_case errors h s (resize [] len)
  obtain ⟨hbytes, rfl⟩ := Prod.mk.inj hresult
  cases hcase with
  | full result stop filled length stream_eq =>
    rw [result] at hbytes
    obtain rfl := Except.ok.inj (Except.ok.inj (Option.some.inj hbytes))
    exact ⟨by rw [filled, length, length_resize], stream_eq⟩
  | ended result =>
    rw [result] at hbytes
    cases Option.some.inj hbytes
  | failed e result =>
    rw [result] at hbytes
    cases Except.ok.inj (Option.some.inj hbytes)

end Read

end AsyncKernel
