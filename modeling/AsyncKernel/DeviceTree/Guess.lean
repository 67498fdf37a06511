import AsyncKernel.DeviceTree.Node
import AsyncKernel.Foundation.Outcome

/-!
# What a property is taken for

`PropertyValue::guess` looks at the bytes of a property, all but the last one, for texts with zero
bytes after them. Where it sees texts it takes them for UTF-8 without looking: it returns what was
written for a list of texts, and panics for other bytes that happen to have no control characters.

## Main definitions

* `PropertyValue.texts`: the texts that a value is taken for
* `LooksLikeTexts`, `textParts`: when a value is taken for texts, and for which ones
* `PropertyValue.ofTexts`: what a list of texts is to be taken for

## Main results

* `PropertyValue.guess_returns_iff`: `guess` returns when the parts that look like texts are UTF-8
* `PropertyValue.guess_flatMap`: a written list of texts is read back
-/

namespace AsyncKernel

namespace DeviceTree

namespace PropertyValue

variable {value : List UInt8} {name : Option Str} {isStringList prevIsZero : Bool}

/-! ## The texts that `guess` sees -/

/-- The texts that a value is taken for. -/
def texts (value : List UInt8) : List (List UInt8) :=
  let (isString, isStringList) := scan false true value.dropLast
  if isStringList then splitZero [] value else if isString then [value.dropLast] else []

/-- `guess` does not panic when the texts that it sees are UTF-8. -/
theorem guess_ok_iff :
    (∃ v, guess value name = .ok v) ↔ ∀ text ∈ texts value, validUtf8 text = true := by
  have hutf8 : ∀ bytes, (∃ s, fromUtf8 bytes = .ok s) ↔ validUtf8 bytes = true := by
    intro bytes
    unfold fromUtf8
    split <;> simp_all
  have hlist : ∀ parts : List (List UInt8), (∃ list, parts.mapM fromUtf8 = .ok list) ↔
      ∀ text ∈ parts, validUtf8 text = true := by
    intro parts
    induction parts with
    | nil => simp [pure, Except.pure]
    | cons part parts ih =>
      rw [List.forall_mem_cons, ← ih, ← hutf8, List.mapM_cons]
      simp only [bind_eq_ok_iff]
      constructor
      · rintro ⟨_, s, hs, list, hlist, -⟩
        exact ⟨⟨s, hs⟩, list, hlist⟩
      · rintro ⟨⟨s, hs⟩, list, hlist⟩
        exact ⟨_, s, hs, list, hlist, rfl⟩
  rw [guess, texts]
  by_cases hempty : value = []
  · subst hempty
    simp [scan, validUtf8]
  · have hisEmpty : value.isEmpty = false := by simpa using hempty
    cases hscan : scan false true value.dropLast with
    | mk isString isStringList =>
      simp only [hisEmpty, Bool.false_eq_true, if_false]
      cases isStringList with
      | true =>
        simp only [if_true, bind_eq_ok_iff, ← hlist]
        exact ⟨fun ⟨_, list, h, _⟩ => ⟨list, h⟩, fun ⟨list, h⟩ => ⟨_, list, h, rfl⟩⟩
      | false =>
        cases isString with
        | true =>
          simp only [Bool.false_eq_true, if_false, if_true, bind_eq_ok_iff, List.mem_singleton,
            forall_eq, ← hutf8]
          exact ⟨fun ⟨_, s, h, _⟩ => ⟨s, h⟩, fun ⟨s, h⟩ => ⟨_, s, h, rfl⟩⟩
        | false =>
          simp only [Bool.false_eq_true, if_false, List.not_mem_nil, false_implies, implies_true,
            iff_true]
          split_ifs <;> exact ⟨_, rfl⟩

/-! ## Bytes that look like texts -/

end PropertyValue

/-- No byte is a control character but zero bytes, none of which comes after another one, nor first
when the byte before is a zero byte. -/
structure LooksLikeTexts (prevIsZero : Bool) (bytes : List UInt8) : Prop where
  printable : ∀ b ∈ bytes, b = 0 ∨ 0x20 ≤ b
  separated : List.IsChain (fun a b => a = 0 → b ≠ 0) ((if prevIsZero then 0 else 0x20) :: bytes)

/-- What has to be UTF-8 in a value that looks like texts: the parts that a zero byte ends, when
there is one before the last byte, and all but the last byte otherwise. -/
def textParts (value : List UInt8) : List (List UInt8) :=
  if 0 ∈ value.dropLast then (value.splitOn 0).dropLast else [value.dropLast]

namespace PropertyValue

theorem looksLikeTexts_nil (prevIsZero : Bool) : LooksLikeTexts prevIsZero [] :=
  ⟨nofun, List.isChain_singleton _⟩

theorem looksLikeTexts_zero_iff {rest : List UInt8} :
    LooksLikeTexts prevIsZero (0 :: rest) ↔ prevIsZero = false ∧ LooksLikeTexts true rest := by
  constructor
  · rintro ⟨hprintable, hseparated⟩
    obtain ⟨hfirst, hrest⟩ := List.isChain_cons_cons.mp hseparated
    refine ⟨?_, fun b hb => hprintable b (List.mem_cons_of_mem _ hb), hrest⟩
    by_contra hzero
    exact hfirst (by simp [hzero]) rfl
  · rintro ⟨rfl, hprintable, hseparated⟩
    refine ⟨List.forall_mem_cons.mpr ⟨Or.inl rfl, hprintable⟩, ?_⟩
    exact List.isChain_cons_cons.mpr ⟨nofun, hseparated⟩

theorem looksLikeTexts_cons_iff {i : UInt8} (hi : i ≠ 0) {rest : List UInt8} :
    LooksLikeTexts prevIsZero (i :: rest) ↔ 0x20 ≤ i ∧ LooksLikeTexts false rest := by
  have hchain : ∀ {b : UInt8}, b ≠ 0 → (List.IsChain (fun a b => a = 0 → b ≠ 0) (b :: rest) ↔
      List.IsChain (fun a b => a = 0 → b ≠ 0) (0x20 :: rest)) := by
    intro b hb
    cases rest with
    | nil => simp
    | cons c rest => simp [hb]
  constructor
  · rintro ⟨hprintable, hseparated⟩
    obtain ⟨hfirst, hrest⟩ := List.forall_mem_cons.mp hprintable
    refine ⟨hfirst.resolve_left hi, hrest, ?_⟩
    exact (hchain hi).mp (List.isChain_cons_cons.mp hseparated).2
  · rintro ⟨hle, hprintable, hseparated⟩
    refine ⟨List.forall_mem_cons.mpr ⟨Or.inr hle, hprintable⟩, ?_⟩
    exact List.isChain_cons_cons.mpr ⟨fun _ => hi, (hchain hi).mpr hseparated⟩

/-- **What the loop of `guess` looks for**: it goes to the end of what looks like texts, and it sees a
list of texts when one of the bytes is zero. -/
theorem scan_iff {bytes : List UInt8} :
    ((scan isStringList prevIsZero bytes).1 = true ↔ LooksLikeTexts prevIsZero bytes) ∧
      ((scan isStringList prevIsZero bytes).2 = true ↔
        LooksLikeTexts prevIsZero bytes ∧ (isStringList = true ∨ 0 ∈ bytes)) := by
  induction bytes generalizing isStringList prevIsZero with
  | nil => simp [scan, looksLikeTexts_nil]
  | cons i rest ih =>
    rw [scan]
    by_cases hi : i = 0
    · subst hi
      rw [looksLikeTexts_zero_iff]
      cases prevIsZero with
      | true => simp
      | false =>
        have hrest := @ih true true
        simpa using hrest
    · rw [looksLikeTexts_cons_iff hi, if_neg fun h => hi h.1]
      by_cases hlt : i < 0x20
      · simp [hlt, UInt8.not_le.mpr hlt]
      · simpa [hlt, UInt8.not_lt.mp hlt, Ne.symm hi] using ih

theorem scan_fst_of_snd {bytes : List UInt8}
    (h : (scan isStringList prevIsZero bytes).2 = true) :
    (scan isStringList prevIsZero bytes).1 = true :=
  scan_iff.1.mpr (scan_iff.2.mp h).1

/-- The second loop of `guess` splits a value at its zero bytes, and leaves out what comes after the
last one. -/
theorem splitZero_eq_splitOn (value : List UInt8) :
    splitZero [] value = (value.splitOn 0).dropLast := by
  have hprepend : ∀ part : List UInt8, splitZero part.reverse value =
      (value.splitOnPPrepend (· == 0) part).dropLast := by
    induction value with
    | nil => exact fun part => rfl
    | cons i rest ih =>
      intro part
      rw [splitZero]
      by_cases hi : i = 0
      · subst hi
        rw [if_pos rfl, List.splitOnPPrepend_cons_pos rfl, ← List.splitOnPPrepend_nil_right,
          List.dropLast_cons_of_ne_nil (List.splitOnPPrepend_ne_nil _ _ _), ← ih []]
        rfl
      · rw [if_neg hi, List.splitOnPPrepend_cons_neg (by simpa using hi), ← ih (i :: part),
          List.reverse_cons]
  exact hprepend []

/-- The texts that `guess` sees, in terms of the bytes. -/
theorem forall_texts_iff {Q : List UInt8 → Prop} : (∀ text ∈ texts value, Q text) ↔
    (LooksLikeTexts true value.dropLast → ∀ text ∈ textParts value, Q text) := by
  have hfst := (@scan_iff false true value.dropLast).1
  have hsnd := (@scan_iff false true value.dropLast).2
  rw [texts]
  cases hscan : scan false true value.dropLast with
  | mk isString isStringList =>
    rw [hscan] at hfst hsnd
    simp only [textParts]
    by_cases hlooks : LooksLikeTexts true value.dropLast
    · obtain rfl : isString = true := hfst.mpr hlooks
      by_cases hzero : 0 ∈ value.dropLast
      · obtain rfl : isStringList = true := hsnd.mpr ⟨hlooks, Or.inr hzero⟩
        simp [hzero, hlooks, splitZero_eq_splitOn]
      · have hlist : isStringList = false := by
          by_contra hlist
          obtain ⟨-, hfalse | hmem⟩ := hsnd.mp (by simpa using hlist)
          · cases hfalse
          · exact hzero hmem
        simp [hzero, hlooks, hlist]
    · have hstring : isString = false := by simpa [hlooks] using hfst
      have hlist : isStringList = false := by simpa [hlooks] using hsnd
      simp [hlooks, hstring, hlist]

/-- **When `guess` returns**: when the parts of a value that looks like texts are UTF-8. -/
theorem guess_returns_iff (value : List UInt8) (name : Option Str) :
    (∃ v, guess value name = .ok v) ↔
      (LooksLikeTexts true value.dropLast → ∀ text ∈ textParts value, validUtf8 text = true) := by
  rw [guess_ok_iff, forall_texts_iff]

/-- A cell of four bytes that is no text. -/
theorem not_guess_returns_cell :
    guess [0xff, 0x20, 0x20, 0x20] (some (ascii "reg")) = .error .panic ∧
      ¬ ∀ (value : List UInt8) (name : Option Str), ∃ v, guess value name = .ok v := by
  have hpanic : guess [0xff, 0x20, 0x20, 0x20] (some (ascii "reg")) = .error .panic := rfl
  refine ⟨hpanic, fun hall => ?_⟩
  obtain ⟨v, hv⟩ := hall [0xff, 0x20, 0x20, 0x20] (some (ascii "reg"))
  rw [hpanic] at hv
  cases hv

/-! ## Lists of texts -/

/-- What a list of texts is to be taken for. -/
def ofTexts : List Str → PropertyValue
  | [text] => .string text
  | list => .stringList list

/-- The loop of `guess` over a text. -/
theorem scan_text_append {text rest : List UInt8} (hne : text ≠ [])
    (htext : ∀ b ∈ text, 0x20 ≤ b) :
    scan isStringList prevIsZero (text ++ rest) = scan isStringList false rest := by
  induction text generalizing prevIsZero with
  | nil => exact absurd rfl hne
  | cons i text ih =>
    obtain ⟨hi, htext⟩ := List.forall_mem_cons.mp htext
    have hzero : i ≠ 0 := by
      rintro rfl
      exact absurd hi (by decide)
    rw [List.cons_append, scan, if_neg fun h => hzero h.1, if_neg (UInt8.not_lt.mpr hi)]
    by_cases hempty : text = []
    · rw [hempty, List.nil_append]
    · exact ih hempty htext

/-- The second loop of `guess` over a text with a zero byte. -/
theorem splitZero_text_append {part text rest : List UInt8} (htext : 0 ∉ text) :
    splitZero part (text ++ 0 :: rest) = (part ++ text) :: splitZero [] rest := by
  induction text generalizing part with
  | nil => rw [List.nil_append, splitZero, if_pos rfl, List.append_nil]
  | cons i text ih =>
    rw [List.mem_cons, not_or] at htext
    rw [List.cons_append, splitZero, if_neg (Ne.symm htext.1), ih htext.2, List.append_assoc,
      List.singleton_append]

/-- The loop of `guess` over a list of texts: a text, or a list when there are more. -/
theorem scan_flatMap {text : Str} {list : List Str}
    (h : ∀ t ∈ text :: list, t ≠ [] ∧ ∀ b ∈ t, 0x20 ≤ b) :
    scan isStringList prevIsZero ((text :: list).flatMap fun t => t ++ [0]).dropLast =
      (true, isStringList || !list.isEmpty) := by
  induction list generalizing text isStringList prevIsZero with
  | nil =>
    obtain ⟨hne, htext⟩ := h text List.mem_cons_self
    rw [List.flatMap_singleton, List.dropLast_concat, ← List.append_nil text,
      scan_text_append hne htext, scan, List.isEmpty_nil, Bool.not_true, Bool.or_false]
  | cons text' list ih =>
    obtain ⟨hne, htext⟩ := h text List.mem_cons_self
    have hrest : (text' :: list).flatMap (fun t => t ++ [0]) ≠ [] := by simp
    rw [List.flatMap_cons, List.append_assoc, List.singleton_append,
      List.dropLast_append_of_ne_nil (List.cons_ne_nil _ _), List.dropLast_cons_of_ne_nil hrest,
      scan_text_append hne htext, scan, if_pos ⟨rfl, rfl⟩,
      ih fun t ht => h t (List.mem_cons_of_mem _ ht)]
    simp

theorem splitZero_flatMap {list : List Str} (h : ∀ t ∈ list, 0 ∉ t) :
    splitZero [] (list.flatMap fun t => t ++ [0]) = list := by
  induction list with
  | nil => rfl
  | cons text list ih =>
    obtain ⟨htext, hlist⟩ := List.forall_mem_cons.mp h
    rw [List.flatMap_cons, List.append_assoc, List.singleton_append, splitZero_text_append htext,
      ih hlist, List.nil_append]

theorem mapM_fromUtf8 {list : List Str} (h : ∀ t ∈ list, validUtf8 t = true) :
    list.mapM fromUtf8 = .ok list := by
  induction list with
  | nil => rfl
  | cons text list ih =>
    obtain ⟨htext, hlist⟩ := List.forall_mem_cons.mp h
    rw [List.mapM_cons, fromUtf8, if_pos htext, ih hlist]
    rfl

/-- **A written list of texts is read back**: texts without control characters, each with a zero byte
after it. -/
theorem guess_flatMap {list : List Str} (hne : list ≠ [])
    (h : ∀ text ∈ list, text ≠ [] ∧ validUtf8 text = true ∧ ∀ b ∈ text, 0x20 ≤ b)
    (name : Option Str) :
    guess (list.flatMap fun text => text ++ [0]) name = .ok (ofTexts list) := by
  obtain ⟨text, list, rfl⟩ := List.exists_cons_of_ne_nil hne
  have hzero : ∀ t ∈ text :: list, 0 ∉ t := fun t ht hmem =>
    absurd ((h t ht).2.2 0 hmem) (by decide)
  have hempty : ((text :: list).flatMap fun t => t ++ [0]).isEmpty = false := by simp
  rw [guess, hempty, scan_flatMap fun t ht => ⟨(h t ht).1, (h t ht).2.2⟩]
  cases list with
  | nil =>
    have htext := (h text List.mem_cons_self).2.1
    simp [fromUtf8, htext, ofTexts, bind, Except.bind, pure, Except.pure]
  | cons text' list =>
    have hlist := mapM_fromUtf8 fun t ht => (h t ht).2.1
    simp only [Bool.false_eq_true, if_false, List.isEmpty_cons, Bool.not_false, Bool.or_true, if_true,
      splitZero_flatMap hzero, hlist]
    rfl

/-- The compatible devices of a serial port. -/
theorem guess_flatMap_compatible :
    guess ([ascii "ns16550a", ascii "ns16550"].flatMap fun text => text ++ [0])
      (some (ascii "compatible")) = .ok (.stringList [ascii "ns16550a", ascii "ns16550"]) :=
  guess_flatMap (by simp) (by decide +kernel) _

end PropertyValue

end DeviceTree

end AsyncKernel
