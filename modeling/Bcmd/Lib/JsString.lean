import Mathlib.Data.List.DropRight
import Mathlib.Tactic.Common

/-!
# The strings of JavaScript

A string is a list of UTF-16 code units; `utf8` gives the bytes it is sent as. Units and bytes below 128 stand
for the same characters and are never part of a longer code, so what is asked of the first or of the last byte
of a text, where it is about ASCII, can be asked of its first or last unit (`head?_utf8`, `getLast?_utf8`).
-/

abbrev JsString := List UInt16

namespace JsString

/-- A literal. -/
def units (s : String) : JsString := s.toList.map fun c => UInt16.ofNat c.toNat

/-- White space and line terminators of the language. -/
def isWhiteSpace (u : UInt16) : Bool :=
  (9 ≤ u && u ≤ 13) || u == 32 || u == 0xA0 || u == 0x1680 || (0x2000 ≤ u && u ≤ 0x200A) || u == 0x2028 ||
    u == 0x2029 || u == 0x202F || u == 0x205F || u == 0x3000 || u == 0xFEFF

def trim (s : JsString) : JsString := (s.dropWhile isWhiteSpace).rdropWhile isWhiteSpace

def isHighSurrogate (u : UInt16) : Bool := 0xD800 ≤ u && u ≤ 0xDBFF

def isLowSurrogate (u : UInt16) : Bool := 0xDC00 ≤ u && u ≤ 0xDFFF

/-- The character of a unit that is not half of a pair: U+FFFD for a surrogate on its own. -/
def char (u : UInt16) : Char :=
  if isHighSurrogate u || isLowSurrogate u then Char.ofNat 0xFFFD else Char.ofNat u.toNat

def pairChar (high low : UInt16) : Char :=
  Char.ofNat (0x10000 + (high.toNat - 0xD800) * 0x400 + (low.toNat - 0xDC00))

def chars : JsString → List Char
  | [] => []
  | [u] => [char u]
  | u :: v :: s =>
    if isHighSurrogate u && isLowSurrogate v then pairChar u v :: chars s else char u :: chars (v :: s)

def utf8 (s : JsString) : List UInt8 := (chars s).flatMap String.utf8EncodeChar

example : utf8 [0x61, 0x4E2D, 0xD83D, 0xDE00, 0xD83D] =
    [0x61, 0xE4, 0xB8, 0xAD, 0xF0, 0x9F, 0x98, 0x80, 0xEF, 0xBF, 0xBD] := by decide

/-! ### ASCII -/

section
variable {u v : UInt16} {s : JsString} {n : Nat}

theorem toNat_ofNat (hvalid : n.isValidChar) : (Char.ofNat n).toNat = n := by
  rw [Char.ofNat, dif_pos hvalid]
  rfl

theorem toNat_char_iff (hn : n < 128) : (char u).toNat = n ↔ u.toNat = n := by
  unfold char
  split
  · simp [isHighSurrogate, isLowSurrogate, UInt16.le_iff_toNat_le] at *
    omega
  · have hvalid : u.toNat.isValidChar := by
      simp [isHighSurrogate, isLowSurrogate, UInt16.le_iff_toNat_le] at *
      have := u.toNat_lt
      unfold Nat.isValidChar
      omega
    rw [toNat_ofNat hvalid]

theorem le_toNat_pairChar (hu : isHighSurrogate u) (hv : isLowSurrogate v) :
    0x10000 ≤ (pairChar u v).toNat := by
  have hvalid : (0x10000 + (u.toNat - 0xD800) * 0x400 + (v.toNat - 0xDC00)).isValidChar := by
    simp [isHighSurrogate, isLowSurrogate, UInt16.le_iff_toNat_le] at hu hv
    unfold Nat.isValidChar
    omega
  rw [pairChar, toNat_ofNat hvalid]
  omega

theorem chars_ne_nil (h : s ≠ []) : chars s ≠ [] := by
  fun_cases chars s <;> simp_all

theorem head?_chars (hn : n < 128) :
    (chars s).head?.map Char.toNat = some n ↔ s.head?.map UInt16.toNat = some n := by
  fun_cases chars s with
  | case1 => simp
  | case2 u => simpa using toNat_char_iff hn
  | case3 u v s h =>
    rw [Bool.and_eq_true] at h
    have hpair := le_toNat_pairChar h.1 h.2
    have hhigh := h.1
    simp [isHighSurrogate, UInt16.le_iff_toNat_le] at hhigh ⊢
    omega
  | case4 u v s h => simpa using toNat_char_iff hn

theorem getLast?_chars (hn : n < 128) :
    (chars s).getLast?.map Char.toNat = some n ↔ s.getLast?.map UInt16.toNat = some n := by
  fun_induction chars s with
  | case1 => simp
  | case2 u => simpa using toNat_char_iff hn
  | case3 u v s h ih =>
    rw [Bool.and_eq_true] at h
    rcases s with _ | ⟨w, s⟩
    · -- the pair is the end, and neither its character nor its second unit is ASCII
      have hpair := le_toNat_pairChar h.1 h.2
      have hlow := h.2
      simp [chars, isLowSurrogate, UInt16.le_iff_toNat_le] at hlow ⊢
      omega
    · rw [List.getLast?_cons_of_ne_nil (chars_ne_nil (by simp))]
      simpa using ih
  | case4 u v s h ih =>
    rw [List.getLast?_cons_of_ne_nil (chars_ne_nil (by simp))]
    simpa using ih

theorem utf8EncodeChar_ascii {c : Char} (hc : c.toNat < 128) :
    String.utf8EncodeChar c = [UInt8.ofNat c.toNat] := by
  have hval : c.val.toNat ≤ 0x7f := Nat.le_of_lt_succ hc
  rw [String.utf8EncodeChar, if_pos hval]
  rfl

theorem le_of_mem_utf8EncodeChar {c : Char} (hc : 128 ≤ c.toNat) :
    ∀ b ∈ String.utf8EncodeChar c, 128 ≤ b.toNat := by
  have hval : ¬ c.val.toNat ≤ 0x7f := Nat.not_le_of_lt hc
  rw [String.utf8EncodeChar, if_neg hval]
  split
  · simp
    omega
  · split <;> simp <;> omega

/-- A byte that stands first or last in the code of a character, if it is ASCII, is all of it. -/
theorem utf8EncodeChar_iff {c : Char} {b : UInt8} (hb : b ∈ String.utf8EncodeChar c) (hn : n < 128) :
    b.toNat = n ↔ c.toNat = n := by
  rcases Nat.lt_or_ge c.toNat 128 with hc | hc
  · rw [utf8EncodeChar_ascii hc, List.mem_singleton] at hb
    rw [hb, UInt8.toNat_ofNat', Nat.mod_eq_of_lt (by omega)]
  · have := le_of_mem_utf8EncodeChar hc b hb
    omega

theorem head?_utf8 (hn : n < 128) :
    (utf8 s).head?.map UInt8.toNat = some n ↔ s.head?.map UInt16.toNat = some n := by
  rw [← head?_chars hn, utf8]
  rcases chars s with _ | ⟨c, cs⟩
  · simp
  · obtain ⟨b, bs, hcode⟩ := List.exists_cons_of_ne_nil (String.utf8EncodeChar_ne_nil (c := c))
    have hb : b ∈ String.utf8EncodeChar c := by rw [hcode]; simp
    simpa [hcode] using utf8EncodeChar_iff hb hn

theorem getLast?_utf8 (hn : n < 128) :
    (utf8 s).getLast?.map UInt8.toNat = some n ↔ s.getLast?.map UInt16.toNat = some n := by
  rw [← getLast?_chars hn, utf8]
  rcases List.eq_nil_or_concat (chars s) with hnil | ⟨cs, c, hsnoc⟩
  · simp [hnil]
  · rcases List.eq_nil_or_concat (String.utf8EncodeChar c) with hnil | ⟨bs, b, hcode⟩
    · exact absurd hnil String.utf8EncodeChar_ne_nil
    · have hb : b ∈ String.utf8EncodeChar c := by rw [hcode]; simp
      simpa [hsnoc, hcode] using utf8EncodeChar_iff hb hn

@[simp] theorem utf8_eq_nil_iff : utf8 s = [] ↔ s = [] := by
  constructor
  · intro h
    by_contra hne
    obtain ⟨c, cs, hcs⟩ := List.exists_cons_of_ne_nil (chars_ne_nil hne)
    simp [utf8, hcs, String.utf8EncodeChar_ne_nil] at h
  · rintro rfl
    rfl

theorem utf8EncodeChar_char (hu : u.toNat < 128) : String.utf8EncodeChar (char u) = [u.toUInt8] := by
  have hchar : (char u).toNat = u.toNat := (toNat_char_iff hu).2 rfl
  rw [utf8EncodeChar_ascii (by omega), hchar]
  rfl

theorem utf8_of_ascii (h : ∀ u ∈ s, u.toNat < 128) : utf8 s = s.map UInt16.toUInt8 := by
  unfold utf8
  fun_induction chars s with
  | case1 => rfl
  | case2 u => simpa using utf8EncodeChar_char (h u (by simp))
  | case3 u v s hpair ih =>
    have hu := h u (by simp)
    simp [isHighSurrogate, UInt16.le_iff_toNat_le] at hpair
    omega
  | case4 u v s hpair ih =>
    rw [List.flatMap_cons, utf8EncodeChar_char (h u (by simp)), ih fun w hw => h w (by simp [hw])]
    rfl

end

end JsString
