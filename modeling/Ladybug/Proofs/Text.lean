import Ladybug.Text.Decimal
import Ladybug.Text.Lines
import Mathlib.Data.List.TakeWhile
import Mathlib.Tactic.Common

/-!
# Laws of texts

Readers look at the ends of a text and at its longest beginnings of some sort. What they
find there is known as soon as the characters at the seams are: a text whose first and last
characters are not blank is not trimmed, and a beginning of one sort ends where a character
of another sort follows. Lines without a newline are found again when they are written one
below the other, and so are words that are joined by blanks, and numbers. Whether lines are
written in characters or in bytes makes no difference, since a byte that stands for an ASCII
character does not occur in other characters.

## Main results

* `Text.trim_eq_self` and `Text.trimLeft_append` — what trimming leaves.
* `Text.takeWhile_append` and `Text.dropWhile_append` — where a beginning ends.
* `Text.blank_or_exists_word` — the first word of a text.
* `Text.words_trim` and `Text.words_joinWords` — words that are trimmed and joined.
* `Text.linesOf_flatMap` — lines that are written one below the other.
* `Text.not_mem_toUTF8` — bytes that stand for ASCII characters.
* `Text.toList_toString_nat` and `Text.toList_toString_int` — numbers are written in digits.
* `Text.head?_digitsOf` and `Text.digitsValue_pos` — numbers without leading zeros.
-/

namespace Ladybug.Text

/-! ### Beginnings -/

section Beginning

variable {p : Char → Bool} {cs rest : List Char}

/-- A beginning ends where a character of another sort follows. -/
theorem takeWhile_append (h : ∀ c ∈ cs, p c = true) (hrest : ∀ c ∈ rest.head?, p c = false) :
    (cs ++ rest).takeWhile p = cs := by
  rw [List.takeWhile_append_of_pos h]
  cases rest with
  | nil => rw [List.takeWhile_nil, List.append_nil]
  | cons c rest =>
      rw [List.takeWhile_cons_of_neg (by rw [hrest c rfl]; decide), List.append_nil]

/-- What follows it is the rest. -/
theorem dropWhile_append (h : ∀ c ∈ cs, p c = true) (hrest : ∀ c ∈ rest.head?, p c = false) :
    (cs ++ rest).dropWhile p = rest := by
  rw [List.dropWhile_append_of_pos h]
  cases rest with
  | nil => rfl
  | cons c rest => rw [List.dropWhile_cons_of_neg (by rw [hrest c rfl]; decide)]

/-- A text that starts with another sort of character has no such beginning. -/
theorem dropWhile_eq_self (h : ∀ c ∈ cs.head?, p c = false) : cs.dropWhile p = cs :=
  show ([] ++ cs).dropWhile p = cs from dropWhile_append (by simp) h

/-- What follows a beginning starts with another sort of character. -/
theorem head?_dropWhile (p : Char → Bool) (cs : List Char) :
    ∀ c ∈ (cs.dropWhile p).head?, p c = false := by
  intro c hc
  have hnot := List.head?_dropWhile_not p cs
  rwa [show (cs.dropWhile p).head? = some c from hc] at hnot

end Beginning

/-! ### Blanks -/

/-- No character is blank if a look at all of them says so. -/
theorem not_blank_of_all {cs : List Char} (h : (cs.all fun c => !isBlank c) = true) :
    ∀ c ∈ cs, isBlank c = false := by
  simpa using h

/-! ### Trimming -/

/-- A text that does not start with a blank is not trimmed on the left. -/
theorem trimLeft_eq_self {cs : List Char} (h : ∀ c ∈ cs.head?, isBlank c = false) :
    trimLeft cs = cs :=
  dropWhile_eq_self h

/-- A text that does not end with a blank is not trimmed on the right. -/
theorem trimRight_eq_self {cs : List Char} (h : ∀ c ∈ cs.getLast?, isBlank c = false) :
    trimRight cs = cs := by
  rw [trimRight, dropWhile_eq_self, List.reverse_reverse]
  rwa [List.head?_reverse]

/-- A text with other characters at its ends is not trimmed. -/
theorem trim_eq_self {cs : List Char} (hfirst : ∀ c ∈ cs.head?, isBlank c = false)
    (hlast : ∀ c ∈ cs.getLast?, isBlank c = false) : trim cs = cs := by
  rw [trim, trimLeft_eq_self hfirst, trimRight_eq_self hlast]

/-- Blanks before a text are trimmed. -/
theorem trimLeft_append {blanks cs : List Char} (hblanks : ∀ c ∈ blanks, isBlank c = true)
    (hfirst : ∀ c ∈ cs.head?, isBlank c = false) : trimLeft (blanks ++ cs) = cs :=
  dropWhile_append hblanks hfirst

/-- Blanks behind a text are trimmed. -/
theorem trimRight_append {cs blanks : List Char} (hblanks : ∀ c ∈ blanks, isBlank c = true)
    (hlast : ∀ c ∈ cs.getLast?, isBlank c = false) : trimRight (cs ++ blanks) = cs := by
  rw [trimRight, List.reverse_append, dropWhile_append, List.reverse_reverse]
  · exact fun c hc => hblanks c (List.mem_reverse.mp hc)
  · rwa [List.head?_reverse]

/-- Trimming on the left cuts blanks off. -/
theorem exists_blanks_of_trimLeft (cs : List Char) :
    ∃ blanks, (∀ c ∈ blanks, isBlank c = true) ∧ cs = blanks ++ trimLeft cs :=
  ⟨cs.takeWhile isBlank, fun _ hc => List.mem_takeWhile_imp hc,
    List.takeWhile_append_dropWhile.symm⟩

/-- Trimming on the right cuts blanks off. -/
theorem exists_blanks_of_trimRight (cs : List Char) :
    ∃ blanks, cs = trimRight cs ++ blanks ∧ ∀ c ∈ blanks, isBlank c = true := by
  refine ⟨(cs.reverse.takeWhile isBlank).reverse, ?_, fun c hc => ?_⟩
  · rw [trimRight, ← List.reverse_append, List.takeWhile_append_dropWhile, List.reverse_reverse]
  · exact List.mem_takeWhile_imp (List.mem_reverse.mp hc)

/-- Trimmed texts do not start with a blank. -/
theorem isBlank_head?_trim (cs : List Char) : ∀ c ∈ (trim cs).head?, isBlank c = false := by
  intro c hc
  obtain ⟨w, hright, -⟩ := exists_blanks_of_trimRight (trimLeft cs)
  refine head?_dropWhile isBlank cs c ?_
  change (trimLeft cs).head? = some c
  rw [hright, List.head?_append, show (trimRight (trimLeft cs)).head? = some c from hc]
  rfl

/-- Trimmed texts do not end with a blank. -/
theorem isBlank_getLast?_trim (cs : List Char) : ∀ c ∈ (trim cs).getLast?, isBlank c = false := by
  rw [trim, trimRight, List.getLast?_reverse]
  exact head?_dropWhile _ _

/-- Characters that are not blank are not trimmed. -/
theorem mem_trim {cs : List Char} {c : Char} (h : c ∈ cs) (hc : isBlank c = false) :
    c ∈ trim cs := by
  have hkeep : ∀ l : List Char, c ∈ l → c ∈ l.dropWhile isBlank := by
    intro l hl
    rw [← List.takeWhile_append_dropWhile (p := isBlank) (l := l)] at hl
    rcases List.mem_append.mp hl with hl | hl
    · rw [List.mem_takeWhile_imp hl] at hc
      cases hc
    · exact hl
  rw [trim, trimRight, List.mem_reverse]
  exact hkeep _ (List.mem_reverse.mpr (hkeep cs h))

/-! ### Words -/

section Words

variable {w rest : List Char}

/-- A text without blanks is a word. -/
theorem words_of_not_blank (hne : w ≠ []) (h : ∀ c ∈ w, isBlank c = false) : words w = [w] := by
  rw [words, List.splitOnP_eq_singleton h, List.filter_cons_of_pos (by simp [hne])]
  rfl

/-- A word ends at a blank. -/
theorem words_append {b : Char} (hne : w ≠ []) (h : ∀ c ∈ w, isBlank c = false)
    (hb : isBlank b = true) : words (w ++ b :: rest) = w :: words rest := by
  rw [words, List.splitOnP_append_cons_of_forall_mem h b hb,
    List.filter_cons_of_pos (by simp [hne]), words]

/-- Blanks before a text add no words to it. -/
theorem words_blanks_append {blanks : List Char} (h : ∀ c ∈ blanks, isBlank c = true)
    (cs : List Char) : words (blanks ++ cs) = words cs := by
  induction blanks with
  | nil => rfl
  | cons c blanks ih =>
      obtain ⟨hc, hblanks⟩ := List.forall_mem_cons.mp h
      rw [List.cons_append, words, List.splitOnP_cons_eq_if_modifyHead, if_pos hc,
        List.filter_cons_of_neg (by simp), ← words, ih hblanks]

/-- A text of blanks has no words. -/
theorem words_of_blanks {cs : List Char} (h : ∀ c ∈ cs, isBlank c = true) : words cs = [] := by
  rw [← List.append_nil cs, words_blanks_append h]
  rfl

/-- A word ends where a blank follows, or nothing. -/
theorem words_word_append (hne : w ≠ []) (h : ∀ c ∈ w, isBlank c = false)
    (hrest : ∀ c ∈ rest.head?, isBlank c = true) : words (w ++ rest) = w :: words rest := by
  cases rest with
  | nil => rw [List.append_nil, words_of_not_blank hne h]; rfl
  | cons b rest =>
      have hb : isBlank b = true := hrest b rfl
      rw [words_append hne h hb]
      exact congrArg (w :: ·) (words_blanks_append (List.forall_mem_singleton.mpr hb) rest).symm

/-- A text is blank, or it has a first word with blanks before it and perhaps more behind. -/
theorem blank_or_exists_word (cs : List Char) :
    (∀ c ∈ cs, isBlank c = true) ∨
      ∃ blanks w rest, cs = blanks ++ (w ++ rest) ∧ (∀ c ∈ blanks, isBlank c = true) ∧ w ≠ [] ∧
        (∀ c ∈ w, isBlank c = false) ∧ (∀ c ∈ rest.head?, isBlank c = true) ∧
        words cs = w :: words rest := by
  obtain ⟨blanks, hblanks, hcs⟩ := exists_blanks_of_trimLeft cs
  have hfirst : ∀ c ∈ (trimLeft cs).head?, isBlank c = false := head?_dropWhile isBlank cs
  have hrest : ∀ c ∈ ((trimLeft cs).dropWhile fun c => !isBlank c).head?, isBlank c = true :=
    fun c hc => by simpa using head?_dropWhile _ _ c hc
  have hw : ∀ c ∈ (trimLeft cs).takeWhile fun c => !isBlank c, isBlank c = false :=
    fun c hc => by simpa using List.mem_takeWhile_imp hc
  have hsplit := List.takeWhile_append_dropWhile (p := fun c => !isBlank c) (l := trimLeft cs)
  by_cases hnil : trimLeft cs = []
  · rw [hnil, List.append_nil] at hcs
    exact .inl (hcs ▸ hblanks)
  · obtain ⟨c, ds, hcons⟩ := List.exists_cons_of_ne_nil hnil
    have hne : ((trimLeft cs).takeWhile fun c => !isBlank c) ≠ [] := by
      rw [hcons] at hfirst ⊢
      rw [List.takeWhile_cons_of_pos (by rw [hfirst c rfl]; rfl)]
      exact List.cons_ne_nil _ _
    refine .inr ⟨blanks, _, _, by rw [hsplit]; exact hcs, hblanks, hne, hw, hrest, ?_⟩
    rw [← words_word_append hne hw hrest, hsplit]
    conv_lhs => rw [hcs]
    exact words_blanks_append hblanks _

/-- A text without words is blank. -/
theorem blank_of_words {cs : List Char} (h : words cs = []) : ∀ c ∈ cs, isBlank c = true := by
  rcases blank_or_exists_word cs with hblank | ⟨_, _, _, _, _, _, _, _, hcons⟩
  · exact hblank
  · rw [hcons] at h
    cases h

/-- A text with words has a first one, and the others stand behind it. -/
theorem exists_word_of_words {cs : List Char} {ws : List (List Char)} (h : words cs = w :: ws) :
    ∃ blanks rest, cs = blanks ++ (w ++ rest) ∧ (∀ c ∈ blanks, isBlank c = true) ∧ w ≠ [] ∧
      (∀ c ∈ w, isBlank c = false) ∧ (∀ c ∈ rest.head?, isBlank c = true) ∧ words rest = ws := by
  rcases blank_or_exists_word cs with
    hblank | ⟨blanks, w', rest, hcs, hblanks, hne, hw, hrest, hcons⟩
  · rw [words_of_blanks hblank] at h
    cases h
  · obtain ⟨rfl, rfl⟩ := List.cons.inj (hcons.symm.trans h)
    exact ⟨blanks, rest, hcs, hblanks, hne, hw, hrest, rfl⟩

/-- A text without words that does not end with a blank is empty. -/
theorem eq_nil_of_words {cs : List Char} (h : words cs = [])
    (hlast : ∀ c ∈ cs.getLast?, isBlank c = false) : cs = [] := by
  by_contra hne
  have hc := hlast _ (List.getLast?_eq_some_getLast hne)
  rw [blank_of_words h _ (List.getLast_mem hne)] at hc
  cases hc

/-- Blanks behind a text add no words to it. -/
theorem words_append_blanks (cs : List Char) {blanks : List Char}
    (h : ∀ c ∈ blanks, isBlank c = true) : words (cs ++ blanks) = words cs := by
  induction hwords : words cs generalizing cs with
  | nil => exact words_of_blanks (List.forall_mem_append.mpr ⟨blank_of_words hwords, h⟩)
  | cons w ws ih =>
      obtain ⟨before, rest, rfl, hbefore, hne, hw, hrest, hws⟩ := exists_word_of_words hwords
      have hbehind : ∀ c ∈ (rest ++ blanks).head?, isBlank c = true := by
        intro c hc
        rw [List.head?_append, Option.mem_def, Option.or_eq_some_iff] at hc
        exact hc.elim (hrest c) fun hc => h c (List.mem_of_mem_head? hc.2)
      rw [List.append_assoc, List.append_assoc, words_blanks_append hbefore,
        words_word_append hne hw hbehind, ih rest hws]

/-- Trimming takes no words away. -/
theorem words_trim (cs : List Char) : words (trim cs) = words cs := by
  obtain ⟨w, hw, hleft⟩ := exists_blanks_of_trimLeft cs
  obtain ⟨w', hright, hw'⟩ := exists_blanks_of_trimRight (trimLeft cs)
  conv_rhs => rw [hleft, words_blanks_append hw, hright, words_append_blanks _ hw']
  rfl

/-- Words are not empty, and no blank stands in them. -/
theorem of_mem_words {cs : List Char} (h : w ∈ words cs) :
    w ≠ [] ∧ ∀ c ∈ w, isBlank c = false := by
  induction hwords : words cs generalizing cs with
  | nil => rw [hwords] at h; cases h
  | cons first ws ih =>
      obtain ⟨_, rest, -, -, hne, hfirst, -, hws⟩ := exists_word_of_words hwords
      rw [hwords] at h
      rcases List.mem_cons.mp h with rfl | h
      · exact ⟨hne, hfirst⟩
      · exact ih (hws.symm ▸ h) hws

/-- Words that are joined by single spaces are found again. -/
theorem words_joinWords {ws : List (List Char)}
    (h : ∀ w ∈ ws, w ≠ [] ∧ ∀ c ∈ w, isBlank c = false) : words (joinWords ws) = ws := by
  induction ws with
  | nil => rfl
  | cons w ws ih =>
      obtain ⟨⟨hne, hw⟩, hws⟩ := List.forall_mem_cons.mp h
      cases ws with
      | nil =>
        rw [joinWords, List.intercalate_singleton]
        exact words_of_not_blank hne hw
      | cons w' ws =>
          rw [joinWords, List.intercalate_cons_cons, List.append_assoc, List.singleton_append,
            words_append hne hw (by decide)]
          exact congrArg (w :: ·) (ih hws)

end Words

/-! ### Lines -/

section Lines

variable {α : Type} [DecidableEq α] {newline ret : α}

/-- The first line ends at the first newline. -/
theorem linesOf_append {l : List α} (h : newline ∉ l) (rest : List α) :
    linesOf newline ret (l ++ newline :: rest) = chomp ret l :: linesOf newline ret rest := by
  obtain ⟨piece, pieces, hpieces⟩ := List.exists_cons_of_ne_nil (List.splitOn_ne_nil newline rest)
  rw [linesOf, List.splitOn_append_cons_self_of_not_mem h, linesOf, hpieces,
    List.dropLast_cons_of_ne_nil (List.cons_ne_nil _ _), List.getLast?_cons_cons, List.map_cons,
    List.cons_append]

/-- Lines that are written one below the other are found again, before whatever is written
below them, if no newline stands in them and no carriage return at their ends. -/
theorem linesOf_flatMap {ls : List (List α)} (h : ∀ l ∈ ls, newline ∉ l)
    (hret : ∀ l ∈ ls, l.getLast? ≠ some ret) (rest : List α) :
    linesOf newline ret ((ls.flatMap fun l => l ++ [newline]) ++ rest) =
      ls ++ linesOf newline ret rest := by
  induction ls with
  | nil => rfl
  | cons l ls ih =>
      have hchomp : chomp ret l = l := if_neg (hret l List.mem_cons_self)
      rw [List.flatMap_cons, List.append_assoc, List.append_assoc, List.singleton_append,
        linesOf_append (h l List.mem_cons_self), hchomp,
        ih (fun l' hl' => h l' (List.mem_cons_of_mem l hl'))
          fun l' hl' => hret l' (List.mem_cons_of_mem l hl'), List.cons_append]

end Lines

/-- Lines of characters that are written one below the other are found again. -/
theorem lines_flatMap {ls : List (List Char)} (h : ∀ l ∈ ls, '\n' ∉ l)
    (hret : ∀ l ∈ ls, l.getLast? ≠ some '\r') :
    lines (ls.flatMap fun l => l ++ ['\n']) = ls := by
  have hlines := linesOf_flatMap h hret []
  rw [List.append_nil] at hlines
  exact hlines.trans (List.append_nil ls)

/-! ### Bytes -/

/-- The bytes of a text are those of its characters. -/
theorem toList_toUTF8 (text : String) :
    text.toUTF8.data.toList = text.toList.flatMap String.utf8EncodeChar := by
  rw [String.toUTF8_eq_toByteArray, ← String.utf8Encode_toList, List.utf8Encode,
    List.toList_data_toByteArray]

/-- A byte of a character that stands for an ASCII character is all there is to it: the bytes of
other characters are larger. -/
theorem toNat_of_mem_utf8EncodeChar {c : Char} {b : UInt8} (h : b ∈ String.utf8EncodeChar c)
    (hb : b.toNat < 128) : c.toNat = b.toNat := by
  have hsmall {n : Nat} (hn : b = UInt8.ofNat n) (hn' : n < 256) : b.toNat = n := by
    rw [hn, UInt8.toNat_ofNat', Nat.mod_eq_of_lt hn']
  have hc : c.val.toNat = c.toNat := rfl
  rw [String.utf8EncodeChar, hc] at h
  split at h
  · rw [hsmall (List.mem_singleton.mp h) (by omega)]
  · exfalso
    have hlarge : ∃ n, b = UInt8.ofNat n ∧ 128 ≤ n ∧ n < 256 := by
      split at h
      · simp only [List.mem_cons, List.not_mem_nil, or_false] at h
        rcases h with h | h <;> exact ⟨_, h, by omega, by omega⟩
      · split at h
        · simp only [List.mem_cons, List.not_mem_nil, or_false] at h
          rcases h with h | h | h <;> exact ⟨_, h, by omega, by omega⟩
        · simp only [List.mem_cons, List.not_mem_nil, or_false] at h
          rcases h with h | h | h | h <;> exact ⟨_, h, by omega, by omega⟩
    obtain ⟨n, hn, hmin, hmax⟩ := hlarge
    rw [hsmall hn hmax] at hb
    omega

/-- A text without an ASCII character has no byte for it. -/
theorem not_mem_toUTF8 {text : String} {c : Char} {b : UInt8} (hb : b.toNat = c.toNat)
    (hc : c.toNat < 128) (h : c ∉ text.toList) : b ∉ text.toUTF8.data.toList := by
  rw [toList_toUTF8]
  intro hmem
  obtain ⟨d, hd, hbyte⟩ := List.mem_flatMap.mp hmem
  have hdb := toNat_of_mem_utf8EncodeChar hbyte (by omega)
  obtain rfl : d = c := Char.toNat_inj.mp (by omega)
  exact h hd

/-- The bytes of a text stand for that text. -/
theorem fromUTF8?_toUTF8 (text : String) :
    String.fromUTF8? ⟨text.toUTF8.data.toList.toArray⟩ = some text := by
  have hbytes : (⟨text.toUTF8.data.toList.toArray⟩ : ByteArray) = text.toUTF8 := rfl
  have hvalid : text.toUTF8.IsValidUTF8 := text.isValidUTF8
  rw [String.fromUTF8?, hbytes, dif_pos hvalid]
  rfl

/-! ### Digits -/

/-- A number is written in digits. -/
theorem toList_toString_nat (n : Nat) : (toString n).toList = digitsOf n := by
  simp [digitsOf]

/-- So is an integer, perhaps behind a minus sign. -/
theorem toList_toString_int (x : Int) : (toString x).toList = signedDigitsOf x := by
  cases x with
  | ofNat n => exact Nat.toList_repr
  | negSucc n =>
      change (("-" : String) ++ (n + 1).repr).toList = _
      rw [String.toList_append, Nat.toList_repr]
      rfl

theorem digitsOf_ne_nil (n : Nat) : digitsOf n ≠ [] := Nat.toDigits_ne_nil

theorem isDigit_of_mem_digitsOf {n : Nat} {c : Char} (h : c ∈ digitsOf n) : c.isDigit = true :=
  Nat.isDigit_of_mem_toDigits (by decide) (by decide) h

/-- The value of the digits is the number. -/
theorem digitsValue_digitsOf (n : Nat) : digitsValue (digitsOf n) = n :=
  Nat.ofDigitChars_ten_toDigits

/-- The code points of the digits. -/
theorem toNat_of_isDigit {c : Char} (h : c.isDigit = true) : 48 ≤ c.toNat ∧ c.toNat ≤ 57 := by
  rw [Char.isDigit, Bool.and_eq_true, decide_eq_true_eq, decide_eq_true_eq] at h
  exact ⟨UInt32.le_iff_toNat_le.mp h.1, UInt32.le_iff_toNat_le.mp h.2⟩

/-- A digit is not blank. -/
theorem isBlank_of_isDigit {c : Char} (h : c.isDigit = true) : isBlank c = false := by
  have hrange := toNat_of_isDigit h
  rw [isBlank, blankRanges]
  simp only [List.any_cons, List.any_nil, Bool.or_false, Bool.or_eq_false_iff,
    Bool.and_eq_false_iff, decide_eq_false_iff_not]
  omega

/-- A digit is no other character. -/
theorem ne_of_isDigit {c d : Char} (hc : c.isDigit = true) (hd : d.isDigit = false) : c ≠ d := by
  rintro rfl
  rw [hc] at hd
  cases hd

/-- A positive number does not start with a zero. -/
theorem head?_digitsOf {n : Nat} (h : 0 < n) : (digitsOf n).head? ≠ some '0' := by
  have hdigit : ∀ d < 10, 0 < d → Nat.digitChar d ≠ '0' := by decide
  induction n using Nat.strongRecOn with
  | ind n ih =>
      rw [digitsOf, Nat.toDigits_eq_if (by decide)]
      split
      · next hlt =>
          intro hhead
          exact hdigit n hlt h (Option.some.inj hhead)
      · next hle =>
          have hhead := ih (n / 10) (by omega) (by omega)
          obtain ⟨c, cs, hcs⟩ := List.exists_cons_of_ne_nil (digitsOf_ne_nil (n / 10))
          rw [digitsOf] at hcs
          rw [digitsOf, hcs] at hhead
          rwa [hcs]

/-- Digits that do not start with a zero stand for a positive number. -/
theorem digitsValue_pos {cs : List Char} (hne : cs ≠ []) (hdigits : ∀ c ∈ cs, c.isDigit = true)
    (hhead : cs.head? ≠ some '0') : 0 < digitsValue cs := by
  cases cs with
  | nil => exact absurd rfl hne
  | cons c cs =>
      have hrange := toNat_of_isDigit (hdigits c List.mem_cons_self)
      have hzero : c.toNat ≠ '0'.toNat := by
        intro hc
        exact hhead (congrArg some (Char.toNat_inj.mp hc))
      have hfirst : 0 < 10 * 0 + (c.toNat - '0'.toNat) := by
        change c.toNat ≠ 48 at hzero
        change 0 < 10 * 0 + (c.toNat - 48)
        omega
      rw [digitsValue, Nat.ofDigitChars_cons, Nat.ofDigitChars_eq_ofDigitChars_zero]
      exact Nat.add_pos_left (Nat.mul_pos (Nat.pow_pos (by decide)) hfirst) _

end Ladybug.Text
