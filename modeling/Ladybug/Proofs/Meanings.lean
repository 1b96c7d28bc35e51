import Ladybug.Flowchart.Meaning
import Ladybug.Proofs.PairLists
import Mathlib.Data.List.Basic

/-!
# What brackets say

What a bracket says depends on its form and on what it holds, up to blanks at the ends: a sign
of a composite, a keyword, or a keyword with positions behind it. The reader comes to this by
steps that look at less. It asks for `=` in front and `>` at the end before it looks at what
stands between, and it cuts off a keyword at the first blank before it looks at the word. No
step claims a text that is meant for a later one, since no keyword starts as a sign does, and
positions neither start nor end with a blank.

## Main definitions

* `SpellsThreshold` — the texts of thresholds.
* `SaysAction`, `SaysCondition` — the texts that name an action or a condition.
* `Says` — what either form of bracket says.

## Main results

* `readAction_eq_ok_iff`, `readCondition_eq_ok_iff` — what is read are the named ones.
* `Bracket.kind_eq_ok_iff` — the kind that is read is the one that is said.
-/

namespace Ladybug.Flowchart

open Text

/-! ### What can be said -/

/-- The text is a positive number of at most 32 bits without leading zeros. -/
structure SpellsThreshold (cs : List Char) (n : Nat) : Prop where
  spells : SpellsNat cs n
  head : cs.head? ≠ some '0'
  pos : 0 < n
  le : n ≤ maxThreshold

/-- The text is a keyword, and behind it there are blanks and what stands behind those. -/
def Follows (keyword cs text : List Char) : Prop :=
  ∃ w, w ≠ [] ∧ (∀ c ∈ w, isBlank c = true) ∧ text = keyword ++ (w ++ cs)

/-- The text names the action: by its keyword, with a position behind `fly`. -/
inductive SaysAction (text : List Char) : Action → Prop
  | plain {action : Action} (h : action ∈ Action.plain) (htext : text = action.keyword.toList) :
      SaysAction text action
  | fly {cs : List Char} {goal : Position} (h : SpellsPositions cs [goal])
      (htext : Follows "fly".toList cs text) : SaysAction text (.fly goal)

/-- The text names the condition: by its keyword, with one or two positions behind
`existsPath`. -/
inductive SaysCondition (text : List Char) : Condition → Prop
  | plain {condition : Condition} (h : condition ∈ Condition.plain)
      (htext : text = condition.keyword.toList) : SaysCondition text condition
  | pathTo {cs : List Char} {goal : Position} (h : SpellsPositions cs [goal])
      (htext : Follows "existsPath".toList cs text) : SaysCondition text (.pathTo goal)
  | pathBetween {cs : List Char} {start goal : Position} (h : SpellsPositions cs [start, goal])
      (htext : Follows "existsPath".toList cs text) : SaysCondition text (.pathBetween start goal)

/-- The kind that a bracket says. The signs of composites stand in both forms of bracket,
conditions in round ones and actions in square ones. -/
inductive Says (round : Bool) (text : List Char) : NodeKind → Prop
  | fallback (htext : text = "?".toList) : Says round text (.composite .fallback)
  | sequence (htext : text = "->".toList) : Says round text (.composite .sequence)
  | parallel {cs : List Char} {n : Nat} (h : SpellsThreshold cs n)
      (htext : text = '=' :: (cs ++ ['>'])) : Says round text (.composite (.parallel n))
  | condition {condition : Condition} (hround : round = true) (h : SaysCondition text condition) :
      Says round text (.condition condition)
  | action {action : Action} (hround : round = false) (h : SaysAction text action) :
      Says round text (.action action)

/-! ### Keywords -/

/-- A word of which keywords are made: it has no blanks, no signs and no closing bracket. -/
structure IsWord (word : String) : Prop where
  ne_nil : word.toList ≠ []
  isBlank : ∀ c ∈ word.toList, isBlank c = false
  plain : ∀ c ∈ word.toList, c ∉ ['?', '-', '=', ']']

/-- Whether a text is a word is checked character by character. -/
theorem IsWord.of_all {word : String} (hne : word.toList ≠ [])
    (h : word.toList.all (fun c => !Text.isBlank c && !(['?', '-', '=', ']'].contains c)) = true) :
    IsWord word := by
  have hchars : ∀ c ∈ word.toList, Text.isBlank c = false ∧ c ∉ ['?', '-', '=', ']'] := by
    intro c hc
    have hchar := List.all_eq_true.mp h c hc
    rw [Bool.and_eq_true, Bool.not_eq_true', Bool.not_eq_true'] at hchar
    exact ⟨hchar.1, fun hmem => by rw [List.contains_iff_mem.mpr hmem] at hchar; cases hchar.2⟩
  exact ⟨hne, fun c hc => (hchars c hc).1, fun c hc => (hchars c hc).2⟩

theorem isWord_of_action (action : Action) : IsWord action.keyword := by
  cases action <;> rw [Action.keyword] <;> exact .of_all (by decide) (by decide)

theorem isWord_of_condition (condition : Condition) : IsWord condition.keyword := by
  cases condition <;> rw [Condition.keyword] <;> exact .of_all (by decide) (by decide)

/-- What is said does not start as a sign does if it starts with a word. -/
theorem IsWord.exists_cons_append {word : String} (h : IsWord word) (cs : List Char) :
    ∃ c ds, word.toList ++ cs = c :: ds ∧ c ∉ ['?', '-', '='] := by
  obtain ⟨c, ds, hword⟩ := List.exists_cons_of_ne_nil h.ne_nil
  have hc := h.plain c (hword ▸ List.mem_cons_self)
  simp only [List.mem_cons, not_or] at hc ⊢
  exact ⟨c, ds ++ cs, by rw [hword]; rfl, hc.1, hc.2.1, hc.2.2.1, List.not_mem_nil⟩

section Keyword

variable {word : String} {cs rest : List Char}

/-- A keyword by itself has nothing behind it. -/
theorem keywordAndRest_word (h : IsWord word) : keywordAndRest word.toList = (word, []) := by
  have hword : ∀ c ∈ word.toList, (!isBlank c) = true := fun c hc => by rw [h.isBlank c hc]; rfl
  have htake : (word.toList ++ []).takeWhile (fun c => !isBlank c) = word.toList :=
    takeWhile_append hword nofun
  have hdrop : (word.toList ++ []).dropWhile (fun c => !isBlank c) = [] :=
    dropWhile_append hword nofun
  rw [List.append_nil] at htake hdrop
  rw [keywordAndRest, splitAtBlank]
  simp only [htake, hdrop, String.ofList_toList]
  rfl

/-- What stands behind a keyword is found without the blanks before it. -/
theorem keywordAndRest_follows (h : IsWord word) {text : List Char}
    (htext : Follows word.toList cs text) (hfirst : ∀ c ∈ cs.head?, isBlank c = false)
    (hlast : ∀ c ∈ cs.getLast?, isBlank c = false) : keywordAndRest text = (word, cs) := by
  obtain ⟨w, hne, hw, rfl⟩ := htext
  obtain ⟨b, w, rfl⟩ := List.exists_cons_of_ne_nil hne
  obtain ⟨hb, hw⟩ := List.forall_mem_cons.mp hw
  have hword : ∀ c ∈ word.toList, (!isBlank c) = true := fun c hc => by rw [h.isBlank c hc]; rfl
  have hrest : ∀ c ∈ (b :: w ++ cs).head?, (!isBlank c) = false := by
    intro c hc
    obtain rfl := Option.some.inj hc
    rw [hb]
    rfl
  rw [keywordAndRest, splitAtBlank]
  simp only [takeWhile_append hword hrest, dropWhile_append hword hrest, String.ofList_toList]
  rw [List.cons_append, List.drop_succ_cons, List.drop_zero, trim, trimLeft_append hw hfirst,
    trimRight_eq_self hlast]

/-- A text that does not end with a blank is its keyword, or something follows its keyword. -/
theorem of_keywordAndRest (hlast : ∀ c ∈ cs.getLast?, isBlank c = false)
    (h : keywordAndRest cs = (word, rest)) :
    (rest = [] ∧ cs = word.toList) ∨ (rest ≠ [] ∧ Follows word.toList rest cs) := by
  have hsplit := List.takeWhile_append_dropWhile (p := fun c => !isBlank c) (l := cs)
  have hhead := head?_dropWhile (fun c => !isBlank c) cs
  rw [keywordAndRest, splitAtBlank] at h
  obtain ⟨rfl, rfl⟩ := Prod.mk.inj h
  rw [String.toList_ofList]
  cases hdrop : cs.dropWhile fun c => !isBlank c with
  | nil =>
      rw [hdrop, List.append_nil] at hsplit
      exact .inl ⟨rfl, hsplit.symm⟩
  | cons b after =>
      rw [hdrop] at hsplit hhead
      have hb : isBlank b = true := by simpa using hhead b rfl
      rw [← hsplit, List.getLast?_append_of_ne_nil _ (List.cons_ne_nil b after)] at hlast
      obtain ⟨w, hw, hafter⟩ := exists_blanks_of_trimLeft after
      have hblanks : ∀ c ∈ b :: w, isBlank c = true := List.forall_mem_cons.mpr ⟨hb, hw⟩
      have hbefore : b :: after = b :: w ++ trimLeft after := congrArg (b :: ·) hafter
      rw [hbefore] at hlast hsplit
      -- Only blanks behind the keyword would end the text with one.
      have hne : trimLeft after ≠ [] := by
        intro hnil
        rw [hnil, List.append_nil] at hlast
        have hblank := hlast _ (List.getLast?_eq_some_getLast (List.cons_ne_nil b w))
        rw [hblanks _ (List.getLast_mem _)] at hblank
        cases hblank
      rw [List.getLast?_append_of_ne_nil _ hne] at hlast
      have htrim : trim after = trimLeft after := trimRight_eq_self hlast
      rw [List.drop_succ_cons, List.drop_zero, htrim]
      exact .inr ⟨hne, b :: w, List.cons_ne_nil b w, hblanks, hsplit.symm⟩

/-- If nothing is left behind its keyword, a text is the keyword. -/
theorem eq_of_keywordAndRest (hlast : ∀ c ∈ cs.getLast?, isBlank c = false)
    (h : keywordAndRest cs = (word, rest)) (hrest : rest.isEmpty = true) : cs = word.toList := by
  rcases of_keywordAndRest hlast h with ⟨-, hcs⟩ | ⟨hne, -⟩
  · exact hcs
  · exact absurd (List.isEmpty_iff.mp hrest) hne

end Keyword

/-- Positions do not start with a blank. -/
theorem SpellsPositions.isBlank_head? {cs : List Char} {ps : List Position}
    (h : SpellsPositions cs ps) : ∀ c ∈ cs.head?, isBlank c = false := by
  obtain ⟨hpairs, -⟩ := h
  exact hpairs.isBlank_head?

/-- Positions do not end with a blank. -/
theorem SpellsPositions.isBlank_getLast? {cs : List Char} {ps : List Position}
    (h : SpellsPositions cs ps) : ∀ c ∈ cs.getLast?, isBlank c = false := by
  obtain ⟨hpairs, -⟩ := h
  obtain ⟨d, hd, hdigit⟩ := hpairs.isDigit_getLast?
  intro c hc
  rw [hd] at hc
  obtain rfl := Option.some.inj hc
  exact isBlank_of_isDigit hdigit

/-- There are no positions in an empty text. -/
theorem not_spellsPositions_nil (ps : List Position) : ¬ SpellsPositions [] ps := by
  rintro ⟨hpairs, -⟩
  obtain ⟨d, ds, hds, -⟩ := hpairs.exists_cons
  cases hds

/-- Positions that are read behind a keyword follow it. -/
theorem follows_of_keywordAndRest {word : String} {cs rest : List Char}
    (hlast : ∀ c ∈ cs.getLast?, isBlank c = false) (h : keywordAndRest cs = (word, rest))
    {ps : List Position} (hps : readPositions? rest = some ps) :
    SpellsPositions rest ps ∧ Follows word.toList rest cs := by
  have hspelled := readPositions?_eq_some_iff.mp hps
  rcases of_keywordAndRest hlast h with ⟨rfl, -⟩ | ⟨-, hfollows⟩
  · exact absurd hspelled (not_spellsPositions_nil ps)
  · exact ⟨hspelled, hfollows⟩

/-! ### Actions and conditions -/

section Leaf

variable {text : List Char} (hlast : ∀ c ∈ text.getLast?, isBlank c = false)

include hlast

/-- **The action that is read is the one that is named.** -/
theorem readAction_eq_ok_iff {action : Action} :
    readAction text = .ok action ↔ SaysAction text action := by
  have hplain : ∀ action ∈ Action.plain, action.keyword ≠ "fly" ∧
      (Action.plain.find? fun found => found.keyword == action.keyword) = some action := by decide
  rw [readAction]
  constructor
  · intro h
    split at h
    next keyword rest hsplit =>
    split at h
    · next hfly =>
        split at h
        · next goal hgoal =>
            obtain rfl := Except.ok.inj h
            obtain ⟨hspelled, hfollows⟩ := follows_of_keywordAndRest hlast hsplit hgoal
            exact .fly hspelled (hfly ▸ hfollows)
        · cases h
    · split at h
      · cases h
      · next found hfound =>
          split at h
          · next hempty =>
              obtain rfl := Except.ok.inj h
              have hkeyword : found.keyword = keyword := eq_of_beq (List.find?_some hfound :)
              have htext := eq_of_keywordAndRest hlast hsplit hempty
              exact .plain (List.mem_of_find?_eq_some hfound) (hkeyword ▸ htext)
          · cases h
  · rintro (⟨hmem, rfl⟩ | ⟨hgoal, htext⟩)
    · obtain ⟨hne, hfind⟩ := hplain action hmem
      rw [keywordAndRest_word (isWord_of_action action)]
      simp only [if_neg hne, hfind]
      rfl
    · next goal =>
      rw [keywordAndRest_follows (isWord_of_action (.fly goal)) htext hgoal.isBlank_head?
        hgoal.isBlank_getLast?]
      simp only [readPositions?_eq_some_iff.mpr hgoal]
      rfl

/-- **The condition that is read is the one that is named.** -/
theorem readCondition_eq_ok_iff {condition : Condition} :
    readCondition text = .ok condition ↔ SaysCondition text condition := by
  have hplain : ∀ condition ∈ Condition.plain, condition.keyword ≠ "existsPath" ∧
      (Condition.plain.find? fun found => found.keyword == condition.keyword) =
        some condition := by decide
  rw [readCondition]
  constructor
  · intro h
    split at h
    next keyword rest hsplit =>
    split at h
    · next hpath =>
        split at h
        · next goal hgoal =>
            obtain rfl := Except.ok.inj h
            obtain ⟨hspelled, hfollows⟩ := follows_of_keywordAndRest hlast hsplit hgoal
            exact .pathTo hspelled (hpath ▸ hfollows)
        · next start goal hgoals =>
            obtain rfl := Except.ok.inj h
            obtain ⟨hspelled, hfollows⟩ := follows_of_keywordAndRest hlast hsplit hgoals
            exact .pathBetween hspelled (hpath ▸ hfollows)
        · cases h
    · split at h
      · next found hfound =>
          split at h
          · next hempty =>
              obtain rfl := Except.ok.inj h
              have hkeyword : found.keyword = keyword := eq_of_beq (List.find?_some hfound :)
              have htext := eq_of_keywordAndRest hlast hsplit hempty
              exact .plain (List.mem_of_find?_eq_some hfound) (hkeyword ▸ htext)
          · cases h
      · cases h
  · rintro (⟨hmem, rfl⟩ | ⟨hgoal, htext⟩ | ⟨hgoals, htext⟩)
    · obtain ⟨hne, hfind⟩ := hplain condition hmem
      rw [keywordAndRest_word (isWord_of_condition condition)]
      simp only [if_neg hne, hfind]
      rfl
    · next goal =>
      rw [keywordAndRest_follows (isWord_of_condition (.pathTo goal)) htext hgoal.isBlank_head?
        hgoal.isBlank_getLast?]
      simp only [readPositions?_eq_some_iff.mpr hgoal]
      rfl
    · next start goal =>
      rw [keywordAndRest_follows (isWord_of_condition (.pathBetween start goal)) htext
        hgoals.isBlank_head? hgoals.isBlank_getLast?]
      simp only [readPositions?_eq_some_iff.mpr hgoals]
      rfl

end Leaf

/-- The name of an action does not start as a sign does. -/
theorem SaysAction.exists_cons {text : List Char} {action : Action} (h : SaysAction text action) :
    ∃ c ds, text = c :: ds ∧ c ∉ ['?', '-', '='] := by
  cases h with
  | plain _ htext =>
      obtain ⟨c, ds, hcons, hc⟩ := (isWord_of_action action).exists_cons_append []
      exact ⟨c, ds, by rw [htext, ← hcons, List.append_nil], hc⟩
  | @fly cs goal _ htext =>
      obtain ⟨w, -, -, rfl⟩ := htext
      exact (isWord_of_action (.fly goal)).exists_cons_append (w ++ cs)

/-- The name of a condition does not start as a sign does. -/
theorem SaysCondition.exists_cons {text : List Char} {condition : Condition}
    (h : SaysCondition text condition) : ∃ c ds, text = c :: ds ∧ c ∉ ['?', '-', '='] := by
  have hpath {cs : List Char} (htext : Follows "existsPath".toList cs text) :
      ∃ c ds, text = c :: ds ∧ c ∉ ['?', '-', '='] := by
    obtain ⟨w, -, -, rfl⟩ := htext
    exact (isWord_of_condition (.pathTo default)).exists_cons_append (w ++ cs)
  cases h with
  | plain _ htext =>
      obtain ⟨c, ds, hcons, hc⟩ := (isWord_of_condition condition).exists_cons_append []
      exact ⟨c, ds, by rw [htext, ← hcons, List.append_nil], hc⟩
  | pathTo _ htext => exact hpath htext
  | pathBetween _ htext => exact hpath htext

/-! ### Signs -/

/-- The threshold that is read is the one that is spelled. -/
theorem readThreshold?_eq_some_iff {cs : List Char} {n : Nat} :
    readThreshold? cs = some n ↔ SpellsThreshold cs n := by
  rw [readThreshold?, Option.ite_none_left_eq_some, Option.filter_eq_some_iff,
    readDigits?_eq_some_iff]
  constructor
  · rintro ⟨hhead, hspells, hle⟩
    have hpos := digitsValue_pos hspells.ne_nil hspells.digits hhead
    exact ⟨hspells, hhead, hspells.value ▸ hpos, of_decide_eq_true hle⟩
  · rintro ⟨hspells, hhead, -, hle⟩
    exact ⟨hhead, hspells, decide_eq_true hle⟩

/-- A text between two signs. -/
theorem eq_between {text : List Char} {first last : Char} (hne : first ≠ last)
    (hfirst : text.head? = some first) (hlast : text.getLast? = some last) :
    text = first :: ((text.drop 1).dropLast ++ [last]) := by
  cases text with
  | nil => cases hfirst
  | cons c cs =>
      obtain rfl := Option.some.inj hfirst
      rcases List.eq_nil_or_concat cs with rfl | ⟨cs, d, rfl⟩
      · exact absurd (Option.some.inj hlast) hne
      · rw [List.concat_eq_append, ← List.cons_append, List.getLast?_concat] at hlast
        obtain rfl := Option.some.inj hlast
        rw [List.drop_succ_cons, List.drop_zero, List.concat_eq_append, List.dropLast_concat]

/-- What does not start as a sign is none of the signs. -/
theorem not_sign_of_cons {text : List Char} (h : ∃ c ds, text = c :: ds ∧ c ∉ ['?', '-', '=']) :
    text ≠ ['?'] ∧ text ≠ ['-', '>'] ∧
      ¬ (text.head? = some '=' ∧ text.getLast? = some '>') := by
  obtain ⟨c, ds, rfl, hc⟩ := h
  simp only [List.mem_cons, not_or] at hc
  exact ⟨fun htext => hc.1 (List.cons.inj htext).1, fun htext => hc.2.1 (List.cons.inj htext).1,
    fun htext => hc.2.2.1 (Option.some.inj htext.1)⟩

/-- The value of a step that may fail is made of a value. -/
theorem exists_ok_of_map {ε α β : Type} {x : Except ε α} {f : α → β} {b : β}
    (h : x.map f = .ok b) : ∃ a, x = .ok a ∧ f a = b := by
  cases x with
  | error e => cases h
  | ok a => exact ⟨a, rfl, Except.ok.inj h⟩

/-- The kind that is read is said. -/
theorem Bracket.says_of_kind {b : Bracket} {kind : NodeKind} (h : b.kind = .ok kind) :
    Says b.round (trim b.inner) kind := by
  have hlast := isBlank_getLast?_trim b.inner
  rw [Bracket.kind] at h
  generalize trim b.inner = text at h hlast ⊢
  split at h
  · next htext =>
      obtain rfl := Except.ok.inj h
      exact .fallback htext
  · split at h
    · next htext =>
        obtain rfl := Except.ok.inj h
        exact .sequence htext
    · split at h
      · next hsigns =>
          split at h
          · next n hn =>
              obtain rfl := Except.ok.inj h
              exact .parallel (readThreshold?_eq_some_iff.mp hn)
                (eq_between (by decide) hsigns.1 hsigns.2)
          · cases h
      · split at h
        · next hround =>
            obtain ⟨condition, hread, rfl⟩ := exists_ok_of_map h
            exact .condition hround ((readCondition_eq_ok_iff hlast).mp hread)
        · next hround =>
            obtain ⟨action, hread, rfl⟩ := exists_ok_of_map h
            exact .action (Bool.not_eq_true _ ▸ hround) ((readAction_eq_ok_iff hlast).mp hread)

/-- The kind that is said is read. -/
theorem Bracket.kind_of_says {b : Bracket} {kind : NodeKind}
    (h : Says b.round (trim b.inner) kind) : b.kind = .ok kind := by
  have hlast := isBlank_getLast?_trim b.inner
  rw [Bracket.kind]
  generalize trim b.inner = text at h hlast ⊢
  rcases h with htext | htext | ⟨hn, rfl⟩ | ⟨hround, h⟩ | ⟨hround, h⟩
  · exact if_pos htext
  · rw [htext]
    rfl
  · next cs n =>
    have hinner : (('=' :: (cs ++ ['>'])).drop 1).dropLast = cs := by
      rw [List.drop_succ_cons, List.drop_zero, List.dropLast_concat]
    have hlast : ('=' :: (cs ++ ['>'])).getLast? = some '>' := by
      rw [← List.cons_append, List.getLast?_concat]
    have hsign {c : Char} {ds : List Char} (hc : '=' ≠ c) : '=' :: (cs ++ ['>']) ≠ c :: ds :=
      fun h => hc (List.cons.inj h).1
    simp only [hinner, hlast, readThreshold?_eq_some_iff.mpr hn]
    rw [if_neg (hsign (by decide)), if_neg (hsign (by decide)), if_pos ⟨rfl, trivial⟩]
  · obtain ⟨hfallback, hsequence, hparallel⟩ := not_sign_of_cons h.exists_cons
    simp only [if_neg hfallback, if_neg hsequence, if_neg hparallel, hround,
      (readCondition_eq_ok_iff hlast).mpr h]
    rfl
  · obtain ⟨hfallback, hsequence, hparallel⟩ := not_sign_of_cons h.exists_cons
    simp only [if_neg hfallback, if_neg hsequence, if_neg hparallel, hround,
      (readAction_eq_ok_iff hlast).mpr h]
    rfl

/-- **The kind that is read is the one that is said.** -/
theorem Bracket.kind_eq_ok_iff {b : Bracket} {kind : NodeKind} :
    b.kind = .ok kind ↔ Says b.round (trim b.inner) kind :=
  ⟨says_of_kind, kind_of_says⟩

end Ladybug.Flowchart
