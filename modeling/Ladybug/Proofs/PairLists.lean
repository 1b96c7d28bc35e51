import Ladybug.Flowchart.Coordinates
import Ladybug.Proofs.Text

/-!
# Lists of pairs

What a list of pairs looks like can be said without a reader: one or more pairs of integers
with separators between them, and nothing else. A comma stands in each pair and may stand
between pairs as well, so `1,1,3,3` does not show where a pair ends. It is found all the same,
since digits go on as far as they can: behind a pair there is a blank, a comma or nothing, and
only what follows a separator can start a pair.

A text is read in two passes. The first one checks it as a whole, the second one searches it
for pairs, wherever they start. It is shown that both see the pairs of the grammar.

## Main definitions

* `SpellsNat`, `SpellsInt`, `SpellsPair` — the texts of numbers, integers and pairs.
* `IsSeparator` — what stands between pairs.
* `SpellsPairs` — the texts of lists of pairs.
* `SpellsPositions` — the same with positions, whose coordinates must be small enough.

## Main results

* `isPairList_iff` — the first pass accepts the lists of the grammar.
* `SpellsPairs.findPairs_eq` — the second pass finds their pairs.
* `readPositions?_eq_some_iff` — the positions that are read are those that are spelled.
-/

namespace Ladybug.Flowchart

open Text

/-! ### The grammar -/

/-- The text is made of one or more decimal digits, which stand for the number. -/
structure SpellsNat (cs : List Char) (n : Nat) : Prop where
  ne_nil : cs ≠ []
  digits : ∀ c ∈ cs, c.isDigit = true
  value : digitsValue cs = n

/-- The text is a number, perhaps behind a minus sign. -/
inductive SpellsInt : List Char → Int → Prop
  | plain {cs : List Char} {n : Nat} (h : SpellsNat cs n) : SpellsInt cs n
  | minus {cs : List Char} {n : Nat} (h : SpellsNat cs n) : SpellsInt ('-' :: cs) (-n)

/-- The text is two integers with a comma between them, around which there may be blanks. -/
inductive SpellsPair : List Char → Int × Int → Prop
  | mk {cs ds w w' : List Char} {x y : Int} (hx : SpellsInt cs x)
      (hw : ∀ c ∈ w, isBlank c = true) (hw' : ∀ c ∈ w', isBlank c = true) (hy : SpellsInt ds y) :
      SpellsPair (cs ++ (w ++ ',' :: (w' ++ ds))) (x, y)

/-- The text is a comma, perhaps with blanks around it, or it is at least one blank. -/
inductive IsSeparator : List Char → Prop
  | comma {w w' : List Char} (hw : ∀ c ∈ w, isBlank c = true) (hw' : ∀ c ∈ w', isBlank c = true) :
      IsSeparator (w ++ ',' :: w')
  | blanks {w : List Char} (hne : w ≠ []) (hw : ∀ c ∈ w, isBlank c = true) : IsSeparator w

/-- The text is one or more pairs with separators between them. -/
inductive SpellsPairs : List Char → List (Int × Int) → Prop
  | one {cs : List Char} {p : Int × Int} (h : SpellsPair cs p) : SpellsPairs cs [p]
  | more {cs s rest : List Char} {p : Int × Int} {ps : List (Int × Int)} (h : SpellsPair cs p)
      (hs : IsSeparator s) (hrest : SpellsPairs rest ps) : SpellsPairs (cs ++ (s ++ rest)) (p :: ps)

/-- Both integers of the pair fit into 32 bits, and neither is the smallest such integer. -/
def Fits (p : Int × Int) : Prop :=
  (-maxCoordinate ≤ p.1 ∧ p.1 ≤ maxCoordinate) ∧ -maxCoordinate ≤ p.2 ∧ p.2 ≤ maxCoordinate

/-- The text lists the positions, each by its coordinates counted from one. -/
inductive SpellsPositions (cs : List Char) : List Position → Prop
  | mk {pairs : List (Int × Int)} (h : SpellsPairs cs pairs) (fits : ∀ p ∈ pairs, Fits p) :
      SpellsPositions cs (pairs.map fun p => ⟨p.1 - 1, p.2 - 1⟩)

/-! ### Seams -/

/-- No blank stands in a number. -/
theorem SpellsNat.not_blank {cs : List Char} {n : Nat} (h : SpellsNat cs n) : ∀ c ∈ cs, isBlank c = false :=
  fun c hc => isBlank_of_isDigit (h.digits c hc)

/-- No blank stands in an integer. -/
theorem SpellsInt.not_blank {cs : List Char} {x : Int} (h : SpellsInt cs x) : ∀ c ∈ cs, isBlank c = false := by
  cases h with
  | plain h => exact h.not_blank
  | minus h => exact List.forall_mem_cons.mpr ⟨by decide, h.not_blank⟩

/-- An integer starts with a digit or a minus sign. -/
theorem SpellsInt.exists_cons {cs : List Char} {x : Int} (h : SpellsInt cs x) :
    ∃ c ds, cs = c :: ds ∧ isBlank c = false ∧ c ≠ ',' := by
  cases h with
  | plain h =>
      obtain ⟨c, ds, rfl⟩ := List.exists_cons_of_ne_nil h.ne_nil
      have hc := h.digits c List.mem_cons_self
      exact ⟨c, ds, rfl, isBlank_of_isDigit hc, ne_of_isDigit hc (by decide)⟩
  | @minus ds n h => exact ⟨'-', ds, rfl, by decide, by decide⟩

/-- It ends with a digit. -/
theorem SpellsInt.isDigit_getLast? {cs : List Char} {x : Int} (h : SpellsInt cs x) :
    ∃ c, cs.getLast? = some c ∧ c.isDigit = true := by
  have hlast {ds : List Char} {n : Nat} (h : SpellsNat ds n) :
      ∃ c, ds.getLast? = some c ∧ c.isDigit = true :=
    ⟨_, List.getLast?_eq_some_getLast h.ne_nil, h.digits _ (List.getLast_mem h.ne_nil)⟩
  cases h with
  | plain h => exact hlast h
  | minus h =>
      obtain ⟨c, hc, hdigit⟩ := hlast h
      exact ⟨c, by rw [List.getLast?_cons, hc]; rfl, hdigit⟩

/-- A pair starts as an integer does. -/
theorem SpellsPair.exists_cons {cs : List Char} {p : Int × Int} (h : SpellsPair cs p) :
    ∃ c ds, cs = c :: ds ∧ isBlank c = false ∧ c ≠ ',' := by
  obtain ⟨hx, -, -, -⟩ := h
  obtain ⟨c, ds, rfl, hc⟩ := hx.exists_cons
  exact ⟨c, _, rfl, hc⟩

/-- It ends as an integer does. -/
theorem SpellsPair.isDigit_getLast? {cs : List Char} {p : Int × Int} (h : SpellsPair cs p) :
    ∃ c, cs.getLast? = some c ∧ c.isDigit = true := by
  obtain ⟨-, -, -, hy⟩ := h
  obtain ⟨c, hc, hdigit⟩ := hy.isDigit_getLast?
  refine ⟨c, ?_, hdigit⟩
  rw [List.getLast?_append, List.getLast?_append, List.getLast?_cons, List.getLast?_append, hc]
  rfl

/-- A list of pairs starts as a pair does. -/
theorem SpellsPairs.exists_cons {cs : List Char} {ps : List (Int × Int)} (h : SpellsPairs cs ps) :
    ∃ c ds, cs = c :: ds ∧ isBlank c = false ∧ c ≠ ',' := by
  cases h with
  | one h => exact h.exists_cons
  | more h =>
      obtain ⟨c, ds, rfl, hc⟩ := h.exists_cons
      exact ⟨c, _, rfl, hc⟩

/-- It ends as a pair does. -/
theorem SpellsPairs.isDigit_getLast? {cs : List Char} {ps : List (Int × Int)}
    (h : SpellsPairs cs ps) : ∃ c, cs.getLast? = some c ∧ c.isDigit = true := by
  induction h with
  | one h => exact h.isDigit_getLast?
  | more _ _ _ ih =>
      obtain ⟨c, hc, hdigit⟩ := ih
      refine ⟨c, ?_, hdigit⟩
      rw [List.getLast?_append, List.getLast?_append, hc]
      rfl

/-- A pair does not end with a blank. -/
theorem SpellsPair.isBlank_getLast? {cs : List Char} {p : Int × Int} (h : SpellsPair cs p) :
    ∀ c ∈ cs.getLast?, isBlank c = false := by
  obtain ⟨d, hd, hdigit⟩ := h.isDigit_getLast?
  intro c hc
  obtain rfl := Option.some.inj (hd.symm.trans hc)
  exact isBlank_of_isDigit hdigit

/-- A list of pairs does not start with a blank. -/
theorem SpellsPairs.isBlank_head? {cs : List Char} {ps : List (Int × Int)}
    (h : SpellsPairs cs ps) : ∀ c ∈ cs.head?, isBlank c = false := by
  obtain ⟨d, ds, rfl, hblank, -⟩ := h.exists_cons
  intro c hc
  obtain rfl := Option.some.inj hc
  exact hblank

/-- A separator is not empty, and it is made of blanks and commas. -/
theorem IsSeparator.chars {s : List Char} (h : IsSeparator s) :
    s ≠ [] ∧ ∀ c ∈ s, isBlank c = true ∨ c = ',' := by
  cases h with
  | @comma w w' hw hw' =>
      refine ⟨List.append_ne_nil_of_right_ne_nil w (List.cons_ne_nil ',' w'), fun c hc => ?_⟩
      rcases List.mem_append.mp hc with hc | hc
      · exact .inl (hw c hc)
      · exact (List.mem_cons.mp hc).symm.imp_left (hw' c)
  | blanks hne hw => exact ⟨hne, fun c hc => .inl (hw c hc)⟩

/-- It starts with a character of a sort to which blanks and commas belong. -/
theorem IsSeparator.forall_head? {s : List Char} (h : IsSeparator s) (rest : List Char)
    {P : Char → Prop} (hP : ∀ c, isBlank c = true ∨ c = ',' → P c) :
    ∀ c ∈ (s ++ rest).head?, P c := by
  obtain ⟨d, ds, rfl⟩ := List.exists_cons_of_ne_nil h.chars.1
  intro c hc
  obtain rfl := Option.some.inj hc
  exact hP _ (h.chars.2 _ List.mem_cons_self)

/-- A number ends before a separator. -/
theorem IsSeparator.isDigit_head? {s : List Char} (h : IsSeparator s) (rest : List Char) :
    ∀ c ∈ (s ++ rest).head?, c.isDigit = false := by
  refine h.forall_head? rest fun c hc => ?_
  by_contra hdigit
  rw [Bool.not_eq_false] at hdigit
  rcases hc with hblank | rfl
  · rw [isBlank_of_isDigit hdigit] at hblank
    cases hblank
  · cases hdigit

/-! ### Numbers and pairs -/

/-- Digits are read as the number they spell. -/
theorem readDigits?_eq_some_iff {cs : List Char} {n : Nat} :
    readDigits? cs = some n ↔ SpellsNat cs n := by
  rw [readDigits?, Option.ite_none_right_eq_some, Bool.and_eq_true, List.all_eq_true,
    Bool.not_eq_true', List.isEmpty_eq_false_iff]
  constructor
  · rintro ⟨⟨hne, hdigits⟩, hvalue⟩
    exact ⟨hne, hdigits, Option.some.inj hvalue⟩
  · exact fun h => ⟨⟨h.ne_nil, h.digits⟩, congrArg some h.value⟩

/-- A number is read as far as its digits go. -/
theorem readNat?_eq_some_iff {cs rest : List Char} {n : Nat} :
    readNat? cs = some (n, rest) ↔
      ∃ ds, SpellsNat ds n ∧ cs = ds ++ rest ∧ ∀ c ∈ rest.head?, c.isDigit = false := by
  rw [readNat?]
  constructor
  · intro h
    obtain ⟨hne, hsome⟩ := Option.ite_none_left_eq_some.mp h
    obtain ⟨rfl, rfl⟩ := Prod.mk.inj (Option.some.inj hsome)
    exact ⟨_, ⟨by simpa using hne, fun _ hc => List.mem_takeWhile_imp hc, rfl⟩,
      List.takeWhile_append_dropWhile.symm, head?_dropWhile _ _⟩
  · rintro ⟨ds, ⟨hne, hdigits, rfl⟩, rfl, hrest⟩
    simp only [takeWhile_append hdigits hrest, dropWhile_append hdigits hrest]
    rw [if_neg (by simpa using hne)]

/-- So is an integer. -/
theorem readInt?_eq_some_iff {cs rest : List Char} {x : Int} :
    readInt? cs = some (x, rest) ↔
      ∃ ds, SpellsInt ds x ∧ cs = ds ++ rest ∧ ∀ c ∈ rest.head?, c.isDigit = false := by
  constructor
  · intro h
    unfold readInt? at h
    split at h
    · next after =>
        obtain ⟨⟨n, rest⟩, hn, hx⟩ := Option.map_eq_some_iff.mp h
        obtain ⟨rfl, rfl⟩ := Prod.mk.inj hx
        obtain ⟨ds, hds, rfl, hrest⟩ := readNat?_eq_some_iff.mp hn
        exact ⟨_, .minus hds, rfl, hrest⟩
    · obtain ⟨⟨n, rest⟩, hn, hx⟩ := Option.map_eq_some_iff.mp h
      obtain ⟨rfl, rfl⟩ := Prod.mk.inj hx
      obtain ⟨ds, hds, rfl, hrest⟩ := readNat?_eq_some_iff.mp hn
      exact ⟨_, .plain hds, rfl, hrest⟩
  · rintro ⟨ds, hds, rfl, hrest⟩
    cases hds with
    | @plain ds n h =>
        have hminus : ∀ after, ds ++ rest ≠ '-' :: after := by
          intro after hafter
          obtain ⟨c, ds, rfl⟩ := List.exists_cons_of_ne_nil h.ne_nil
          exact ne_of_isDigit (h.digits c List.mem_cons_self) (by decide) (List.cons.inj hafter).1
        rw [readInt?.eq_2 _ hminus, readNat?_eq_some_iff.mpr ⟨ds, h, rfl, hrest⟩]
        rfl
    | @minus ds n h =>
        rw [List.cons_append, readInt?, readNat?_eq_some_iff.mpr ⟨ds, h, rfl, hrest⟩]
        rfl

/-- A pair is read as far as the digits of its second integer go. -/
theorem readPair?_eq_some_iff {cs rest : List Char} {p : Int × Int} :
    readPair? cs = some (p, rest) ↔
      ∃ ds, SpellsPair ds p ∧ cs = ds ++ rest ∧ ∀ c ∈ rest.head?, c.isDigit = false := by
  rw [readPair?]
  constructor
  · intro h
    obtain ⟨⟨x, afterX⟩, hx, hsecond⟩ := Option.bind_eq_some_iff.mp h
    obtain ⟨xs, hxs, hcs, -⟩ := readInt?_eq_some_iff.mp hx
    dsimp only at hsecond
    split at hsecond
    · next afterComma hcomma =>
        obtain ⟨⟨y, afterY⟩, hy, hpair⟩ := Option.bind_eq_some_iff.mp hsecond
        obtain ⟨rfl, rfl⟩ := Prod.mk.inj (Option.some.inj hpair)
        obtain ⟨ys, hys, htext, hrest⟩ := readInt?_eq_some_iff.mp hy
        obtain ⟨w, hw, hafterX⟩ := exists_blanks_of_trimLeft afterX
        obtain ⟨w', hw', hafterComma⟩ := exists_blanks_of_trimLeft afterComma
        refine ⟨_, .mk hxs hw hw' hys, ?_, hrest⟩
        rw [hcs, hafterX, hcomma, hafterComma, htext]
        simp
    · cases hsecond
  · rintro ⟨ds, ⟨hx, hw, hw', hy⟩, rfl, hrest⟩
    next xs ys w w' x y =>
    obtain ⟨c, ys, rfl, hblank, -⟩ := hy.exists_cons
    have hcomma := (IsSeparator.comma hw hw').isDigit_head? (c :: ys ++ rest)
    rw [List.append_assoc, List.cons_append] at hcomma
    have hfirst := readInt?_eq_some_iff.mpr ⟨xs, hx, rfl, hcomma⟩
    have hsecond := readInt?_eq_some_iff.mpr ⟨c :: ys, hy, rfl, hrest⟩
    have htrim : trimLeft (w ++ ',' :: (w' ++ (c :: ys ++ rest))) =
        ',' :: (w' ++ (c :: ys ++ rest)) := by
      refine trimLeft_append hw fun d hd => ?_
      obtain rfl := Option.some.inj hd
      decide
    have htrim' : trimLeft (w' ++ (c :: ys ++ rest)) = c :: ys ++ rest := by
      refine trimLeft_append hw' fun d hd => ?_
      obtain rfl := Option.some.inj hd
      exact hblank
    have htext : xs ++ (w ++ ',' :: (w' ++ c :: ys)) ++ rest =
        xs ++ (w ++ ',' :: (w' ++ (c :: ys ++ rest))) := by simp
    rw [htext, hfirst]
    simp only [Option.bind_eq_bind, Option.bind_some, htrim, htrim', hsecond]
    rfl

/-- What is skipped is a separator. -/
theorem exists_separator_of_skipSeparator? {cs rest : List Char}
    (h : skipSeparator? cs = some rest) : ∃ s, IsSeparator s ∧ cs = s ++ rest := by
  obtain ⟨w, hw, hcs⟩ := exists_blanks_of_trimLeft cs
  unfold skipSeparator? at h
  split at h
  · next after hafter =>
      obtain rfl := Option.some.inj h
      obtain ⟨w', hw', htext⟩ := exists_blanks_of_trimLeft after
      refine ⟨w ++ ',' :: w', .comma hw hw', ?_⟩
      rw [hcs, hafter, List.append_assoc, List.cons_append, ← htext]
  · obtain ⟨hblank, hrest⟩ := Option.ite_none_right_eq_some.mp h
    obtain rfl := Option.some.inj hrest
    refine ⟨w, .blanks ?_ hw, hcs⟩
    rintro rfl
    -- Without a blank the text would not start with one.
    obtain ⟨c, hc, hblank⟩ := (Option.any_eq_true _ _).mp hblank
    rw [List.nil_append] at hcs
    rw [hcs] at hc
    rw [head?_dropWhile _ _ c hc] at hblank
    cases hblank

/-- A separator is skipped up to where the next pair starts. -/
theorem IsSeparator.skipSeparator?_append {s : List Char} (h : IsSeparator s) {c : Char}
    {rest : List Char} (hblank : isBlank c = false) (hcomma : c ≠ ',') :
    skipSeparator? (s ++ c :: rest) = some (c :: rest) := by
  have hhead : ∀ d ∈ (c :: rest).head?, isBlank d = false := by
    intro d hd
    obtain rfl := Option.some.inj hd
    exact hblank
  cases h with
  | @comma w w' hw hw' =>
      have htrim : trimLeft (w ++ ',' :: (w' ++ c :: rest)) = ',' :: (w' ++ c :: rest) := by
        refine trimLeft_append hw fun d hd => ?_
        obtain rfl := Option.some.inj hd
        decide
      rw [List.append_assoc, List.cons_append, skipSeparator?, htrim]
      exact congrArg some (trimLeft_append hw' hhead)
  | blanks hne hw =>
      obtain ⟨d, w, rfl⟩ := List.exists_cons_of_ne_nil hne
      rw [skipSeparator?, trimLeft_append hw hhead]
      split
      · next hafter => exact absurd (List.cons.inj hafter).1 hcomma
      · exact if_pos (hw d List.mem_cons_self)

/-! ### The first pass -/

/-- A list of pairs may end after a pair. -/
theorem isPairList_of_end {cs : List Char} {p : Int × Int} (h : readPair? cs = some (p, [])) :
    isPairList cs = true := by
  rw [isPairList]
  split
  · next hnone => cases h.symm.trans hnone
  · rfl
  · next hne hmore =>
      cases h.symm.trans hmore
      exact absurd rfl hne

/-- A list of pairs goes on behind a separator. -/
theorem isPairList_of_more {cs rest next : List Char} {p : Int × Int}
    (h : readPair? cs = some (p, rest)) (hne : rest ≠ [])
    (hnext : skipSeparator? rest = some next) : isPairList cs = isPairList next := by
  rw [isPairList]
  split
  · next hnone => cases h.symm.trans hnone
  · next hend =>
      cases h.symm.trans hend
      exact absurd rfl hne
  · next hmore =>
      cases h.symm.trans hmore
      split
      · next hnone => cases hnext.symm.trans hnone
      · next hsome =>
          cases hnext.symm.trans hsome
          rfl

/-- **The first pass accepts the lists of the grammar.** -/
theorem isPairList_iff {cs : List Char} : isPairList cs = true ↔ ∃ ps, SpellsPairs cs ps := by
  constructor
  · intro h
    fun_induction isPairList cs with
    | case1 => cases h
    | case2 cs p hread =>
        obtain ⟨ds, hds, rfl, -⟩ := readPair?_eq_some_iff.mp hread
        rw [List.append_nil]
        exact ⟨[p], .one hds⟩
    | case3 => cases h
    | case4 cs p rest _ hread next hnext ih =>
        obtain ⟨ds, hds, rfl, -⟩ := readPair?_eq_some_iff.mp hread
        obtain ⟨s, hs, rfl⟩ := exists_separator_of_skipSeparator? hnext
        obtain ⟨ps, hps⟩ := ih h
        exact ⟨p :: ps, .more hds hs hps⟩
  · rintro ⟨ps, h⟩
    induction h with
    | one h =>
        exact isPairList_of_end
          (readPair?_eq_some_iff.mpr ⟨_, h, (List.append_nil _).symm, nofun⟩)
    | @more cs s rest p ps h hs hrest ih =>
        obtain ⟨c, ds, rfl, hblank, hcomma⟩ := hrest.exists_cons
        have hread := readPair?_eq_some_iff.mpr ⟨cs, h, rfl, hs.isDigit_head? (c :: ds)⟩
        have hne := List.append_ne_nil_of_left_ne_nil hs.chars.1 (c :: ds)
        rw [isPairList_of_more hread hne (hs.skipSeparator?_append hblank hcomma)]
        exact ih

/-! ### The second pass -/

/-- A pair is found where the search meets it. -/
theorem findPairs_of_some {cs rest : List Char} {p : Int × Int}
    (h : readPair? cs = some (p, rest)) : findPairs cs = p :: findPairs rest := by
  rw [findPairs]
  split
  · next hsome =>
      cases h.symm.trans hsome
      rfl
  · next hnone => cases h.symm.trans hnone

/-- The search goes on where no pair starts. -/
theorem findPairs_of_none {c : Char} {rest : List Char} (h : readPair? (c :: rest) = none) :
    findPairs (c :: rest) = findPairs rest := by
  rw [findPairs]
  split
  · next hsome => cases h.symm.trans hsome
  · rfl

/-- No pair starts in a separator. -/
theorem findPairs_append {s : List Char} (hs : ∀ c ∈ s, isBlank c = true ∨ c = ',')
    (rest : List Char) : findPairs (s ++ rest) = findPairs rest := by
  induction s with
  | nil => rfl
  | cons c s ih =>
      obtain ⟨hc, hs⟩ := List.forall_mem_cons.mp hs
      have hnone : readPair? (c :: (s ++ rest)) = none := by
        cases hread : readPair? (c :: (s ++ rest)) with
        | none => rfl
        | some found =>
            obtain ⟨ds, hds, htext, -⟩ := readPair?_eq_some_iff.mp hread
            obtain ⟨d, ds, rfl, hblank, hcomma⟩ := hds.exists_cons
            obtain ⟨rfl, -⟩ := List.cons.inj htext
            rcases hc with hc | hc
            · rw [hblank] at hc
              cases hc
            · exact absurd hc hcomma
      rw [List.cons_append, findPairs_of_none hnone, ih hs]

/-- **The second pass finds the pairs of the grammar.** -/
theorem SpellsPairs.findPairs_eq {cs : List Char} {ps : List (Int × Int)} (h : SpellsPairs cs ps) :
    findPairs cs = ps := by
  induction h with
  | @one cs p h =>
      have hend : findPairs [] = [] := by rw [findPairs]; rfl
      rw [findPairs_of_some (readPair?_eq_some_iff.mpr ⟨cs, h, (List.append_nil cs).symm, nofun⟩),
        hend]
  | @more cs s rest p ps h hs hrest ih =>
      rw [findPairs_of_some (readPair?_eq_some_iff.mpr ⟨cs, h, rfl, hs.isDigit_head? rest⟩),
        findPairs_append hs.chars.2, ih]

/-! ### Positions -/

/-- A pair stands for a position if it fits. -/
theorem position?_eq_some_iff {p : Int × Int} {q : Position} :
    position? p = some q ↔ Fits p ∧ q = ⟨p.1 - 1, p.2 - 1⟩ := by
  rw [position?.eq_def, Option.ite_none_right_eq_some, Option.some_inj, Fits, ← and_assoc,
    eq_comm (a := q)]
  rfl

/-- Pairs stand for positions if each of them does. -/
theorem mapM_position?_eq_some_iff {pairs : List (Int × Int)} {ps : List Position} :
    pairs.mapM position? = some ps ↔
      (∀ p ∈ pairs, Fits p) ∧ ps = pairs.map fun p => ⟨p.1 - 1, p.2 - 1⟩ := by
  induction pairs generalizing ps with
  | nil =>
      rw [List.mapM_nil]
      exact ⟨fun h => ⟨nofun, (Option.some.inj h).symm⟩, fun h => congrArg some h.2.symm⟩
  | cons p pairs ih =>
      rw [List.mapM_cons, List.forall_mem_cons, List.map_cons]
      constructor
      · intro h
        obtain ⟨q, hq, h⟩ := Option.bind_eq_some_iff.mp h
        obtain ⟨qs, hqs, h⟩ := Option.bind_eq_some_iff.mp h
        obtain rfl := Option.some.inj h
        obtain ⟨hfits, rfl⟩ := position?_eq_some_iff.mp hq
        obtain ⟨hall, rfl⟩ := ih.mp hqs
        exact ⟨⟨hfits, hall⟩, rfl⟩
      · rintro ⟨⟨hfits, hall⟩, rfl⟩
        rw [position?_eq_some_iff.mpr ⟨hfits, rfl⟩, ih.mpr ⟨hall, rfl⟩]
        rfl

/-- **The positions that are read are those that are spelled.** -/
theorem readPositions?_eq_some_iff {cs : List Char} {ps : List Position} :
    readPositions? cs = some ps ↔ SpellsPositions cs ps := by
  rw [readPositions?, Option.ite_none_right_eq_some, isPairList_iff, mapM_position?_eq_some_iff]
  constructor
  · rintro ⟨⟨pairs, hpairs⟩, hfits, rfl⟩
    rw [hpairs.findPairs_eq] at hfits ⊢
    exact .mk hpairs hfits
  · rintro ⟨hpairs, hfits⟩
    rw [hpairs.findPairs_eq]
    exact ⟨⟨_, hpairs⟩, hfits, rfl⟩

/-- A comma between integers and a comma between pairs are told apart by their place. -/
example : readPositions? "1,1 ,3 , -3".toList = some [⟨0, 0⟩, ⟨2, -4⟩] := by decide +kernel

end Ladybug.Flowchart
