import Ladybug.Proofs.PairLists

/-!
# Coordinates by patterns

Coordinates can be read without any reader that is made for them, by two patterns. One is for
whole texts, and a text without a match is refused. The other is for a single pair. It is
searched for from left to right, and what it finds is read as numbers. The search does not know
where the first pattern has seen pairs. It could see others, since the comma in a pair may also
stand between pairs, and since a pattern that does not come through gives characters back and
tries again with fewer of them. Neither do patterns know which digits numbers are made of: what
they take for a digit may be one of any script, while numbers have ASCII digits only.

It is shown that the patterns agree with each other, whatever they take for digits, and that what
they read is what the reader of coordinates reads. A pattern tries the longest way first, and the
longest way through a pair is the right one, since what follows a pair is not a digit.

## Main definitions

* `Digits` — what patterns take for digits.
* `Digits.ArePairs` — the first pattern, with the integers of each pair.
* `Digits.pairWays` — the ways to match the second pattern, in the order they are tried.
* `Digits.search` — what is found with the second pattern.
* `located?` — the position of a pair that was found.

## Main results

* `Digits.pairWays_sound` — what is matched with the second pattern is a pair.
* `Digits.ArePairs.search_eq` — the search finds the pairs that the first pattern has seen.
* `Digits.readPositions?_iff_search` — patterns read what the reader of coordinates reads.
-/

namespace Ladybug.Flowchart

open Text

/-- What patterns take for digits: the ten ASCII digits and perhaps others, but neither blanks
nor the two marks that integers and pairs are written with. -/
structure Digits where
  isDigit : Char → Bool
  of_ascii : ∀ c, c.isDigit = true → isDigit c = true
  not_blank : ∀ c, isDigit c = true → isBlank c = false
  comma : isDigit ',' = false
  minus : isDigit '-' = false

/-- The ASCII digits, and also the characters of another sort as far as they may be digits. -/
def Digits.along (p : Char → Bool) : Digits where
  isDigit c := c.isDigit || (p c && !isBlank c && c != ',' && c != '-')
  of_ascii c h := by rw [h, Bool.true_or]
  not_blank c h := by
    rcases Bool.or_eq_true_iff.mp h with h | h
    · exact isBlank_of_isDigit h
    · simp only [Bool.and_eq_true, Bool.not_eq_true'] at h
      exact h.1.1.2
  comma := by simp
  minus := by simp

/-! ### Ways to match a pattern -/

section Ways

variable {p : Char → Bool} {cs ds rest : List Char}

/-- The ways to take characters of one sort off a text, with what is left of the text. As many as
there are come first, and then one less each time. -/
def runWays (p : Char → Bool) : List Char → List (List Char × List Char)
  | [] => [([], [])]
  | c :: cs =>
    if p c then (runWays p cs).map (fun (ds, rest) => (c :: ds, rest)) ++ [([], c :: cs)]
    else [([], c :: cs)]

/-- The ways to take a minus sign off a text, or nothing. -/
def signWays : List Char → List (List Char × List Char)
  | '-' :: cs => [(['-'], cs), ([], '-' :: cs)]
  | cs => [([], cs)]

/-- The ways to take a comma with blanks around it off a text. Only what is left is kept. -/
def commaWays (cs : List Char) : List (List Char) :=
  (runWays isBlank cs).flatMap fun
    | (_, ',' :: rest) => (runWays isBlank rest).map Prod.snd
    | _ => []

/-- Only characters of this sort are taken off. -/
theorem runWays_sound (h : (ds, rest) ∈ runWays p cs) :
    cs = ds ++ rest ∧ ∀ c ∈ ds, p c = true := by
  induction cs generalizing ds with
  | nil =>
      obtain ⟨rfl, rfl⟩ := Prod.mk.inj (List.mem_singleton.mp h)
      exact ⟨rfl, nofun⟩
  | cons c cs ih =>
      have hstop (h : (ds, rest) ∈ [([], c :: cs)]) :
          c :: cs = ds ++ rest ∧ ∀ c ∈ ds, p c = true := by
        obtain ⟨rfl, rfl⟩ := Prod.mk.inj (List.mem_singleton.mp h)
        exact ⟨rfl, nofun⟩
      rw [runWays] at h
      split at h
      · next hc =>
          rcases List.mem_append.mp h with h | h
          · obtain ⟨⟨ds', rest'⟩, hmem, heq⟩ := List.mem_map.mp h
            obtain ⟨rfl, rfl⟩ := Prod.mk.inj heq
            obtain ⟨rfl, hds⟩ := ih hmem
            exact ⟨rfl, List.forall_mem_cons.mpr ⟨hc, hds⟩⟩
          · exact hstop h
      · exact hstop h

/-- All of them are taken off at first. -/
theorem head?_runWays (p : Char → Bool) (cs : List Char) :
    (runWays p cs).head? = some (cs.takeWhile p, cs.dropWhile p) := by
  induction cs with
  | nil => rfl
  | cons c cs ih =>
      rw [runWays]
      cases hc : p c with
      | true =>
          rw [if_pos rfl, List.head?_append, List.head?_map, ih, List.takeWhile_cons_of_pos hc,
            List.dropWhile_cons_of_pos hc]
          rfl
      | false =>
          have hnot : ¬p c = true := by rw [hc]; exact Bool.false_ne_true
          rw [if_neg Bool.false_ne_true, List.takeWhile_cons_of_neg hnot,
            List.dropWhile_cons_of_neg hnot]
          rfl

/-- The first way through two parts is the first way through each, if there is one. -/
theorem head?_flatMap_of_head? {α β : Type} {l : List α} {f : α → List β} {a : α} {b : β}
    (ha : l.head? = some a) (hb : (f a).head? = some b) : (l.flatMap f).head? = some b := by
  obtain ⟨l, rfl⟩ := List.head?_eq_some_iff.mp ha
  rw [List.flatMap_cons, List.head?_append, hb]
  rfl

/-- Only a comma and blanks are taken off. -/
theorem commaWays_sound (h : rest ∈ commaWays cs) :
    ∃ w w', (∀ c ∈ w, isBlank c = true) ∧ (∀ c ∈ w', isBlank c = true) ∧
      cs = w ++ ',' :: (w' ++ rest) := by
  obtain ⟨way, hway, h⟩ := List.mem_flatMap.mp h
  split at h
  · next w after =>
      obtain ⟨⟨w', rest'⟩, hmem, rfl⟩ := List.mem_map.mp h
      obtain ⟨rfl, hw⟩ := runWays_sound hway
      obtain ⟨rfl, hw'⟩ := runWays_sound hmem
      exact ⟨w, w', hw, hw', rfl⟩
  · cases h

/-- All blanks behind the comma are taken off at first. -/
theorem head?_commaWays {w w' : List Char} (hw : ∀ c ∈ w, isBlank c = true)
    (hw' : ∀ c ∈ w', isBlank c = true) (hrest : ∀ c ∈ rest.head?, isBlank c = false) :
    (commaWays (w ++ ',' :: (w' ++ rest))).head? = some rest := by
  have hcomma : ∀ c ∈ (',' :: (w' ++ rest)).head?, isBlank c = false := by
    intro c hc
    obtain rfl := Option.some.inj hc
    decide
  have hfirst := head?_runWays isBlank (w ++ ',' :: (w' ++ rest))
  rw [takeWhile_append hw hcomma, dropWhile_append hw hcomma] at hfirst
  refine head?_flatMap_of_head? hfirst ?_
  change ((runWays isBlank (w' ++ rest)).map Prod.snd).head? = some rest
  rw [List.head?_map, head?_runWays, dropWhile_append hw' hrest]
  rfl

end Ways

namespace Digits

variable {D : Digits} {cs xs ys rest : List Char} {m : List Char × List Char}
  {ms : List (List Char × List Char)}

/-! ### The first pattern -/

/-- The text is one or more digits, perhaps behind a minus sign. -/
inductive IsInt (D : Digits) : List Char → Prop
  | plain {cs : List Char} (hne : cs ≠ []) (h : ∀ c ∈ cs, D.isDigit c = true) : IsInt D cs
  | minus {cs : List Char} (hne : cs ≠ []) (h : ∀ c ∈ cs, D.isDigit c = true) : IsInt D ('-' :: cs)

/-- The text is made of the two integers, with a comma between them and perhaps blanks around
it. -/
inductive IsPair (D : Digits) : List Char → List Char × List Char → Prop
  | mk {xs ys w w' : List Char} (hx : D.IsInt xs) (hw : ∀ c ∈ w, isBlank c = true)
      (hw' : ∀ c ∈ w', isBlank c = true) (hy : D.IsInt ys) :
      IsPair D (xs ++ (w ++ ',' :: (w' ++ ys))) (xs, ys)

/-- The whole text is one or more pairs with separators between them. -/
inductive ArePairs (D : Digits) : List Char → List (List Char × List Char) → Prop
  | one {cs : List Char} {m : List Char × List Char} (h : D.IsPair cs m) : ArePairs D cs [m]
  | more {cs s rest : List Char} {m : List Char × List Char} {ms : List (List Char × List Char)}
      (h : D.IsPair cs m) (hs : IsSeparator s) (hrest : ArePairs D rest ms) :
      ArePairs D (cs ++ (s ++ rest)) (m :: ms)

/-- An integer starts with a digit or a minus sign. -/
theorem IsInt.exists_cons (h : D.IsInt xs) :
    ∃ c ds, xs = c :: ds ∧ (D.isDigit c = true ∨ c = '-') := by
  cases h with
  | plain hne h =>
      obtain ⟨c, ds, rfl⟩ := List.exists_cons_of_ne_nil hne
      exact ⟨c, ds, rfl, .inl (h c List.mem_cons_self)⟩
  | @minus ds => exact ⟨'-', ds, rfl, .inr rfl⟩

/-- So it starts with no blank. -/
theorem IsInt.isBlank_head? (h : D.IsInt xs) (rest : List Char) :
    ∀ c ∈ (xs ++ rest).head?, isBlank c = false := by
  obtain ⟨c, ds, rfl, hc⟩ := h.exists_cons
  intro d hd
  obtain rfl := Option.some.inj hd
  rcases hc with hc | rfl
  · exact D.not_blank c hc
  · decide

/-- A pair starts as an integer does. -/
theorem IsPair.ne_nil (h : D.IsPair cs m) : cs ≠ [] := by
  obtain ⟨hx, -, -, -⟩ := h
  obtain ⟨c, ds, rfl, -⟩ := hx.exists_cons
  exact List.cons_ne_nil _ _

/-- No digit stands in a separator. -/
theorem not_isDigit_of_separator {c : Char} (h : isBlank c = true ∨ c = ',') :
    D.isDigit c = false := by
  rcases h with h | rfl
  · by_contra hc
    rw [D.not_blank c (by simpa using hc)] at h
    cases h
  · exact D.comma

/-- A number ends before a separator. -/
theorem not_isDigit_head? {s : List Char} (h : IsSeparator s) (rest : List Char) :
    ∀ c ∈ (s ++ rest).head?, D.isDigit c = false :=
  h.forall_head? rest fun _ => not_isDigit_of_separator

/-! ### The second pattern -/

/-- The ways to match an integer at the start of a text. -/
def intWays (D : Digits) (cs : List Char) : List (List Char × List Char) :=
  (signWays cs).flatMap fun (sign, rest) =>
    ((runWays D.isDigit rest).filter fun (ds, _) => !ds.isEmpty).map fun (ds, rest) =>
      (sign ++ ds, rest)

/-- The ways to match a pair at the start of a text. Its two integers are kept. -/
def pairWays (D : Digits) (cs : List Char) : List ((List Char × List Char) × List Char) :=
  (D.intWays cs).flatMap fun (xs, rest) =>
    (commaWays rest).flatMap fun rest =>
      (D.intWays rest).map fun (ys, rest) => ((xs, ys), rest)

/-- What is matched is an integer. -/
theorem intWays_sound (h : (xs, rest) ∈ D.intWays cs) : D.IsInt xs ∧ cs = xs ++ rest := by
  obtain ⟨⟨sign, after⟩, hsign, h⟩ := List.mem_flatMap.mp h
  obtain ⟨⟨ds, rest'⟩, hds, heq⟩ := List.mem_map.mp h
  obtain ⟨rfl, rfl⟩ := Prod.mk.inj heq
  obtain ⟨hmem, hne⟩ := List.mem_filter.mp hds
  obtain ⟨rfl, hdigits⟩ := runWays_sound hmem
  have hne : ds ≠ [] := by simpa using hne
  unfold signWays at hsign
  split at hsign
  · rcases List.mem_cons.mp hsign with heq | hsign
    · obtain ⟨rfl, rfl⟩ := Prod.mk.inj heq
      exact ⟨.minus hne hdigits, rfl⟩
    · obtain ⟨rfl, hafter⟩ := Prod.mk.inj (List.mem_singleton.mp hsign)
      exact ⟨.plain hne hdigits, hafter.symm⟩
  · obtain ⟨rfl, hafter⟩ := Prod.mk.inj (List.mem_singleton.mp hsign)
    exact ⟨.plain hne hdigits, hafter.symm⟩

/-- **What is matched is a pair.** -/
theorem pairWays_sound (h : (m, rest) ∈ D.pairWays cs) : ∃ ds, D.IsPair ds m ∧ cs = ds ++ rest := by
  obtain ⟨⟨xs, afterX⟩, hx, h⟩ := List.mem_flatMap.mp h
  obtain ⟨afterComma, hcomma, h⟩ := List.mem_flatMap.mp h
  obtain ⟨⟨ys, rest'⟩, hy, heq⟩ := List.mem_map.mp h
  obtain ⟨rfl, rfl⟩ := Prod.mk.inj heq
  obtain ⟨hintX, rfl⟩ := intWays_sound hx
  obtain ⟨w, w', hw, hw', rfl⟩ := commaWays_sound hcomma
  obtain ⟨hintY, rfl⟩ := intWays_sound hy
  exact ⟨_, .mk hintX hw hw' hintY, by simp⟩

/-- The rest is shorter. -/
theorem length_lt_of_pairWays (h : (D.pairWays cs).head? = some (m, rest)) :
    rest.length < cs.length := by
  obtain ⟨ds, hds, rfl⟩ := pairWays_sound (List.mem_of_head? h)
  have hpos := List.length_pos_iff.mpr hds.ne_nil
  rw [List.length_append]
  omega

/-- What is found with the second pattern, from left to right. A match begins where the search
meets it first, its first way is taken, and the search goes on behind it. -/
def search (D : Digits) (cs : List Char) : List (List Char × List Char) :=
  match _h : (D.pairWays cs).head? with
  | some (m, rest) => m :: D.search rest
  | none =>
    match cs with
    | [] => []
    | _ :: rest => D.search rest
termination_by cs.length
decreasing_by
  · exact length_lt_of_pairWays _h
  · simp

/-! ### The first way -/

/-- The first way takes all digits of an integer. -/
theorem IsInt.head?_intWays (h : D.IsInt xs) (hrest : ∀ c ∈ rest.head?, D.isDigit c = false) :
    (D.intWays (xs ++ rest)).head? = some (xs, rest) := by
  have hrun {sign ds : List Char} (hne : ds ≠ []) (hds : ∀ c ∈ ds, D.isDigit c = true) :
      (((runWays D.isDigit (ds ++ rest)).filter fun (ds, _) => !ds.isEmpty).map fun (ds, rest) =>
        (sign ++ ds, rest)).head? = some (sign ++ ds, rest) := by
    have hhead := head?_runWays D.isDigit (ds ++ rest)
    rw [takeWhile_append hds hrest, dropWhile_append hds hrest] at hhead
    obtain ⟨ways, hways⟩ := List.head?_eq_some_iff.mp hhead
    rw [hways, List.filter_cons_of_pos (by simpa using hne)]
    rfl
  cases h with
  | plain hne hds =>
      -- A digit is no sign, so that nothing else is tried before the digits are taken.
      have hsign : signWays (xs ++ rest) = [([], xs ++ rest)] := by
        refine signWays.eq_2 _ fun after hafter => ?_
        obtain ⟨c, ds, rfl⟩ := List.exists_cons_of_ne_nil hne
        obtain ⟨rfl, -⟩ := List.cons.inj hafter
        cases (hds _ List.mem_cons_self).symm.trans D.minus
      exact head?_flatMap_of_head? (by rw [hsign]; rfl) (hrun hne hds)
  | minus hne hds => exact head?_flatMap_of_head? rfl (hrun hne hds)

/-- It takes all digits of the second integer of a pair. -/
theorem IsPair.head?_pairWays (h : D.IsPair cs m) (hrest : ∀ c ∈ rest.head?, D.isDigit c = false) :
    (D.pairWays (cs ++ rest)).head? = some (m, rest) := by
  obtain @⟨xs, ys, w, w', hx, hw, hw', hy⟩ := h
  have hseam := not_isDigit_head? (D := D) (.comma hw hw') (ys ++ rest)
  rw [List.append_assoc, List.cons_append] at hseam
  have htext : xs ++ (w ++ ',' :: (w' ++ ys)) ++ rest =
      xs ++ (w ++ ',' :: (w' ++ (ys ++ rest))) := by simp
  rw [htext]
  refine head?_flatMap_of_head? (hx.head?_intWays hseam) ?_
  refine head?_flatMap_of_head? (head?_commaWays hw hw' (hy.isBlank_head? rest)) ?_
  rw [List.head?_map, hy.head?_intWays hrest]
  rfl

/-- No way starts with a separator. -/
theorem pairWays_of_separator {c : Char} (hc : isBlank c = true ∨ c = ',') (rest : List Char) :
    D.pairWays (c :: rest) = [] := by
  refine List.eq_nil_iff_forall_not_mem.mpr fun ⟨m, after⟩ h => ?_
  obtain ⟨ds, ⟨hx, -, -, -⟩, htext⟩ := pairWays_sound h
  obtain ⟨d, ds, rfl, hd⟩ := hx.exists_cons
  obtain ⟨rfl, -⟩ := List.cons.inj htext
  rcases hd with hd | rfl
  · cases hd.symm.trans (not_isDigit_of_separator hc)
  · exact absurd hc (by decide)

/-! ### The search -/

/-- The search takes a match where it meets one. -/
theorem search_of_some (h : (D.pairWays cs).head? = some (m, rest)) :
    D.search cs = m :: D.search rest := by
  rw [search]
  split
  · next hsome =>
      cases h.symm.trans hsome
      rfl
  · next hnone => cases h.symm.trans hnone

/-- It goes on where there is none. -/
theorem search_of_nil {c : Char} (h : D.pairWays (c :: rest) = []) :
    D.search (c :: rest) = D.search rest := by
  rw [search]
  split
  · next hsome =>
      rw [h] at hsome
      cases hsome
  · rfl

/-- It passes over separators. -/
theorem search_append {s : List Char} (hs : ∀ c ∈ s, isBlank c = true ∨ c = ',')
    (rest : List Char) : D.search (s ++ rest) = D.search rest := by
  induction s with
  | nil => rfl
  | cons c s ih =>
      obtain ⟨hc, hs⟩ := List.forall_mem_cons.mp hs
      rw [List.cons_append, search_of_nil (pairWays_of_separator hc _), ih hs]

/-- **The search finds the pairs that the first pattern has seen.** -/
theorem ArePairs.search_eq (h : D.ArePairs cs ms) : D.search cs = ms := by
  -- Each pair is met where the search stands, since the separator before it has been passed over.
  induction h with
  | @one cs m h =>
      have hnone : ∀ c ∈ ([] : List Char).head?, D.isDigit c = false := nofun
      have hfirst := h.head?_pairWays hnone
      rw [List.append_nil] at hfirst
      have hend : D.search [] = [] := by rw [search]; rfl
      rw [search_of_some hfirst, hend]
  | @more cs s rest m ms h hs hrest ih =>
      rw [search_of_some (h.head?_pairWays (not_isDigit_head? hs rest)),
        search_append hs.chars.2, ih]

end Digits

/-! ### Positions -/

/-- The integer that is read from what a pattern has found. -/
def integer? : List Char → Option Int
  | '-' :: cs => (readDigits? cs).map fun n : Nat => -(n : Int)
  | cs => (readDigits? cs).map fun n : Nat => (n : Int)

/-- The position of a pair that was found. -/
def located? (m : List Char × List Char) : Option Position := do
  let x ← integer? m.1
  let y ← integer? m.2
  position? (x, y)

/-- What is read is what is spelled. -/
theorem integer?_eq_some_iff {cs : List Char} {x : Int} : integer? cs = some x ↔ SpellsInt cs x := by
  constructor
  · intro h
    unfold integer? at h
    split at h
    · obtain ⟨n, hn, rfl⟩ := Option.map_eq_some_iff.mp h
      exact .minus (readDigits?_eq_some_iff.mp hn)
    · obtain ⟨n, hn, rfl⟩ := Option.map_eq_some_iff.mp h
      exact .plain (readDigits?_eq_some_iff.mp hn)
  · intro h
    cases h with
    | plain h =>
        rw [integer?.eq_2, readDigits?_eq_some_iff.mpr h]
        · rfl
        · rintro ds rfl
          cases h.digits _ List.mem_cons_self
    | minus h =>
        rw [integer?, readDigits?_eq_some_iff.mpr h]
        rfl

/-- A pair that was found stands for a position if its integers do. -/
theorem located?_eq_some_iff {m : List Char × List Char} {q : Position} :
    located? m = some q ↔
      ∃ x y, SpellsInt m.1 x ∧ SpellsInt m.2 y ∧ position? (x, y) = some q := by
  simp only [located?, Option.bind_eq_bind, Option.bind_eq_some_iff, integer?_eq_some_iff,
    exists_and_left]

/-- An integer that is spelled matches. -/
theorem SpellsInt.isInt {cs : List Char} {x : Int} (h : SpellsInt cs x) (D : Digits) :
    D.IsInt cs := by
  cases h with
  | plain h => exact .plain h.ne_nil fun c hc => D.of_ascii c (h.digits c hc)
  | minus h => exact .minus h.ne_nil fun c hc => D.of_ascii c (h.digits c hc)

/-- A pair that matches spells a pair, if a position is read from it. -/
theorem Digits.IsPair.exists_spellsPair {D : Digits} {cs : List Char} {m : List Char × List Char}
    (h : D.IsPair cs m) {q : Position} (hq : located? m = some q) :
    ∃ p, SpellsPair cs p ∧ position? p = some q := by
  obtain ⟨-, hw, hw', -⟩ := h
  obtain ⟨x, y, hx, hy, hq⟩ := located?_eq_some_iff.mp hq
  exact ⟨(x, y), .mk hx hw hw' hy, hq⟩

/-- A pair that is spelled matches, and it is read as the same position. -/
theorem SpellsPair.exists_isPair {cs : List Char} {p : Int × Int} (h : SpellsPair cs p)
    (D : Digits) : ∃ m, D.IsPair cs m ∧ located? m = position? p := by
  obtain ⟨hx, hw, hw', hy⟩ := h
  refine ⟨_, .mk (hx.isInt D) hw hw' (hy.isInt D), ?_⟩
  rw [located?, integer?_eq_some_iff.mpr hx, integer?_eq_some_iff.mpr hy]
  rfl

/-- So it is with lists: pairs that match spell pairs, if positions are read from all of them. -/
theorem Digits.ArePairs.exists_spellsPairs {D : Digits} {cs : List Char}
    {ms : List (List Char × List Char)} (h : D.ArePairs cs ms) {ps : List Position}
    (hps : ms.mapM located? = some ps) :
    ∃ pairs, SpellsPairs cs pairs ∧ pairs.mapM position? = some ps := by
  induction h generalizing ps with
  | one h =>
      rw [List.mapM_cons] at hps
      obtain ⟨q, hq, hps⟩ := Option.bind_eq_some_iff.mp hps
      obtain ⟨p, hp, hq⟩ := h.exists_spellsPair hq
      exact ⟨[p], .one hp, by rw [List.mapM_cons, hq]; exact hps⟩
  | more h hs _ ih =>
      rw [List.mapM_cons] at hps
      obtain ⟨q, hq, hps⟩ := Option.bind_eq_some_iff.mp hps
      obtain ⟨qs, hqs, hps⟩ := Option.bind_eq_some_iff.mp hps
      obtain ⟨p, hp, hq⟩ := h.exists_spellsPair hq
      obtain ⟨pairs, hpairs, hqs⟩ := ih hqs
      exact ⟨p :: pairs, .more hp hs hpairs, by rw [List.mapM_cons, hq, hqs]; exact hps⟩

/-- Pairs that are spelled match, and they are read as the same positions. -/
theorem SpellsPairs.exists_arePairs {cs : List Char} {pairs : List (Int × Int)}
    (h : SpellsPairs cs pairs) (D : Digits) :
    ∃ ms, D.ArePairs cs ms ∧ ms.mapM located? = pairs.mapM position? := by
  induction h with
  | one h =>
      obtain ⟨m, hm, hq⟩ := h.exists_isPair D
      exact ⟨[m], .one hm, by rw [List.mapM_cons, List.mapM_cons, hq, List.mapM_nil, List.mapM_nil]⟩
  | more h hs _ ih =>
      obtain ⟨m, hm, hq⟩ := h.exists_isPair D
      obtain ⟨ms, hms, hqs⟩ := ih
      exact ⟨m :: ms, .more hm hs hms, by rw [List.mapM_cons, List.mapM_cons, hq, hqs]⟩

/-- **Patterns read what the reader of coordinates reads**, whatever they take for digits. -/
theorem Digits.readPositions?_iff_search (D : Digits) {cs : List Char} {ps : List Position} :
    readPositions? cs = some ps ↔
      (∃ ms, D.ArePairs cs ms) ∧ (D.search cs).mapM located? = some ps := by
  rw [readPositions?, Option.ite_none_right_eq_some, isPairList_iff]
  constructor
  · rintro ⟨⟨pairs, hpairs⟩, hps⟩
    rw [hpairs.findPairs_eq] at hps
    obtain ⟨ms, hms, hsame⟩ := hpairs.exists_arePairs D
    rw [hms.search_eq, hsame]
    exact ⟨⟨ms, hms⟩, hps⟩
  · rintro ⟨⟨ms, hms⟩, hps⟩
    rw [hms.search_eq] at hps
    obtain ⟨pairs, hpairs, hps⟩ := hms.exists_spellsPairs hps
    rw [hpairs.findPairs_eq]
    exact ⟨⟨pairs, hpairs⟩, hps⟩

/-- **Checking and searching agree.** The positions that are read are those that a list of pairs
spells, and the pairs that are found are those of the list. So it is with patterns: what is
searched for finds what the whole text was checked for, and positions are read from it in the same
cases. -/
theorem Digits.checked_and_searched (D : Digits) (cs : List Char) :
    (∀ ps, readPositions? cs = some ps ↔ SpellsPositions cs ps) ∧
    (∀ pairs, SpellsPairs cs pairs → isPairList cs = true ∧ findPairs cs = pairs) ∧
    (∀ ms, D.ArePairs cs ms → D.search cs = ms) ∧
    ∀ ps, readPositions? cs = some ps ↔
      (∃ ms, D.ArePairs cs ms) ∧ (D.search cs).mapM located? = some ps :=
  ⟨fun _ => readPositions?_eq_some_iff,
    fun pairs h => ⟨isPairList_iff.mpr ⟨pairs, h⟩, h.findPairs_eq⟩, fun _ h => h.search_eq,
    fun _ => D.readPositions?_iff_search⟩

/-- Two pairs in a text that shows commas only, for patterns that know the Arabic digits too. -/
theorem checked_and_searched_flat :
    let D := Digits.along fun c => 0x660 ≤ c.toNat && c.toNat ≤ 0x669
    let cs := ['1', ',', '1', ',', '3', ',', '3']
    SpellsPairs cs [(1, 1), (3, 3)] ∧ isPairList cs = true ∧ findPairs cs = [(1, 1), (3, 3)] ∧
      D.search cs = [(['1'], ['1']), (['3'], ['3'])] ∧
      readPositions? cs = some [⟨0, 0⟩, ⟨2, 2⟩] := by
  intro D cs
  have hnone : ∀ c ∈ ([] : List Char), isBlank c = true := nofun
  have hone : SpellsInt ['1'] 1 :=
    .plain ⟨List.cons_ne_nil _ _, List.forall_mem_singleton.mpr rfl, rfl⟩
  have hthree : SpellsInt ['3'] 3 :=
    .plain ⟨List.cons_ne_nil _ _, List.forall_mem_singleton.mpr rfl, rfl⟩
  have hpairs : SpellsPairs cs [(1, 1), (3, 3)] :=
    .more (.mk hone hnone hnone hone) (.comma hnone hnone) (.one (.mk hthree hnone hnone hthree))
  have hmatch : D.ArePairs cs [(['1'], ['1']), (['3'], ['3'])] :=
    .more (.mk (hone.isInt D) hnone hnone (hone.isInt D)) (.comma hnone hnone)
      (.one (.mk (hthree.isInt D) hnone hnone (hthree.isInt D)))
  obtain ⟨hread, hfound, hsearch, -⟩ := D.checked_and_searched cs
  refine ⟨hpairs, (hfound _ hpairs).1, (hfound _ hpairs).2, hsearch _ hmatch, ?_⟩
  exact (hread _).mpr (.mk hpairs (by unfold Fits; decide))

/-- Digits of another script match, but no number is read from them. -/
example :
    let D := Digits.along fun c => 0x660 ≤ c.toNat && c.toNat ≤ 0x669
    let cs := [Char.ofNat 0x661, ',', '2']
    D.ArePairs cs [([Char.ofNat 0x661], ['2'])] ∧ readPositions? cs = none := by
  intro D cs
  have hnone : ∀ c ∈ ([] : List Char), isBlank c = true := nofun
  have hint (c : Char) (h : D.isDigit c = true) : D.IsInt [c] :=
    .plain (List.cons_ne_nil c []) (List.forall_mem_singleton.mpr h)
  exact ⟨.one (.mk (hint _ (by decide)) hnone hnone (hint _ (by decide))), by decide +kernel⟩

end Ladybug.Flowchart
