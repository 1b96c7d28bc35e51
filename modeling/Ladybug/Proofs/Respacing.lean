import Ladybug.Proofs.Tokens

/-!
# Blanks inside nodes

What declares a node is a text, but the blanks in it may be others than the ones that were typed,
since the text may have been split into words and joined again. This makes no difference: a text
declares a node by what its words are, whatever blanks stand between them.

Every part of the grammar has this property, because blanks matter to it in one way only, as
blanks or no blanks. Where it asks for some, any number of any kind will do, and where it allows
them they may be missing, but then they are missing in both texts. To say so, two texts are called
*respaced* if they differ in nothing but the runs of blanks that they have at the same places. If
one of them is split at a place that is not inside such a run, so is the other one, and a rule of
the grammar that applies to the parts of one of them applies to the parts of the other.

## Main definitions

* `Text.Respaced` — texts that differ in nothing but runs of blanks.

## Main results

* `Text.Respaced.exists_split` — respaced texts are split alike.
* `Text.respaced_trim` — texts with the same words are respaced.
* `NodeSpec.DeclaredBy.of_words` — a node is declared by words.
-/

namespace Ladybug

/-! ### Runs of blanks -/

namespace Text

/-- One or more blanks. -/
structure IsGap (w : List Char) : Prop where
  ne_nil : w ≠ []
  blank : ∀ c ∈ w, isBlank c = true

/-- The texts are the same up to the numbers and the kinds of the blanks in each gap. -/
inductive Respaced : List Char → List Char → Prop
  | nil : Respaced [] []
  | char {c : Char} {cs ds : List Char} (hc : isBlank c = false) (h : Respaced cs ds) :
      Respaced (c :: cs) (c :: ds)
  | gap {w w' cs ds : List Char} (hw : IsGap w) (hw' : IsGap w') (h : Respaced cs ds) :
      Respaced (w ++ cs) (w' ++ ds)

namespace Respaced

variable {a b cs ds t : List Char}

/-- A text without blanks cannot be respaced. -/
theorem eq_of_not_blank (h : Respaced cs ds) (hcs : ∀ c ∈ cs, isBlank c = false) : ds = cs := by
  induction h with
  | nil => rfl
  | char hc h ih => rw [ih (List.forall_mem_cons.mp hcs).2]
  | @gap w w' cs ds hw hw' h ih =>
      obtain ⟨c, w, rfl⟩ := List.exists_cons_of_ne_nil hw.ne_nil
      have hc := hcs c List.mem_cons_self
      rw [hw.blank c List.mem_cons_self] at hc
      cases hc

/-- A word may stand in front. -/
theorem word_append {w : List Char} (hw : ∀ c ∈ w, isBlank c = false) (h : Respaced cs ds) :
    Respaced (w ++ cs) (w ++ ds) := by
  induction w with
  | nil => exact h
  | cons c w ih =>
      obtain ⟨hc, hw⟩ := List.forall_mem_cons.mp hw
      exact .char hc (ih hw)

/-- The same characters that are not blank stand in both texts. -/
theorem mem_of_not_blank (h : Respaced cs ds) {c : Char} (hc : isBlank c = false) (hmem : c ∈ ds) :
    c ∈ cs := by
  induction h with
  | nil => exact hmem
  | char _ _ ih => exact List.mem_cons.mpr ((List.mem_cons.mp hmem).imp_right ih)
  | gap _ hw' _ ih =>
      rcases List.mem_append.mp hmem with hmem | hmem
      · rw [hw'.blank c hmem] at hc
        cases hc
      · exact List.mem_append_right _ (ih hmem)

/-- Blanks are respaced to blanks. -/
theorem blank (h : Respaced cs ds) (hcs : ∀ c ∈ cs, isBlank c = true) :
    ∀ c ∈ ds, isBlank c = true := by
  intro c hc
  by_contra hblank
  rw [Bool.not_eq_true] at hblank
  have hmem := hcs c (h.mem_of_not_blank hblank hc)
  rw [hblank] at hmem
  cases hmem

/-- Something is respaced to something. -/
theorem ne_nil (h : Respaced cs ds) (hne : cs ≠ []) : ds ≠ [] := by
  cases h with
  | nil => exact hne
  | char _ _ => exact List.cons_ne_nil _ _
  | gap _ hw' _ => exact List.append_ne_nil_of_left_ne_nil hw'.ne_nil _

/-- A gap may be respaced to any other one. -/
theorem of_gaps {w w' : List Char} (hw : IsGap w) (hw' : IsGap w') : Respaced w w' := by
  rw [← List.append_nil w, ← List.append_nil w']
  exact .gap hw hw' .nil

/-- Texts may stand one behind the other. -/
theorem append {a' b' : List Char} (h : Respaced a a') (h' : Respaced b b') :
    Respaced (a ++ b) (a' ++ b') := by
  induction h with
  | nil => exact h'
  | char hc _ ih => exact .char hc ih
  | gap hw hw' _ ih =>
      rw [List.append_assoc, List.append_assoc]
      exact .gap hw hw' ih

/-- Texts are respaced backwards as well. -/
theorem reverse (h : Respaced cs ds) : Respaced cs.reverse ds.reverse := by
  have hgap {w : List Char} (hw : IsGap w) : IsGap w.reverse :=
    ⟨List.reverse_ne_nil_iff.mpr hw.ne_nil, fun c hc => hw.blank c (List.mem_reverse.mp hc)⟩
  induction h with
  | nil => exact .nil
  | char hc _ ih =>
      rw [List.reverse_cons, List.reverse_cons]
      exact ih.append (.char hc .nil)
  | @gap w w' cs ds hw hw' _ ih =>
      rw [List.reverse_append, List.reverse_append]
      exact ih.append (of_gaps (hgap hw) (hgap hw'))

/-- Trimming cuts off the same gap. -/
theorem trimLeft (h : Respaced cs ds) : Respaced (trimLeft cs) (trimLeft ds) := by
  induction h with
  | nil => exact .nil
  | @char c cs ds hc h _ =>
      have hself (l : List Char) : Text.trimLeft (c :: l) = c :: l :=
        trimLeft_eq_self fun d hd => Option.some.inj hd ▸ hc
      rw [hself, hself]
      exact .char hc h
  | gap hw hw' _ ih =>
      rw [Text.trimLeft, Text.trimLeft, List.dropWhile_append_of_pos hw.blank,
        List.dropWhile_append_of_pos hw'.blank]
      exact ih

/-- Trimming cuts off the same gaps at both ends. -/
theorem trim (h : Respaced cs ds) : Respaced (trim cs) (trim ds) :=
  h.trimLeft.reverse.trimLeft.reverse

/-- **Respaced texts are split alike**, unless the split is inside a gap. -/
theorem exists_split (h : Respaced (a ++ b) t)
    (hseam : (∀ c ∈ a.getLast?, isBlank c = false) ∨ ∀ c ∈ b.head?, isBlank c = false) :
    ∃ a' b', t = a' ++ b' ∧ Respaced a a' ∧ Respaced b b' := by
  generalize hab : a ++ b = text at h
  induction h generalizing a with
  | nil =>
      obtain ⟨rfl, rfl⟩ := List.append_eq_nil_iff.mp hab
      exact ⟨[], [], rfl, .nil, .nil⟩
  | @char c cs ds hc h ih =>
      cases a with
      | nil =>
          rw [List.nil_append] at hab
          exact ⟨[], c :: ds, rfl, .nil, hab ▸ .char hc h⟩
      | cons x a =>
          obtain ⟨rfl, rfl⟩ := List.cons.inj hab
          have hseam' := hseam.imp_left fun hlast d (hd : a.getLast? = some d) =>
            hlast d (by rw [List.getLast?_cons, hd]; rfl)
          obtain ⟨a', b', rfl, ha, hb⟩ := ih hseam' rfl
          exact ⟨x :: a', b', rfl, .char hc ha, hb⟩
  | @gap w w' cs ds hw hw' h ih =>
      rcases List.append_eq_append_iff.mp hab with ⟨m, rfl, rfl⟩ | ⟨m, rfl, rfl⟩
      · -- The split is not inside the gap, so it is before the gap or right behind it.
        rcases hseam with hlast | hhead
        · obtain rfl : a = [] := by
            by_contra hne
            have hc := hlast _ (List.getLast?_eq_some_getLast hne)
            rw [hw.blank _ (List.mem_append_left m (List.getLast_mem hne))] at hc
            cases hc
          exact ⟨[], w' ++ ds, rfl, .nil, .gap hw hw' h⟩
        · obtain rfl : m = [] := by
            by_contra hne
            obtain ⟨c, m, rfl⟩ := List.exists_cons_of_ne_nil hne
            have hc := hhead c rfl
            rw [hw.blank c (List.mem_append_right a List.mem_cons_self)] at hc
            cases hc
          rw [List.append_nil] at hw
          exact ⟨w', ds, rfl, .of_gaps hw hw', h⟩
      · have hseam' := hseam.imp_left fun hlast d (hd : m.getLast? = some d) =>
          hlast d (by rw [List.getLast?_append, hd]; rfl)
        obtain ⟨a', b', rfl, ha, hb⟩ := ih hseam' rfl
        exact ⟨w' ++ a', b', (List.append_assoc _ _ _).symm, .gap hw hw' ha, hb⟩

/-- What stands behind a word is respaced, and the word stays the same. -/
theorem exists_behind_word (h : Respaced (a ++ b) t) (ha : ∀ c ∈ a, isBlank c = false) :
    ∃ b', t = a ++ b' ∧ Respaced b b' := by
  obtain ⟨a', b', rfl, hword, hrest⟩ :=
    h.exists_split (.inl fun c hc => ha c (List.mem_of_mem_getLast? hc))
  rw [hword.eq_of_not_blank ha]
  exact ⟨b', rfl, hrest⟩

/-- So is what stands before a word. -/
theorem exists_before_word (h : Respaced (a ++ b) t) (hb : ∀ c ∈ b, isBlank c = false) :
    ∃ a', t = a' ++ b ∧ Respaced a a' := by
  obtain ⟨a', b', rfl, hrest, hword⟩ :=
    h.exists_split (.inr fun c hc => hb c (List.mem_of_mem_head? hc))
  rw [hword.eq_of_not_blank hb]
  exact ⟨a', rfl, hrest⟩

/-- So is what stands on both sides of a comma. -/
theorem exists_around_comma (h : Respaced (a ++ ',' :: b) t) :
    ∃ a' b', t = a' ++ ',' :: b' ∧ Respaced a a' ∧ Respaced b b' := by
  have hcomma : ∀ c ∈ (',' :: b).head?, isBlank c = false := by
    rintro c ⟨⟩
    decide
  obtain ⟨a', rest, rfl, hbefore, hrest⟩ := h.exists_split (.inr hcomma)
  rw [← List.singleton_append] at hrest
  obtain ⟨b', rfl, hbehind⟩ := hrest.exists_behind_word (not_blank_of_all rfl)
  exact ⟨a', b', rfl, hbefore, hbehind⟩

end Respaced

/-! ### Words -/

variable {cs ds : List Char}

/-- There are blanks before the first word exactly if the text starts with one. -/
theorem isGap_or_eq_nil {blanks w rest : List Char} {starts : Bool}
    (hblanks : ∀ c ∈ blanks, isBlank c = true) (hne : w ≠ []) (hw : ∀ c ∈ w, isBlank c = false)
    (hfirst : ∀ c ∈ (blanks ++ (w ++ rest)).head?, isBlank c = starts) :
    IsGap blanks ∧ starts = true ∨ blanks = [] ∧ starts = false := by
  cases blanks with
  | nil =>
      obtain ⟨c, w, rfl⟩ := List.exists_cons_of_ne_nil hne
      exact .inr ⟨rfl, (hfirst c rfl).symm.trans (hw c List.mem_cons_self)⟩
  | cons c blanks =>
      have hc := hblanks c List.mem_cons_self
      exact .inl ⟨⟨List.cons_ne_nil c blanks, hblanks⟩, (hfirst c rfl).symm.trans hc⟩

/-- Texts with the same words are respaced if both start with a blank, or neither of them does,
and neither of them ends with one. -/
theorem respaced_of_words {starts : Bool} (h : words cs = words ds)
    (hfirst : ∀ c ∈ cs.head?, isBlank c = starts) (hfirst' : ∀ c ∈ ds.head?, isBlank c = starts)
    (hlast : ∀ c ∈ cs.getLast?, isBlank c = false)
    (hlast' : ∀ c ∈ ds.getLast?, isBlank c = false) : Respaced cs ds := by
  induction hwords : words cs generalizing cs ds starts with
  | nil =>
      rw [eq_nil_of_words hwords hlast, eq_nil_of_words (h.symm.trans hwords) hlast']
      exact .nil
  | cons w ws ih =>
      obtain ⟨blanks, rest, rfl, hblanks, hne, hw, hrest, hws⟩ := exists_word_of_words hwords
      obtain ⟨blanks', rest', rfl, hblanks', -, -, hrest', hws'⟩ :=
        exists_word_of_words (h.symm.trans hwords)
      have hbehind {before rest : List Char}
          (hend : ∀ c ∈ (before ++ (w ++ rest)).getLast?, isBlank c = false) :
          ∀ c ∈ rest.getLast?, isBlank c = false := fun c (hc : rest.getLast? = some c) =>
        hend c (by rw [List.getLast?_append, List.getLast?_append, hc]; rfl)
      have hrests : Respaced rest rest' :=
        ih (hws.trans hws'.symm) hrest hrest' (hbehind hlast) (hbehind hlast') hws
      have hword := hrests.word_append hw
      rcases isGap_or_eq_nil hblanks hne hw hfirst with ⟨hgap, rfl⟩ | ⟨rfl, rfl⟩
      · rcases isGap_or_eq_nil hblanks' hne hw hfirst' with ⟨hgap', -⟩ | ⟨-, hno⟩
        · exact .gap hgap hgap' hword
        · cases hno
      · rcases isGap_or_eq_nil hblanks' hne hw hfirst' with ⟨-, hno⟩ | ⟨rfl, -⟩
        · cases hno
        · exact hword

/-- **Texts with the same words are respaced** when they are trimmed. -/
theorem respaced_trim (h : words cs = words ds) : Respaced (trim cs) (trim ds) := by
  have hwords : words (trim cs) = words (trim ds) := by rw [words_trim, words_trim, h]
  exact respaced_of_words hwords (isBlank_head?_trim cs) (isBlank_head?_trim ds)
    (isBlank_getLast?_trim cs) (isBlank_getLast?_trim ds)

end Text

/-! ### Parts of brackets -/

namespace Flowchart

open Text

variable {cs ds : List Char}

/-- A pair has the same integers when it is respaced. -/
theorem SpellsPair.respaced {p : Int × Int} (h : SpellsPair cs p) (hs : Respaced cs ds) :
    SpellsPair ds p := by
  obtain ⟨hx, hw, hw', hy⟩ := h
  obtain ⟨t, rfl, hrest⟩ := hs.exists_behind_word hx.not_blank
  obtain ⟨v, t, rfl, hv, hbehind⟩ := hrest.exists_around_comma
  obtain ⟨v', rfl, hv'⟩ := hbehind.exists_before_word hy.not_blank
  exact .mk hx (hv.blank hw) (hv'.blank hw') hy

/-- A separator is respaced to one. -/
theorem IsSeparator.respaced (h : IsSeparator cs) (hs : Respaced cs ds) : IsSeparator ds := by
  cases h with
  | comma hw hw' =>
      obtain ⟨v, v', rfl, hv, hv'⟩ := hs.exists_around_comma
      exact .comma (hv.blank hw) (hv'.blank hw')
  | blanks hne hw => exact .blanks (hs.ne_nil hne) (hs.blank hw)

/-- A list of pairs has the same pairs when it is respaced. -/
theorem SpellsPairs.respaced {ps : List (Int × Int)} (h : SpellsPairs cs ps)
    (hs : Respaced cs ds) : SpellsPairs ds ps := by
  induction h generalizing ds with
  | one h => exact .one (h.respaced hs)
  | more h hsep hrest ih =>
      obtain ⟨t, t', rfl, hpair, hbehind⟩ := hs.exists_split (.inl h.isBlank_getLast?)
      obtain ⟨v, v', rfl, hv, hv'⟩ := hbehind.exists_split (.inr hrest.isBlank_head?)
      exact .more (h.respaced hpair) (hsep.respaced hv) (ih hv')

/-- So has a list of positions. -/
theorem SpellsPositions.respaced {ps : List Position} (h : SpellsPositions cs ps)
    (hs : Respaced cs ds) : SpellsPositions ds ps := by
  obtain ⟨hpairs, hfits⟩ := h
  exact .mk (hpairs.respaced hs) hfits

/-- Behind the same keyword stand the same positions. -/
theorem Follows.respaced {keyword text : List Char} {ps : List Position}
    (h : Follows keyword cs text) (hkeyword : ∀ c ∈ keyword, isBlank c = false)
    (hps : SpellsPositions cs ps) (hs : Respaced text ds) :
    ∃ rest, SpellsPositions rest ps ∧ Follows keyword rest ds := by
  obtain ⟨w, hne, hw, rfl⟩ := h
  obtain ⟨t, rfl, hbehind⟩ := hs.exists_behind_word hkeyword
  obtain ⟨v, rest, rfl, hv, hrest⟩ := hbehind.exists_split (.inr hps.isBlank_head?)
  exact ⟨rest, hps.respaced hrest, v, hv.ne_nil hne, hv.blank hw, rfl⟩

/-- The same action is named. -/
theorem SaysAction.respaced {action : Action} (h : SaysAction cs action) (hs : Respaced cs ds) :
    SaysAction ds action := by
  have hword := (isWord_of_action action).isBlank
  cases h with
  | plain hmem htext => exact .plain hmem ((hs.eq_of_not_blank (htext ▸ hword)).trans htext)
  | fly hgoal htext =>
      obtain ⟨rest, hrest, hfollows⟩ := htext.respaced hword hgoal hs
      exact .fly hrest hfollows

/-- The same condition is named. -/
theorem SaysCondition.respaced {condition : Condition} (h : SaysCondition cs condition)
    (hs : Respaced cs ds) : SaysCondition ds condition := by
  have hword := (isWord_of_condition condition).isBlank
  cases h with
  | plain hmem htext => exact .plain hmem ((hs.eq_of_not_blank (htext ▸ hword)).trans htext)
  | pathTo hgoal htext =>
      obtain ⟨rest, hrest, hfollows⟩ := htext.respaced hword hgoal hs
      exact .pathTo hrest hfollows
  | pathBetween hgoals htext =>
      obtain ⟨rest, hrest, hfollows⟩ := htext.respaced hword hgoals hs
      exact .pathBetween hrest hfollows

/-- A bracket says the same. -/
theorem Says.respaced {round : Bool} {kind : NodeKind} (h : Says round cs kind)
    (hs : Respaced cs ds) : Says round ds kind := by
  have hsame (hcs : ∀ c ∈ cs, isBlank c = false) : ds = cs := hs.eq_of_not_blank hcs
  cases h with
  | fallback htext => exact .fallback ((hsame (htext ▸ not_blank_of_all rfl)).trans htext)
  | sequence htext => exact .sequence ((hsame (htext ▸ not_blank_of_all rfl)).trans htext)
  | parallel hn htext =>
      have hcs : ∀ c ∈ cs, isBlank c = false := htext ▸ List.forall_mem_cons.mpr
        ⟨by decide, List.forall_mem_append.mpr ⟨hn.spells.not_blank, not_blank_of_all rfl⟩⟩
      exact .parallel hn ((hsame hcs).trans htext)
  | condition hround h => exact .condition hround (h.respaced hs)
  | action hround h => exact .action hround (h.respaced hs)

/-! ### Nodes -/

/-- A bracket stands between words that open and close it. -/
theorem Bracket.exists_text_eq (round : Bool) :
    ∃ opening closing : List Char, (∀ c ∈ opening, isBlank c = false) ∧
      (∀ c ∈ closing, isBlank c = false) ∧
      ∀ inner, (Bracket.mk round inner).text = opening ++ (inner ++ closing) := by
  cases round with
  | true =>
      exact ⟨['(', '['], [']', ')'], not_blank_of_all rfl, not_blank_of_all rfl, fun _ => rfl⟩
  | false => exact ⟨['['], [']'], not_blank_of_all rfl, not_blank_of_all rfl, fun _ => rfl⟩

/-- A bracket is respaced by what it holds. -/
theorem Bracket.exists_of_respaced {b : Bracket} {t : List Char} (h : Respaced b.text t) :
    ∃ inner, t = (Bracket.mk b.round inner).text ∧ Respaced b.inner inner := by
  obtain ⟨opening, closing, hopening, hclosing, htext⟩ := exists_text_eq b.round
  rw [htext b.inner] at h
  obtain ⟨rest, rfl, hrest⟩ := h.exists_behind_word hopening
  obtain ⟨inner, rfl, hinner⟩ := hrest.exists_before_word hclosing
  exact ⟨inner, (htext inner).symm, hinner⟩

/-- A proper bracket is respaced to one. -/
theorem Bracket.Proper.respaced {b : Bracket} (h : b.Proper) {inner : List Char}
    (hs : Respaced b.inner inner) : (Bracket.mk b.round inner).Proper where
  ne_nil := hs.ne_nil h.ne_nil
  open_inside := fun hmem => h.open_inside (hs.mem_of_not_blank (by decide) hmem)

end Flowchart

open Text Flowchart

/-- **A node is declared by words**: any other text with the same words declares it as well. -/
theorem NodeSpec.DeclaredBy.of_words {spec : NodeSpec} {cs ds : List Char}
    (h : spec.DeclaredBy cs) (hwords : words cs = words ds) : spec.DeclaredBy ds := by
  obtain ⟨b, hid, hb, htext, hsays⟩ := h
  have hs := respaced_trim hwords
  rw [htext] at hs
  obtain ⟨t, ht, hbracket⟩ :=
    hs.exists_behind_word fun c hc => isBlank_of_isIdChar (hid.chars c hc)
  obtain ⟨inner, rfl, hinner⟩ := Bracket.exists_of_respaced hbracket
  exact ⟨⟨b.round, inner⟩, hid, hb.respaced hinner, ht, hsays.respaced hinner.trim⟩

end Ladybug
