import Ladybug.Flowchart.Printer
import Ladybug.Proofs.Brackets
import Ladybug.Proofs.Reading

/-!
# Lines of a flowchart are read back

A written line is an indentation, the token of the parent, an arrow between spaces, and the
declared child. An id may contain arrows and closing brackets, but no blank and no opening
bracket, so the run of id characters at the start of the line is the whole id of the parent.
The arrow behind it is tried before any arrow in the run, and so the line is read as it was
meant. Only a node that stands alone on its line has no arrow behind its id. There an arrow
in the run would count, and whether one does depends on the id alone.

## Main definitions

* `IsId` — the ids that flowcharts can name.
* `Bracket.Proper` — the brackets that can stand in a line.
* `StandsAlone` — the ids that are not read as an edge.
* `IsBody` — the lines that can stand below a header.

## Main results

* `Token.read?_text` and `Edge.read?_written` — written tokens and edges are read back.
* `Edge.read?_eq_none_of_standsAlone` — so is a node on a line of its own.
* `Token.read?_eq_some` and `Edge.isId_of_read?` — what is read are ids.
* `Edge.read?_linkLine` and `isBody_linkLine` — what this says of the lines of a tree.
-/

namespace Ladybug.Flowchart

open Text

/-! ### Ids and brackets -/

/-- The characters are the name of a node. -/
structure IsId (cs : List Char) : Prop where
  ne_nil : cs ≠ []
  chars : ∀ c ∈ cs, isIdChar c = true

/-- The bracket holds something, and it does not end before its end. -/
structure Bracket.Proper (b : Bracket) : Prop where
  ne_nil : b.inner ≠ []
  open_inside : ']' ∉ b.inner

theorem Bracket.proper_ofKind (kind : NodeKind) : (Bracket.ofKind kind).Proper :=
  ⟨(inner_ofKind kind).1, fun hmem => ((inner_ofKind kind).2 _ hmem).1 rfl⟩

/-- No character of an id is blank. -/
theorem isBlank_of_isIdChar {c : Char} (h : isIdChar c = true) : isBlank c = false := by
  rw [isIdChar, Bool.and_eq_true, Bool.and_eq_true, Bool.not_eq_true'] at h
  exact h.1.1

theorem IsId.isBlank_head? {cs : List Char} (h : IsId cs) (rest : List Char) :
    ∀ c ∈ (cs ++ rest).head?, isBlank c = false := by
  intro c hc
  obtain ⟨d, ds, rfl⟩ := List.exists_cons_of_ne_nil h.ne_nil
  obtain rfl := Option.some.inj hc
  exact isBlank_of_isIdChar (h.chars _ List.mem_cons_self)

/-- A bracket starts with a character that is not part of an id. -/
theorem Bracket.exists_cons_text (b : Bracket) :
    ∃ c cs, b.text = c :: cs ∧ isIdChar c = false ∧ isBlank c = false := by
  rw [text]
  cases b.round with
  | true => exact ⟨'(', _, rfl, by decide, by decide⟩
  | false => exact ⟨'[', _, rfl, by decide, by decide⟩

theorem Bracket.isIdChar_head?_text (b : Bracket) (rest : List Char) :
    ∀ c ∈ (b.text ++ rest).head?, isIdChar c = false := by
  obtain ⟨d, ds, hds, hd, -⟩ := b.exists_cons_text
  intro c hc
  rw [hds] at hc
  obtain rfl := Option.some.inj hc
  exact hd

/-- It ends with a closing bracket. -/
theorem Bracket.getLast?_text (b : Bracket) :
    b.text.getLast? = some ']' ∨ b.text.getLast? = some ')' := by
  rw [text]
  cases b.round with
  | true =>
      refine .inr ?_
      rw [if_pos rfl]
      simp [List.getLast?_cons, List.getLast?_append]
  | false =>
      refine .inl ?_
      rw [if_neg (by decide), List.getLast?_concat]

/-- So it does not end with a blank. -/
theorem Bracket.isBlank_getLast?_text (b : Bracket) :
    ∀ c ∈ b.text.getLast?, isBlank c = false := by
  intro c hc
  rcases b.getLast?_text with hlast | hlast <;> rw [hlast] at hc <;>
    obtain rfl := Option.some.inj hc <;> decide

/-- It contains an opening bracket. -/
theorem Bracket.mem_text (b : Bracket) : '[' ∈ b.text := by
  rw [text]
  cases b.round with
  | true => exact List.mem_cons_of_mem _ List.mem_cons_self
  | false => exact List.mem_cons_self

/-- A bracket is cut where it ends. -/
theorem Bracket.cut_append {inner : List Char} (h : ']' ∉ inner) (rest : List Char) :
    cut (inner ++ ']' :: rest) = (inner, ']' :: rest) := by
  have hinner : ∀ c ∈ inner, (c != ']') = true := by
    intro c hc
    rw [bne_iff_ne]
    rintro rfl
    exact h hc
  have hrest : ∀ c ∈ (']' :: rest).head?, (c != ']') = false := by
    intro c hc
    obtain rfl := Option.some.inj hc
    decide
  rw [cut, takeWhile_append hinner hrest, dropWhile_append hinner hrest]

/-- A written bracket is read back. -/
theorem Bracket.readFirst?_text {b : Bracket} (h : b.Proper) (rest : List Char) :
    readFirst? (b.text ++ rest) = some (b, rest) := by
  obtain ⟨round, inner⟩ := b
  obtain ⟨c, cs, rfl⟩ := List.exists_cons_of_ne_nil h.ne_nil
  cases round with
  | true =>
      have hcut := cut_append h.open_inside (')' :: rest)
      have htext : Bracket.text ⟨true, c :: cs⟩ ++ rest =
          '(' :: '[' :: (c :: cs ++ ']' :: ')' :: rest) := by simp [text]
      rw [htext, readFirst?, hcut]
      rfl
  | false =>
      have hcut := cut_append h.open_inside rest
      have htext : Bracket.text ⟨false, c :: cs⟩ ++ rest = '[' :: (c :: cs ++ ']' :: rest) := by
        simp [text]
      rw [htext, readFirst?, hcut]
      rfl

/-- So is a bracket that a whole text is. -/
theorem Bracket.read?_text {b : Bracket} (h : b.Proper) : Bracket.read? b.text = some b := by
  have hfirst := Bracket.readFirst?_text h []
  rw [List.append_nil] at hfirst
  rw [Bracket.read?, hfirst]

/-! ### Tokens -/

/-- A declared node is read back. -/
theorem Token.read?_text {id : List Char} {b : Bracket} (hid : IsId id) (hb : b.Proper) :
    Token.read? (id ++ b.text) = some ⟨id, some b⟩ := by
  have hrest : ∀ c ∈ b.text.head?, isIdChar c = false := by
    have hhead := b.isIdChar_head?_text []
    rwa [List.append_nil] at hhead
  obtain ⟨c, cs, hcs, -⟩ := b.exists_cons_text
  obtain ⟨d, ds, rfl⟩ := List.exists_cons_of_ne_nil hid.ne_nil
  have hread := Bracket.read?_text hb
  rw [read?, takeWhile_append hid.chars hrest, dropWhile_append hid.chars hrest, hcs]
  rw [hcs] at hread
  simp only [hread]
  rfl

/-- Only the blanks around a declared node are trimmed. -/
theorem trim_append_declared {blanks id : List Char} (hblanks : ∀ c ∈ blanks, isBlank c = true)
    (hid : IsId id) (b : Bracket) : trim (blanks ++ (id ++ b.text)) = id ++ b.text := by
  have hlast : ∀ c ∈ (id ++ b.text).getLast?, isBlank c = false := by
    intro c hc
    obtain ⟨d, ds, hds, -⟩ := b.exists_cons_text
    refine b.isBlank_getLast?_text c ?_
    rwa [List.getLast?_append_of_ne_nil _ (by rw [hds]; exact List.cons_ne_nil d ds)] at hc
  rw [trim, trimLeft_append hblanks (hid.isBlank_head? _), trimRight_eq_self hlast]

/-- A declared node behind an arrow is read back. -/
theorem Edge.readChild?_declared {id : List Char} {b : Bracket} (hid : IsId id) (hb : b.Proper) :
    Edge.readChild? (' ' :: (id ++ b.text)) = some ⟨id, some b⟩ := by
  have htrim : trim ([' '] ++ (id ++ b.text)) = id ++ b.text :=
    trim_append_declared (List.all_eq_true.mp (by decide)) hid b
  rw [List.singleton_append] at htrim
  rw [readChild?, htrim, Token.read?_text hid hb]
  rfl

/-! ### Edges -/

/-- The text of an edge, as it is written below a header. -/
def edgeText (parent : Token) (id : List Char) (b : Bracket) : List Char :=
  indentation.toList ++ (parent.text ++ (" --> ".toList ++ (id ++ b.text)))

/-- **A written edge is read back.** -/
theorem Edge.read?_written {parent : Token} (hparent : IsId parent.id)
    (hbracket : ∀ b ∈ parent.bracket, b.Proper) {id : List Char} {b : Bracket} (hid : IsId id)
    (hb : b.Proper) :
    Edge.read? (edgeText parent id b) = some ⟨parent, ⟨id, some b⟩⟩ := by
  obtain ⟨parentId, bracket⟩ := parent
  have harrow : (afterArrow? (" --> ".toList ++ (id ++ b.text))).bind readChild? =
      some ⟨id, some b⟩ := Edge.readChild?_declared hid hb
  have hleft : trimLeft (edgeText ⟨parentId, bracket⟩ id b) =
      parentId ++ ((bracket.map Bracket.text).getD [] ++ (" --> ".toList ++ (id ++ b.text))) := by
    rw [edgeText, Token.text, List.append_assoc]
    exact trimLeft_append (List.all_eq_true.mp (by decide)) (hparent.isBlank_head? _)
  have hrun : ∀ c ∈ ((bracket.map Bracket.text).getD [] ++
      (" --> ".toList ++ (id ++ b.text))).head?, isIdChar c = false := by
    intro c hc
    cases bracket with
    | none =>
        obtain rfl : ' ' = c := Option.some.inj hc
        decide
    | some b' => exact b'.isIdChar_head?_text _ c hc
  rw [read?, hleft]
  simp only [takeWhile_append hparent.chars hrun, dropWhile_append hparent.chars hrun]
  have hafter : readAfterRun? parentId ((bracket.map Bracket.text).getD [] ++
      (" --> ".toList ++ (id ++ b.text))) = some ⟨⟨parentId, bracket⟩, ⟨id, some b⟩⟩ := by
    rw [readAfterRun?, if_neg (by simpa using hparent.ne_nil)]
    cases bracket with
    | none =>
        have hnone : Bracket.readFirst? (" --> ".toList ++ (id ++ b.text)) = none := rfl
        rw [Option.map_none, Option.getD_none, List.nil_append]
        simp only [hnone, harrow]
    | some b' =>
        rw [Option.map_some, Option.getD_some]
        simp only [Bracket.readFirst?_text (hbracket b' rfl), harrow]
  rw [hafter]

/-! ### What is read -/

/-- A bracket that is read at the start of a text is written there. -/
theorem Bracket.readFirst?_eq_some {cs rest : List Char} {b : Bracket}
    (h : readFirst? cs = some (b, rest)) : b.Proper ∧ cs = b.text ++ rest := by
  have hproper : ∀ (round : Bool) {cs inner after : List Char} {c : Char},
      cut cs = (c :: inner, after) →
      Bracket.Proper ⟨round, c :: inner⟩ ∧ cs = c :: inner ++ after := by
    intro round cs inner after c hcut
    obtain ⟨hinner, hafter⟩ := Prod.mk.inj hcut
    refine ⟨⟨nofun, fun hmem => ?_⟩, ?_⟩
    · have hne := List.mem_takeWhile_imp (hinner ▸ hmem)
      cases hne
    · rw [← hinner, ← hafter, List.takeWhile_append_dropWhile]
  rw [readFirst?.eq_def] at h
  split at h
  · split at h
    · next hcut =>
        obtain ⟨rfl, rfl⟩ := Prod.mk.inj (Option.some.inj h)
        obtain ⟨hb, rfl⟩ := hproper true hcut
        exact ⟨hb, by simp [text]⟩
    · cases h
  · split at h
    · next hcut =>
        obtain ⟨rfl, rfl⟩ := Prod.mk.inj (Option.some.inj h)
        obtain ⟨hb, rfl⟩ := hproper false hcut
        exact ⟨hb, by simp [text]⟩
    · cases h
  · cases h

/-- A bracket that is read from a whole text is that text. -/
theorem Bracket.read?_eq_some {cs : List Char} {b : Bracket} (h : read? cs = some b) :
    b.Proper ∧ cs = b.text := by
  rw [read?] at h
  split at h
  · next hfirst =>
      obtain rfl := Option.some.inj h
      obtain ⟨hb, hcs⟩ := readFirst?_eq_some hfirst
      exact ⟨hb, by rw [hcs, List.append_nil]⟩
  · cases h

/-- A token that is read is written in the text. -/
theorem Token.read?_eq_some {cs : List Char} {token : Token} (h : Token.read? cs = some token) :
    IsId token.id ∧ (∀ b ∈ token.bracket, b.Proper) ∧ cs = token.text := by
  have hsplit := List.takeWhile_append_dropWhile (p := isIdChar) (l := cs)
  have hchars : ∀ c ∈ cs.takeWhile isIdChar, isIdChar c = true := fun c hc =>
    List.mem_takeWhile_imp hc
  rw [read?.eq_def] at h
  cases hid : cs.takeWhile isIdChar with
  | nil =>
      rw [hid] at h
      cases h
  | cons c id =>
      rw [hid] at h hsplit hchars
      cases hrest : cs.dropWhile isIdChar with
      | nil =>
          rw [hrest] at h hsplit
          obtain rfl := Option.some.inj h
          exact ⟨⟨nofun, hchars⟩, nofun, hsplit.symm⟩
      | cons d rest =>
          rw [hrest] at h hsplit
          obtain ⟨b, hb, rfl⟩ := Option.map_eq_some_iff.mp h
          obtain ⟨hproper, htext⟩ := Bracket.read?_eq_some hb
          refine ⟨⟨nofun, hchars⟩, fun b' hb' => ?_, ?_⟩
          · obtain rfl := Option.some.inj hb'
            exact hproper
          · rw [← hsplit, htext]
            rfl

/-- A child that is read has an id. -/
theorem Edge.isId_of_readChild? {cs : List Char} {child : Token}
    (h : Edge.readChild? cs = some child) : IsId child.id := by
  rw [readChild?, Option.filter_eq_some_iff] at h
  exact (Token.read?_eq_some h.1).1

/-- The nodes of an edge that is read have ids. -/
theorem Edge.isId_of_read? {line : List Char} {edge : Edge} (h : Edge.read? line = some edge) :
    IsId edge.parent.id ∧ IsId edge.child.id := by
  have hchars : ∀ c ∈ (trimLeft line).takeWhile isIdChar, isIdChar c = true := fun c hc =>
    List.mem_takeWhile_imp hc
  rcases read?_eq_some h with ⟨hrun, hne, after, hafter⟩ | ⟨id, left, hrun, hne, hparent, hchild⟩
  · exact ⟨⟨hne, hrun ▸ hchars⟩, isId_of_readChild? hafter⟩
  · rw [hrun] at hchars
    refine ⟨?_, ?_⟩
    · rw [hparent]
      exact ⟨hne, fun c hc => hchars c (List.mem_append_left _ hc)⟩
    · rcases hchild with ⟨after, hafter⟩ | ⟨hleft, b, hchild⟩
      · exact isId_of_readChild? hafter
      · rw [hchild]
        exact ⟨hleft, fun c hc => hchars c (List.mem_append_right _ (by simp [hc]))⟩

/-! ### Nodes on lines of their own -/

/-- A node of this name has been read from a line of its own, which was not an edge. -/
def StandsAlone (id : List Char) : Prop :=
  ∃ line b, Edge.read? line = none ∧ Token.read? (trim line) = some ⟨id, some b⟩

/-- No arrow stands behind a declared node. -/
theorem Edge.readAfterRun?_declared {id blanks : List Char} {b : Bracket} (hid : IsId id)
    (hb : b.Proper) (hblanks : ∀ c ∈ blanks, isBlank c = true) :
    Edge.readAfterRun? id (b.text ++ blanks) = none := by
  have hnone : trimLeft blanks = [] := List.dropWhile_eq_nil_iff.mpr hblanks
  rw [readAfterRun?, if_neg (by simpa using hid.ne_nil)]
  simp only [Bracket.readFirst?_text hb, afterArrow?, hnone, Option.bind_none]

/-- A bracket without an id declares nothing. -/
theorem Edge.readChild?_bracket {blanks : List Char} (b : Bracket)
    (hblanks : ∀ c ∈ blanks, isBlank c = true) : Edge.readChild? (b.text ++ blanks) = none := by
  obtain ⟨c, cs, hcs, hc, hblank⟩ := b.exists_cons_text
  have hleft : trimLeft (b.text ++ blanks) = b.text ++ blanks := by
    refine trimLeft_eq_self fun d hd => ?_
    rw [hcs] at hd
    obtain rfl := Option.some.inj hd
    exact hblank
  have hrun : (c :: cs).takeWhile isIdChar = [] :=
    List.takeWhile_cons_of_neg (by rw [hc]; decide)
  rw [readChild?, trim, hleft, trimRight_append hblanks b.isBlank_getLast?_text, hcs, Token.read?,
    hrun]
  rfl

/-- A line with nothing but a declared node is an edge if its id is one before the bracket. -/
theorem Edge.read?_of_declared {line id : List Char} {b : Bracket}
    (h : Token.read? (trim line) = some ⟨id, some b⟩) :
    Edge.read? line =
      splitRun? (fun left => if left.isEmpty then none else some ⟨left, some b⟩) id.reverse
        [] := by
  obtain ⟨hid, hbracket, htext⟩ := Token.read?_eq_some h
  have hb : b.Proper := hbracket b rfl
  change trim line = id ++ b.text at htext
  obtain ⟨blanks, hline, hblanks⟩ := exists_blanks_of_trimRight (trimLeft line)
  rw [show trimRight (trimLeft line) = trim line from rfl, htext, List.append_assoc] at hline
  have hrest := b.isIdChar_head?_text blanks
  have htrim : trimRight (b.text ++ blanks) = b.text :=
    trimRight_append hblanks b.isBlank_getLast?_text
  rw [read?, hline]
  simp only [takeWhile_append hid.chars hrest, dropWhile_append hid.chars hrest,
    readAfterRun?_declared hid hb hblanks, htrim, Bracket.read?_text hb]
  congr 1
  funext left
  rw [childInRun?, readChild?_bracket b hblanks, Option.map_some]

/-- Whether there is an arrow in the run depends on the run alone. -/
theorem Edge.splitRun?_eq_none {child? child?' : List Char → Option Token}
    (h : ∀ left, child? left = none → child?' left = none) {backwards left : List Char}
    (hnone : splitRun? child? backwards left = none) :
    splitRun? child?' backwards left = none := by
  induction backwards generalizing left with
  | nil => rfl
  | cons c backwards ih =>
      rw [splitRun?] at hnone ⊢
      split at hnone
      · cases hnone
      · next hhere =>
          cases hhere' : splitHere? child?' (c :: backwards) left with
          | none => exact ih hnone
          | some edge =>
              obtain ⟨id, child, hid, hne, hchild, -⟩ := splitHere?_eq_some hhere'
              rw [hid, splitHere?, if_neg (by simpa using hne), Option.map_eq_none_iff] at hhere
              rw [h left hhere] at hchild
              cases hchild

/-- **A node that has stood alone on a line may do so again.** -/
theorem Edge.read?_eq_none_of_standsAlone {line id : List Char} {b : Bracket}
    (h : StandsAlone id) (hline : Token.read? (trim line) = some ⟨id, some b⟩) :
    Edge.read? line = none := by
  obtain ⟨old, b', hnone, hold⟩ := h
  rw [read?_of_declared hold] at hnone
  rw [read?_of_declared hline]
  refine splitRun?_eq_none (fun left hleft => ?_) hnone
  cases hempty : left.isEmpty with
  | true => rw [if_pos rfl]
  | false =>
      rw [hempty, if_neg (by decide)] at hleft
      cases hleft

/-! ### Lines of a tree -/

/-- The line stands below a header: it has no line end in it or at its end, and it holds a
bracket. -/
structure IsBody (line : List Char) : Prop where
  newline : '\n' ∉ line
  last : line.getLast? ≠ some '\r'
  bracket : '[' ∈ line

/-- The bracket of a kind ends a line. -/
theorem isBody_append {before : List Char} (h : '\n' ∉ before) (kind : NodeKind) :
    IsBody (before ++ (Bracket.ofKind kind).text) := by
  obtain ⟨c, cs, hcs, -⟩ := (Bracket.ofKind kind).exists_cons_text
  have hinner := (Bracket.inner_ofKind kind).2
  refine ⟨fun hmem => ?_, ?_, List.mem_append_right _ (Bracket.mem_text _)⟩
  · rcases List.mem_append.mp hmem with hmem | hmem
    · exact h hmem
    · rw [Bracket.text] at hmem
      have hin : '\n' ∈ (Bracket.ofKind kind).inner := by
        split at hmem <;> simpa using hmem
      exact (hinner _ hin).2 rfl
  · rw [List.getLast?_append_of_ne_nil _ (by rw [hcs]; exact List.cons_ne_nil c cs)]
    rcases (Bracket.ofKind kind).getLast?_text with hlast | hlast <;> rw [hlast] <;> decide

/-- Nothing at the end of such a line is dropped. -/
theorem IsBody.dropReturns_eq {line : List Char} (h : IsBody line) : dropReturns line = line := by
  rw [dropReturns, dropWhile_eq_self, List.reverse_reverse]
  intro c hc
  rw [List.head?_reverse] at hc
  rw [beq_eq_false_iff_ne]
  rintro rfl
  exact h.last hc

/-- It is not blank, and it is no header. -/
theorem IsBody.trim_ne {line : List Char} (h : IsBody line) :
    trim line ≠ [] ∧ trim line ≠ header.toList := by
  have hmem : '[' ∈ trim line := mem_trim h.bracket (by decide)
  refine ⟨List.ne_nil_of_mem hmem, fun hheader => ?_⟩
  rw [hheader] at hmem
  revert hmem
  decide

/-- No line ends in an id. -/
theorem IsId.newline {cs : List Char} (h : IsId cs) : '\n' ∉ cs := by
  intro hmem
  have hchar := h.chars _ hmem
  revert hchar
  decide

variable {t : Arena} {parent child : NodeIdx}

theorem toList_declaration (t : Arena) (i : NodeIdx) :
    (declaration t i).toList = (t.id i).toList ++ (Bracket.ofKind (t.kind i)).text := by
  rw [declaration, String.toList_append, Bracket.text_ofKind]

/-- The line of a link is an edge with the given text for the parent. -/
theorem toList_linkLine {text : String} (token : Token) (htext : text.toList = token.text) :
    (linkLine t text child).toList =
      edgeText token (t.id child).toList (Bracket.ofKind (t.kind child)) := by
  simp only [linkLine, edgeText, String.toList_append, toList_declaration, htext,
    List.append_assoc]

/-- The line of a link stands below a header. -/
theorem isBody_linkLine {text : String} (hparent : '\n' ∉ text.toList)
    (hchild : IsId (t.id child).toList) : IsBody (linkLine t text child).toList := by
  have hline : (linkLine t text child).toList =
      (indentation.toList ++ text.toList ++ " --> ".toList ++ (t.id child).toList) ++
        (Bracket.ofKind (t.kind child)).text := by
    simp only [linkLine, String.toList_append, toList_declaration, List.append_assoc]
  rw [hline]
  refine isBody_append ?_ _
  have hindentation : '\n' ∉ indentation.toList := by decide
  have harrow : '\n' ∉ " --> ".toList := by decide
  simp only [List.mem_append]
  rintro (((hmem | hmem) | hmem) | hmem)
  · exact hindentation hmem
  · exact hparent hmem
  · exact harrow hmem
  · exact hchild.newline hmem

/-- The line of a link below a declared parent is read back. -/
theorem Edge.read?_linkLine (hparent : IsId (t.id parent).toList)
    (hchild : IsId (t.id child).toList) :
    Edge.read? (linkLine t (t.id parent) child).toList =
      some ⟨⟨(t.id parent).toList, none⟩,
        ⟨(t.id child).toList, some (Bracket.ofKind (t.kind child))⟩⟩ := by
  rw [toList_linkLine ⟨(t.id parent).toList, none⟩ (by simp [Token.text])]
  exact Edge.read?_written hparent (by simp) hchild (Bracket.proper_ofKind _)

/-- So is the line of a link that declares both nodes. -/
theorem Edge.read?_linkLine_declaration (hparent : IsId (t.id parent).toList)
    (hchild : IsId (t.id child).toList) :
    Edge.read? (linkLine t (declaration t parent) child).toList =
      some ⟨⟨(t.id parent).toList, some (Bracket.ofKind (t.kind parent))⟩,
        ⟨(t.id child).toList, some (Bracket.ofKind (t.kind child))⟩⟩ := by
  rw [toList_linkLine ⟨_, some (Bracket.ofKind (t.kind parent))⟩ (toList_declaration t parent)]
  refine Edge.read?_written hparent (fun b hb => ?_) hchild (Bracket.proper_ofKind _)
  obtain rfl := Option.some.inj hb
  exact Bracket.proper_ofKind _

/-- The line of a node without links. -/
theorem toList_indented (t : Arena) (i : NodeIdx) :
    (indentation ++ declaration t i).toList =
      indentation.toList ++ (t.id i).toList ++ (Bracket.ofKind (t.kind i)).text := by
  rw [String.toList_append, toList_declaration, List.append_assoc]

/-- A node without links is read back from its line. -/
theorem read?_trim_indented {i : NodeIdx} (h : IsId (t.id i).toList) :
    Token.read? (trim (indentation ++ declaration t i).toList) =
      some ⟨(t.id i).toList, some (Bracket.ofKind (t.kind i))⟩ := by
  have hblanks : ∀ c ∈ indentation.toList, isBlank c = true := List.all_eq_true.mp (by decide)
  rw [toList_indented, List.append_assoc, trim_append_declared hblanks h]
  exact Token.read?_text h (Bracket.proper_ofKind _)

end Ladybug.Flowchart
