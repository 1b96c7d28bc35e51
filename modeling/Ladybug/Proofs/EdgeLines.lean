import Ladybug.Proofs.WrittenLines

/-!
# Lines that are edges

What an edge is can be said without a reader: two tokens with an arrow between them, the
second one declared, and blanks wherever the line allows them. As ids may contain arrows, a
line can be split into such parts in several ways. Of these the one with the longest id
before the arrow counts, and no two ways have ids of one length there. The reader of edges
searches the run of id characters at the start of the line, and it finds just this way.

## Main definitions

* `Blanks` — texts of nothing but blanks.
* `Token.Proper` — the tokens that can stand in a line.
* `Edge.Splits` — a line can be split into the parts of an edge.
* `Edge.IsLongest` — no other split has a longer id before the arrow.
* `Edge.BehindRun`, `Edge.InRun` — where the arrow is, seen from the run.

## Main results

* `Edge.splits_iff` — where the arrow of a split is.
* `Edge.Splits.unique` — splits with ids of one length before the arrow are the same.
* `Edge.read?_eq_some_iff` — an edge is read exactly if it is the longest split.
-/

namespace Ladybug.Flowchart

open Text

/-! ### Parts of a line -/

/-- The text is made of blanks. -/
def Blanks (cs : List Char) : Prop := ∀ c ∈ cs, isBlank c = true

/-- The arrow between parent and child. -/
def arrow : List Char := ['-', '-', '>']

/-- The token is an id, perhaps with a bracket that ends where it should. -/
structure Token.Proper (token : Token) : Prop where
  isId : IsId token.id
  bracket : ∀ b ∈ token.bracket, b.Proper

/-- What stands behind the id of a token. -/
def Token.tail (token : Token) : List Char := (token.bracket.map Bracket.text).getD []

/-- The line consists of the parts of the edge, with blanks around them. -/
structure Edge.Splits (line : List Char) (edge : Edge) : Prop where
  parent : edge.parent.Proper
  child : edge.child.Proper
  declared : edge.child.bracket.isSome
  text : ∃ w₁ w₂ w₃ w₄, Blanks w₁ ∧ Blanks w₂ ∧ Blanks w₃ ∧ Blanks w₄ ∧
    line = w₁ ++ (edge.parent.text ++ (w₂ ++ (arrow ++ (w₃ ++ (edge.child.text ++ w₄)))))

/-- The line is the edge, and it cannot be split with a longer id before the arrow. -/
structure Edge.IsLongest (line : List Char) (edge : Edge) : Prop where
  splits : edge.Splits line
  longest : ∀ other : Edge, other.Splits line → other.parent.id.length ≤ edge.parent.id.length

theorem blanks_nil : Blanks [] := nofun

theorem isIdChar_arrow : ∀ c ∈ arrow, isIdChar c = true := List.all_eq_true.mp rfl

/-- An id may go on. -/
theorem IsId.append {cs ds : List Char} (hcs : IsId cs) (hds : ∀ c ∈ ds, isIdChar c = true) :
    IsId (cs ++ ds) where
  ne_nil := List.append_ne_nil_of_left_ne_nil hcs.ne_nil ds
  chars c hc := (List.mem_append.mp hc).elim (hcs.chars c) (hds c)

/-- A blank is not part of an id. -/
theorem Blanks.isIdChar_head? {c : Char} {cs : List Char} (h : Blanks (c :: cs))
    (rest : List Char) : ∀ d ∈ (c :: cs ++ rest).head?, isIdChar d = false := by
  intro d hd
  obtain rfl := Option.some.inj hd
  rw [isIdChar, h _ List.mem_cons_self]
  rfl

/-- Blanks are cut off at both ends of a text. -/
theorem exists_blanks_of_trim (cs : List Char) :
    ∃ w w', Blanks w ∧ Blanks w' ∧ cs = w ++ (trim cs ++ w') := by
  obtain ⟨w, hw, hleft⟩ := exists_blanks_of_trimLeft cs
  obtain ⟨w', hright, hw'⟩ := exists_blanks_of_trimRight (trimLeft cs)
  exact ⟨w, w', hw, hw', by rw [trim, ← hright, ← hleft]⟩

/-- The text of a token without a bracket is its id. -/
theorem Token.text_eq (token : Token) : token.text = token.id ++ token.tail := rfl

/-- A declared token is an id and a bracket. -/
theorem Token.exists_eq_of_isSome {token : Token} (h : token.bracket.isSome) :
    ∃ id b, token = ⟨id, some b⟩ := by
  obtain ⟨id, bracket⟩ := token
  obtain ⟨b, rfl⟩ := Option.isSome_iff_exists.mp h
  exact ⟨id, b, rfl⟩

/-- A declared token does not end with a blank. -/
theorem Token.isBlank_getLast?_declared (id : List Char) (b : Bracket) :
    ∀ c ∈ (Token.text ⟨id, some b⟩).getLast?, isBlank c = false := by
  intro c hc
  obtain ⟨d, ds, hds, -⟩ := b.exists_cons_text
  have hne : b.text ≠ [] := by rw [hds]; exact List.cons_ne_nil d ds
  change c ∈ (id ++ b.text).getLast? at hc
  rw [List.getLast?_append_of_ne_nil _ hne] at hc
  exact b.isBlank_getLast?_text c hc

/-- The only blanks around a declared token are those that are trimmed. -/
theorem trim_declared {w w' id : List Char} (hw : Blanks w) (hw' : Blanks w') (hid : IsId id)
    (b : Bracket) : trim (w ++ (Token.text ⟨id, some b⟩ ++ w')) = Token.text ⟨id, some b⟩ := by
  have hhead : ∀ c ∈ (Token.text ⟨id, some b⟩ ++ w').head?, isBlank c = false := by
    rw [Token.text_eq, List.append_assoc]
    exact hid.isBlank_head? _
  rw [trim, trimLeft_append hw hhead, trimRight_append hw' (Token.isBlank_getLast?_declared id b)]

/-- What a child is: a declared token with blanks around it. -/
theorem Edge.readChild?_eq_some_iff {cs : List Char} {child : Token} :
    Edge.readChild? cs = some child ↔
      child.Proper ∧ child.bracket.isSome ∧
        ∃ w w', Blanks w ∧ Blanks w' ∧ cs = w ++ (child.text ++ w') := by
  rw [readChild?, Option.filter_eq_some_iff]
  constructor
  · rintro ⟨hread, hdeclared⟩
    obtain ⟨hid, hbracket, htext⟩ := Token.read?_eq_some hread
    obtain ⟨w, w', hw, hw', hcs⟩ := exists_blanks_of_trim cs
    exact ⟨⟨hid, hbracket⟩, hdeclared, w, w', hw, hw', by rw [← htext]; exact hcs⟩
  · rintro ⟨hproper, hdeclared, w, w', hw, hw', rfl⟩
    obtain ⟨id, b, rfl⟩ := Token.exists_eq_of_isSome hdeclared
    refine ⟨?_, hdeclared⟩
    rw [trim_declared hw hw' hproper.isId b]
    exact Token.read?_text hproper.isId (hproper.bracket b rfl)

/-! ### The arrow behind the run -/

/-- What stands behind an arrow. -/
theorem Edge.afterArrow?_eq_some_iff {cs after : List Char} :
    afterArrow? cs = some after ↔ ∃ w, Blanks w ∧ cs = w ++ (arrow ++ after) := by
  constructor
  · intro h
    obtain ⟨w, hw, hcs⟩ := exists_blanks_of_trimLeft cs
    rw [afterArrow?] at h
    split at h
    · next rest htrim =>
        obtain rfl := Option.some.inj h
        exact ⟨w, hw, by rw [hcs, htrim]; rfl⟩
    · cases h
  · rintro ⟨w, hw, rfl⟩
    have htrim : trimLeft (w ++ (arrow ++ after)) = arrow ++ after := by
      refine trimLeft_append hw fun c hc => ?_
      obtain rfl := Option.some.inj hc
      decide
    rw [afterArrow?, htrim]
    rfl

/-- No bracket opens where a blank or an arrow stands. -/
theorem Bracket.readFirst?_eq_none {w after : List Char} (hw : Blanks w) :
    Bracket.readFirst? (w ++ (arrow ++ after)) = none := by
  cases hfirst : Bracket.readFirst? (w ++ (arrow ++ after)) with
  | none => rfl
  | some found =>
      obtain ⟨-, htext⟩ := Bracket.readFirst?_eq_some hfirst
      obtain ⟨c, cs, hcs, hc, hblank⟩ := found.1.exists_cons_text
      rw [hcs] at htext
      cases w with
      | nil =>
          obtain ⟨rfl, -⟩ := List.cons.inj htext
          exact absurd hc (by decide)
      | cons d w =>
          obtain ⟨rfl, -⟩ := List.cons.inj htext
          rw [hw _ List.mem_cons_self] at hblank
          cases hblank

/-- The parts of an edge whose parent has the whole run as its id. -/
theorem Edge.readAfterRun?_eq_some_iff {run rest : List Char} {edge : Edge} :
    readAfterRun? run rest = some edge ↔
      edge.parent.id = run ∧ run ≠ [] ∧ (∀ b ∈ edge.parent.bracket, b.Proper) ∧
        ∃ w after, Blanks w ∧ readChild? after = some edge.child ∧
          rest = edge.parent.tail ++ (w ++ (arrow ++ after)) := by
  constructor
  · intro h
    rw [readAfterRun?] at h
    split at h
    · cases h
    · next hne =>
        split at h
        next bracket behind hbracket =>
        have hparts : (∀ b ∈ bracket, b.Proper) ∧
            rest = (bracket.map Bracket.text).getD [] ++ behind := by
          split at hbracket
          · next b rest' hfirst =>
              obtain ⟨rfl, rfl⟩ := Prod.mk.inj hbracket
              obtain ⟨hb, htext⟩ := Bracket.readFirst?_eq_some hfirst
              exact ⟨fun b' hb' => Option.some.inj hb' ▸ hb, htext⟩
          · obtain ⟨rfl, rfl⟩ := Prod.mk.inj hbracket
            refine ⟨fun b hb => ?_, rfl⟩
            cases hb
        split at h
        · next child hchild =>
            obtain rfl := Option.some.inj h
            obtain ⟨after, harrow, hafter⟩ := Option.bind_eq_some_iff.mp hchild
            obtain ⟨w, hw, rfl⟩ := afterArrow?_eq_some_iff.mp harrow
            exact ⟨rfl, by simpa using hne, hparts.1, w, after, hw, hafter, hparts.2⟩
        · cases h
  · rintro ⟨rfl, hne, hproper, w, after, hw, hchild, htext⟩
    obtain ⟨⟨id, bracket⟩, child⟩ := edge
    have harrow : (afterArrow? (w ++ (arrow ++ after))).bind readChild? = some child := by
      rw [afterArrow?_eq_some_iff.mpr ⟨w, hw, rfl⟩]
      exact hchild
    rw [readAfterRun?, if_neg (by simpa using hne)]
    cases bracket with
    | none =>
        obtain rfl : rest = w ++ (arrow ++ after) := htext
        simp only [Bracket.readFirst?_eq_none hw, harrow]
    | some b =>
        obtain rfl : rest = b.text ++ (w ++ (arrow ++ after)) := htext
        simp only [Bracket.readFirst?_text (hproper b rfl), harrow]

/-! ### The arrow in the run -/

/-- The parts of the child behind an arrow in the run. -/
theorem Edge.childInRun?_eq_some_iff {rest left : List Char} {child : Token}
    (hleft : ∀ c ∈ left, isIdChar c = true) :
    childInRun? rest (Bracket.read? (trimRight rest)) left = some child ↔
      (left = [] ∧ readChild? rest = some child) ∨
        (left ≠ [] ∧ left = child.id ∧ child.Proper ∧ child.bracket.isSome ∧
          ∃ w, Blanks w ∧ rest = child.tail ++ w) := by
  rw [childInRun?]
  by_cases hempty : left = []
  · simp [hempty]
  · rw [if_neg (by simpa using hempty), Option.map_eq_some_iff]
    constructor
    · rintro ⟨b, hread, rfl⟩
      obtain ⟨hb, htext⟩ := Bracket.read?_eq_some hread
      obtain ⟨w, hrest, hw⟩ := exists_blanks_of_trimRight rest
      refine .inr ⟨hempty, rfl, ⟨⟨hempty, hleft⟩, ?_⟩, rfl, w, hw, ?_⟩
      · exact fun b' hb' => Option.some.inj hb' ▸ hb
      · rw [hrest, htext]
        rfl
    · rintro (⟨hnil, -⟩ | ⟨-, hid, hproper, hdeclared, w, hw, rfl⟩)
      · exact absurd hnil hempty
      · obtain ⟨id, b, rfl⟩ := Token.exists_eq_of_isSome hdeclared
        have htrim : trimRight (Token.tail ⟨id, some b⟩ ++ w) = b.text :=
          trimRight_append hw b.isBlank_getLast?_text
        exact ⟨b, by rw [htrim, Bracket.read?_text (hproper.bracket b rfl)], by rw [hid]⟩

/-- The search finds an edge if there is one, and none with a longer id before its arrow. -/
theorem Edge.exists_splitRun? {child? : List Char → Option Token} {backwards left : List Char}
    {id after : List Char} {child : Token} (hrun : backwards.reverse ++ left = id ++ (arrow ++ after))
    (hid : id ≠ []) (hchild : child? after = some child) (hleft : left.length ≤ after.length) :
    ∃ edge, splitRun? child? backwards left = some edge ∧
      id.length ≤ edge.parent.id.length := by
  induction backwards generalizing left with
  | nil =>
      have hlen := congrArg List.length hrun
      simp only [arrow, List.reverse_nil, List.nil_append, List.length_append, List.length_cons]
        at hlen
      omega
  | cons c backwards ih =>
      have hlen := congrArg List.length hrun
      simp only [arrow, List.length_append, List.length_reverse, List.length_cons,
        List.length_nil] at hlen
      rw [splitRun?]
      cases hhere : splitHere? child? (c :: backwards) left with
      | some edge =>
          obtain ⟨id', child', hbackwards, -, -, rfl⟩ := splitHere?_eq_some hhere
          have hlen' := congrArg List.length hbackwards
          simp only [List.length_cons] at hlen'
          refine ⟨_, rfl, ?_⟩
          rw [List.length_reverse]
          omega
      | none =>
          refine ih (by rw [← hrun]; simp) (Nat.lt_of_le_of_ne hleft fun heq => ?_)
          -- Otherwise the arrow would be right here.
          rw [← List.append_assoc] at hrun
          obtain ⟨hbefore, rfl⟩ := List.append_inj' hrun heq
          have hbackwards : c :: backwards = '>' :: '-' :: '-' :: id.reverse := by
            rw [← List.reverse_reverse (c :: backwards), hbefore]
            simp [arrow]
          rw [hbackwards, splitHere?, if_neg (by simpa using hid), hchild] at hhere
          cases hhere

/-! ### Whole lines -/

/-- A line starts with blanks, a run of id characters and something else. -/
theorem exists_run (line : List Char) :
    ∃ w, Blanks w ∧ line = w ++ ((trimLeft line).takeWhile isIdChar ++
      (trimLeft line).dropWhile isIdChar) := by
  obtain ⟨w, hw, hline⟩ := exists_blanks_of_trimLeft line
  exact ⟨w, hw, by rw [List.takeWhile_append_dropWhile]; exact hline⟩

/-- The run of a line that starts with an id, up to a character that is not part of one. -/
theorem run_eq {w cs rest : List Char} (hw : Blanks w) (hcs : IsId cs)
    (hrest : ∀ c ∈ rest.head?, isIdChar c = false) :
    (trimLeft (w ++ (cs ++ rest))).takeWhile isIdChar = cs ∧
      (trimLeft (w ++ (cs ++ rest))).dropWhile isIdChar = rest := by
  rw [trimLeft_append hw (hcs.isBlank_head? rest)]
  exact ⟨takeWhile_append hcs.chars hrest, dropWhile_append hcs.chars hrest⟩

/-- The arrow of the edge is behind the run of id characters at the start of the line. -/
def Edge.BehindRun (line : List Char) (edge : Edge) : Prop :=
  readAfterRun? ((trimLeft line).takeWhile isIdChar) ((trimLeft line).dropWhile isIdChar) =
    some edge

/-- The arrow of the edge is in the run of id characters at the start of the line. -/
def Edge.InRun (line : List Char) (edge : Edge) : Prop :=
  ∃ left, (trimLeft line).takeWhile isIdChar = edge.parent.id ++ (arrow ++ left) ∧
    edge.parent.id ≠ [] ∧ edge.parent.bracket = none ∧
    childInRun? ((trimLeft line).dropWhile isIdChar)
      (Bracket.read? (trimRight ((trimLeft line).dropWhile isIdChar))) left = some edge.child

/-- An edge with its arrow behind the run is a split. -/
theorem Edge.BehindRun.splits {line : List Char} {edge : Edge} (h : edge.BehindRun line) :
    edge.Splits line := by
  obtain ⟨w₁, hw₁, hline⟩ := exists_run line
  obtain ⟨hrun, hne, hproper, w₂, after, hw₂, hchild, hrest⟩ := readAfterRun?_eq_some_iff.mp h
  obtain ⟨hproperChild, hdeclared, w₃, w₄, hw₃, hw₄, rfl⟩ := readChild?_eq_some_iff.mp hchild
  have hparent : IsId edge.parent.id := hrun ▸ ⟨hne, fun c hc => List.mem_takeWhile_imp hc⟩
  refine ⟨⟨hparent, hproper⟩, hproperChild, hdeclared, w₁, w₂, w₃, w₄, hw₁, hw₂, hw₃, hw₄, ?_⟩
  rw [← hrun] at hline
  rw [hline, hrest, Token.text_eq edge.parent, List.append_assoc]

/-- An edge with its arrow in the run is a split. -/
theorem Edge.InRun.splits {line : List Char} {edge : Edge} (h : edge.InRun line) :
    edge.Splits line := by
  obtain ⟨w₁, hw₁, hline⟩ := exists_run line
  obtain ⟨left, hrun, hid, hnone, hread⟩ := h
  have hchars : ∀ c ∈ edge.parent.id ++ (arrow ++ left), isIdChar c = true := fun c hc =>
    List.mem_takeWhile_imp (hrun ▸ hc)
  have hparent : edge.parent.Proper :=
    ⟨⟨hid, fun c hc => hchars c (List.mem_append_left _ hc)⟩, by rw [hnone]; nofun⟩
  have htext : edge.parent.text = edge.parent.id := by
    rw [Token.text_eq, Token.tail, hnone]
    exact List.append_nil _
  have hleft : ∀ c ∈ left, isIdChar c = true := fun c hc =>
    hchars c (List.mem_append_right _ (List.mem_append_right _ hc))
  rcases (childInRun?_eq_some_iff hleft).mp hread with
    ⟨rfl, hread⟩ | ⟨-, rfl, hchild, hdeclared, w₄, hw₄, hrest⟩
  · obtain ⟨hchild, hdeclared, w₃, w₄, hw₃, hw₄, hrest⟩ := readChild?_eq_some_iff.mp hread
    refine ⟨hparent, hchild, hdeclared, w₁, [], w₃, w₄, hw₁, blanks_nil, hw₃, hw₄, ?_⟩
    rw [hline, hrest, hrun, htext]
    simp
  · refine ⟨hparent, hchild, hdeclared, w₁, [], [], w₄, hw₁, blanks_nil, blanks_nil, hw₄, ?_⟩
    rw [hline, hrest, hrun, htext, Token.text_eq edge.child]
    simp

/-- Without a bracket or a blank before it, the arrow is in the run. The id of the child is in
the run as well, unless a blank stands between them. -/
theorem Edge.inRun_of_text {w₁ w₃ w₄ : List Char} {edge : Edge} (hw₁ : Blanks w₁) (hw₃ : Blanks w₃)
    (hw₄ : Blanks w₄) (hparent : edge.parent.Proper) (hbare : edge.parent.bracket = none)
    (hchild : edge.child.Proper) (hdeclared : edge.child.bracket.isSome) :
    edge.InRun (w₁ ++ (edge.parent.id ++ (arrow ++ (w₃ ++ (edge.child.text ++ w₄))))) := by
  cases w₃ with
  | cons c w₃ =>
      have hread : readChild? (c :: w₃ ++ (edge.child.text ++ w₄)) = some edge.child :=
        readChild?_eq_some_iff.mpr ⟨hchild, hdeclared, c :: w₃, w₄, hw₃, hw₄, rfl⟩
      have hrun := run_eq hw₁ (hparent.isId.append isIdChar_arrow)
        (hw₃.isIdChar_head? (edge.child.text ++ w₄))
      rw [List.append_assoc] at hrun
      exact ⟨[], by rw [hrun.1, List.append_nil], hparent.isId.ne_nil, hbare,
        (childInRun?_eq_some_iff (by simp)).mpr (.inl ⟨rfl, by rw [hrun.2]; exact hread⟩)⟩
  | nil =>
      obtain ⟨id, b, hdecl⟩ := Token.exists_eq_of_isSome hdeclared
      have hid : IsId edge.child.id := hchild.isId
      have htail : edge.child.tail = b.text := by rw [hdecl]; rfl
      have hrun := run_eq hw₁ ((hparent.isId.append isIdChar_arrow).append hid.chars)
        (b.isIdChar_head?_text w₄)
      rw [← htail, List.append_assoc, List.append_assoc, List.append_assoc,
        ← List.append_assoc edge.child.id, ← Token.text_eq] at hrun
      rw [List.nil_append]
      exact ⟨edge.child.id, hrun.1, hparent.isId.ne_nil, hbare,
        (childInRun?_eq_some_iff hid.chars).mpr
          (.inr ⟨hid.ne_nil, rfl, hchild, hdeclared, w₄, hw₄, hrun.2⟩)⟩

/-- Behind a bracket or a blank, the arrow is behind the run. -/
theorem Edge.behindRun_of_text {w₁ w₂ after : List Char} {edge : Edge} (hw₁ : Blanks w₁)
    (hw₂ : Blanks w₂) (hparent : edge.parent.Proper)
    (hbehind : ¬ (edge.parent.bracket = none ∧ w₂ = []))
    (hread : readChild? after = some edge.child) :
    edge.BehindRun (w₁ ++ (edge.parent.id ++ (edge.parent.tail ++ (w₂ ++ (arrow ++ after))))) := by
  have hrest : ∀ c ∈ (edge.parent.tail ++ (w₂ ++ (arrow ++ after))).head?,
      isIdChar c = false := by
    cases hbracket : edge.parent.bracket with
    | some b =>
        rw [Token.tail, hbracket]
        exact b.isIdChar_head?_text _
    | none =>
        cases w₂ with
        | nil => exact absurd ⟨hbracket, rfl⟩ hbehind
        | cons c w₂ =>
            rw [Token.tail, hbracket]
            exact hw₂.isIdChar_head? _
  obtain ⟨hrun, hbehindRun⟩ := run_eq hw₁ hparent.isId hrest
  have hne : (trimLeft (w₁ ++ (edge.parent.id ++ (edge.parent.tail ++
      (w₂ ++ (arrow ++ after)))))).takeWhile isIdChar ≠ [] := by
    rw [hrun]
    exact hparent.isId.ne_nil
  exact readAfterRun?_eq_some_iff.mpr ⟨hrun.symm, hne, hparent.bracket, w₂, after, hw₂, hread,
    hbehindRun⟩

/-- The arrow of a split is behind the run of id characters, or it is in the run. -/
theorem Edge.splits_iff {line : List Char} {edge : Edge} :
    edge.Splits line ↔ edge.BehindRun line ∨ edge.InRun line := by
  constructor
  · rintro ⟨hparent, hchild, hdeclared, w₁, w₂, w₃, w₄, hw₁, hw₂, hw₃, hw₄, rfl⟩
    rw [Token.text_eq edge.parent, List.append_assoc]
    by_cases hbehind : edge.parent.bracket = none ∧ w₂ = []
    · obtain ⟨hbare, rfl⟩ := hbehind
      have htail : edge.parent.tail = [] := by
        rw [Token.tail, hbare]
        rfl
      rw [htail, List.nil_append, List.nil_append]
      exact .inr (inRun_of_text hw₁ hw₃ hw₄ hparent hbare hchild hdeclared)
    · have hread : readChild? (w₃ ++ (edge.child.text ++ w₄)) = some edge.child :=
        readChild?_eq_some_iff.mpr ⟨hchild, hdeclared, w₃, w₄, hw₃, hw₄, rfl⟩
      exact .inl (behindRun_of_text hw₁ hw₂ hparent hbehind hread)
  · rintro (hbehind | hin)
    · exact hbehind.splits
    · exact hin.splits

/-- Splits with ids of one length before the arrow are the same. -/
theorem Edge.Splits.unique {line : List Char} {e e' : Edge} (h : e.Splits line)
    (h' : e'.Splits line) (hlen : e.parent.id.length = e'.parent.id.length) : e = e' := by
  have hrun : ∀ {e : Edge}, e.BehindRun line →
      e.parent.id.length = ((trimLeft line).takeWhile isIdChar).length := fun h => by
    rw [(readAfterRun?_eq_some_iff.mp h).1]
  have hshort : ∀ {id left : List Char}, (trimLeft line).takeWhile isIdChar = id ++ (arrow ++ left) →
      id.length + 3 ≤ ((trimLeft line).takeWhile isIdChar).length := fun h => by
    rw [h]
    simp [arrow]
  rcases splits_iff.mp h with hread | ⟨left, hid, -, hnone, hread⟩ <;>
    rcases splits_iff.mp h' with hread' | ⟨left', hid', -, hnone', hread'⟩
  · exact Option.some.inj (hread.symm.trans hread')
  · have hlong := hrun hread
    have hshorter := hshort hid'
    omega
  · have hlong := hrun hread'
    have hshorter := hshort hid
    omega
  · obtain ⟨⟨id, bracket⟩, child⟩ := e
    obtain ⟨⟨id', bracket'⟩, child'⟩ := e'
    obtain ⟨rfl, hafter⟩ := List.append_inj (hid.symm.trans hid') hlen
    obtain rfl := List.append_cancel_left hafter
    obtain rfl : bracket = none := hnone
    obtain rfl : bracket' = none := hnone'
    obtain rfl := Option.some.inj (hread.symm.trans hread')
    rfl

/-- What is read is a split. -/
theorem Edge.splits_of_read? {line : List Char} {edge : Edge} (h : Edge.read? line = some edge) :
    edge.Splits line := by
  rw [splits_iff]
  rw [read?] at h
  split at h
  · next e he => exact .inl (he.trans h)
  · obtain ⟨id, rest, child, hrun, hne, hchild, rfl⟩ := splitRun?_eq_some h
    rw [List.reverse_reverse, List.append_nil] at hrun
    exact .inr ⟨rest, hrun, hne, rfl, hchild⟩

/-- A line that can be split is read, and with an id before the arrow that is no shorter. -/
theorem Edge.Splits.exists_read? {line : List Char} {edge : Edge} (h : edge.Splits line) :
    ∃ found : Edge, Edge.read? line = some found ∧
      edge.parent.id.length ≤ found.parent.id.length := by
  rw [read?]
  cases hafter : readAfterRun? ((trimLeft line).takeWhile isIdChar)
    ((trimLeft line).dropWhile isIdChar) with
  | some found =>
      refine ⟨found, rfl, ?_⟩
      rw [(readAfterRun?_eq_some_iff.mp hafter).1]
      rcases splits_iff.mp h with hread | ⟨left, hrun, -⟩
      · rw [(readAfterRun?_eq_some_iff.mp hread).1]
      · rw [hrun, List.length_append]
        exact Nat.le_add_right ..
  | none =>
      rcases splits_iff.mp h with hread | ⟨left, hrun, hid, -, hchild⟩
      · rw [hread] at hafter
        cases hafter
      · refine exists_splitRun? ?_ hid hchild (Nat.zero_le _)
        rw [List.reverse_reverse, List.append_nil]
        exact hrun

/-- **An edge is read exactly if it is the split of the line with the longest id before the
arrow.** -/
theorem Edge.read?_eq_some_iff {line : List Char} {edge : Edge} :
    Edge.read? line = some edge ↔ edge.IsLongest line := by
  constructor
  · intro h
    refine ⟨splits_of_read? h, fun other hother => ?_⟩
    obtain ⟨found, hfound, hle⟩ := hother.exists_read?
    obtain rfl := Option.some.inj (h.symm.trans hfound)
    exact hle
  · rintro ⟨hsplits, hlongest⟩
    obtain ⟨found, hfound, hle⟩ := hsplits.exists_read?
    have hfoundSplits := splits_of_read? hfound
    rw [hsplits.unique hfoundSplits (Nat.le_antisymm hle (hlongest found hfoundSplits)), hfound]

/-- A line is read as no edge exactly if it cannot be split as one. -/
theorem Edge.read?_eq_none_iff {line : List Char} :
    Edge.read? line = none ↔ ∀ edge : Edge, ¬ edge.Splits line := by
  constructor
  · intro h edge hsplits
    obtain ⟨found, hfound, -⟩ := hsplits.exists_read?
    rw [h] at hfound
    cases hfound
  · intro h
    cases hread : Edge.read? line with
    | none => rfl
    | some edge => exact absurd (splits_of_read? hread) (h edge)

end Ladybug.Flowchart
