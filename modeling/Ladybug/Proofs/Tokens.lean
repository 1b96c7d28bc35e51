import Ladybug.Proofs.EdgeLines
import Ladybug.Proofs.Legible

/-!
# Tokens

A token is read from a whole text, and it is the only one with that text: the id ends at the
first character that cannot be part of one, and a bracket at the first character that closes
it. So the two sides of an edge keep their meaning when they are cut out of their line and read
again, and so does a node whose token is written anew from its kind. Of a line that can be
split as an edge in several ways, the block takes the one with the longest id before the arrow.

## Main definitions

* `NodeSpec.DeclaredBy` — the texts that declare a node by themselves.

## Main results

* `Token.read?_eq_some_iff` — a token is read from its own text and from no other.
* `Edge.read?_longest` — lines that are edges are recognised, and split at the longest id.
* `readNode_canonical` — what declares a node, and that kinds are written in a form of their own.
-/

namespace Ladybug

open Text Flowchart

/-- The text declares the node: up to blanks at its ends it is the id and a bracket, and the
bracket says the kind. -/
def NodeSpec.DeclaredBy (spec : NodeSpec) (text : List Char) : Prop :=
  ∃ b : Bracket, IsId spec.id.toList ∧ b.Proper ∧ trim text = spec.id.toList ++ b.text ∧
    Says b.round (trim b.inner) spec.kind

namespace Flowchart

/-! ### Whole tokens -/

/-- A bare id is read back. -/
theorem Token.read?_id {id : List Char} (h : IsId id) : Token.read? id = some ⟨id, none⟩ := by
  have htake : (id ++ []).takeWhile isIdChar = id := takeWhile_append h.chars nofun
  have hdrop : (id ++ []).dropWhile isIdChar = [] := dropWhile_append h.chars nofun
  rw [List.append_nil] at htake hdrop
  obtain ⟨c, cs, rfl⟩ := List.exists_cons_of_ne_nil h.ne_nil
  rw [read?, htake, hdrop]

/-- A token is read from its own text and from no other. -/
theorem Token.read?_eq_some_iff {cs : List Char} {token : Token} :
    Token.read? cs = some token ↔ token.Proper ∧ cs = token.text := by
  constructor
  · intro h
    obtain ⟨hid, hbracket, htext⟩ := read?_eq_some h
    exact ⟨⟨hid, hbracket⟩, htext⟩
  · rintro ⟨⟨hid, hbracket⟩, rfl⟩
    obtain ⟨id, bracket⟩ := token
    cases bracket with
    | none =>
        rw [Token.text, Option.map_none, Option.getD_none, List.append_nil]
        exact read?_id hid
    | some b => exact read?_text hid (hbracket b rfl)

/-! ### Edges -/

/-- **Lines that are edges are recognised, and split at the longest id.** A line is read as an
edge exactly if it can be split into the parts of one. What is read is the split whose id before
the arrow is longer than that of any other split. Both sides, cut out of the line, are read again
as the same tokens, and they are no texts of other tokens. This is the edge that a block adds. -/
theorem Edge.read?_longest (line : List Char) :
    ((Edge.read? line).isSome ↔ ∃ edge : Edge, edge.Splits line) ∧
      (∀ edge : Edge, Edge.read? line = some edge ↔
        edge.Splits line ∧ ∀ other : Edge, other.Splits line → other ≠ edge →
          other.parent.id.length < edge.parent.id.length) ∧
      ∀ edge : Edge, Edge.read? line = some edge →
        (∀ token : Token, Token.read? edge.parent.text = some token ↔ token = edge.parent) ∧
          (∀ token : Token, Token.read? edge.child.text = some token ↔ token = edge.child) ∧
          ∀ b : Block, b.readLine line = b.addEdge edge := by
  have hresplit {token : Token} (h : token.Proper) (token' : Token) :
      Token.read? token.text = some token' ↔ token' = token := by
    rw [Token.read?_eq_some_iff.mpr ⟨h, rfl⟩, Option.some_inj, eq_comm]
  refine ⟨⟨fun h => ?_, fun ⟨edge, h⟩ => ?_⟩, fun edge => ⟨fun h => ?_, fun ⟨h, hlonger⟩ => ?_⟩,
    fun edge h => ?_⟩
  · obtain ⟨edge, hread⟩ := Option.isSome_iff_exists.mp h
    exact ⟨edge, splits_of_read? hread⟩
  · obtain ⟨found, hread, -⟩ := h.exists_read?
    exact hread ▸ rfl
  · obtain ⟨hsplits, hlongest⟩ := read?_eq_some_iff.mp h
    refine ⟨hsplits, fun other hother hne => ?_⟩
    exact Nat.lt_of_le_of_ne (hlongest other hother) fun hlen => hne (hother.unique hsplits hlen)
  · refine read?_eq_some_iff.mpr ⟨h, fun other hother => ?_⟩
    by_cases heq : other = edge
    · rw [heq]
    · exact Nat.le_of_lt (hlonger other hother heq)
  · have hsplits := splits_of_read? h
    exact ⟨hresplit hsplits.parent, hresplit hsplits.child, fun b => by rw [Block.readLine, h]⟩

/-- Of two arrows without blanks around them, the second one counts. -/
theorem Edge.read?_longest_of_two :
    Edge.read? "A-->B-->C[move]".toList =
        some ⟨⟨"A-->B".toList, none⟩, ⟨"C".toList, some ⟨false, "move".toList⟩⟩⟩ ∧
      Edge.Splits "A-->B-->C[move]".toList
        ⟨⟨"A".toList, none⟩, ⟨"B-->C".toList, some ⟨false, "move".toList⟩⟩⟩ ∧
      ∀ b : Block, b.readLine "A-->B-->C[move]".toList =
        b.addEdge ⟨⟨"A-->B".toList, none⟩, ⟨"C".toList, some ⟨false, "move".toList⟩⟩⟩ := by
  have hread : Edge.read? "A-->B-->C[move]".toList =
      some ⟨⟨"A-->B".toList, none⟩, ⟨"C".toList, some ⟨false, "move".toList⟩⟩⟩ := by decide
  have hid {cs : List Char} (hne : cs ≠ []) (h : cs.all isIdChar = true) : IsId cs :=
    ⟨hne, List.all_eq_true.mp h⟩
  refine ⟨hread, ⟨⟨hid (by decide) (by decide), nofun⟩, ⟨hid (by decide) (by decide), ?_⟩, rfl,
    [], [], [], [], blanks_nil, blanks_nil, blanks_nil, blanks_nil, rfl⟩,
    ((Edge.read?_longest _).2.2 _ hread).2.2⟩
  rintro b hb
  obtain rfl := Option.some.inj hb
  exact ⟨by decide, by decide⟩

/-! ### Nodes by themselves -/

/-- What declares a node by itself is an id and a bracket that says its kind. -/
theorem readNode_eq_ok_iff {text : String} {spec : NodeSpec} :
    readNode text = .ok spec ↔ spec.DeclaredBy text.toList := by
  constructor
  · intro h
    obtain ⟨id, b, kind, htoken, hkind, rfl⟩ := exists_token_of_readNode h
    obtain ⟨⟨hid, hbracket⟩, htext⟩ := Token.read?_eq_some_iff.mp htoken
    refine ⟨b, ?_, hbracket b rfl, ?_, Bracket.kind_eq_ok_iff.mp hkind⟩
    · rw [String.toList_ofList]
      exact hid
    · rw [String.toList_ofList]
      exact htext
  · rintro ⟨b, hid, hb, htext, hsays⟩
    simp only [readNode, readSpec, htext, Token.read?_text hid hb,
      Bracket.kind_eq_ok_iff.mpr hsays, String.ofList_toList]
    rfl

/-- A legible node is declared by its id and the form in which its kind is written. -/
theorem readNode_representation {spec : NodeSpec} (h : spec.Legible) :
    readNode (spec.id ++ spec.kind.representation) = .ok spec := by
  have hnone : ∀ c ∈ ([] : List Char), isBlank c = true := nofun
  have htrim := trim_append_declared hnone h.isId (Bracket.ofKind spec.kind)
  refine readNode_eq_ok_iff.mpr ⟨Bracket.ofKind spec.kind, h.isId, Bracket.proper_ofKind _, ?_,
    Bracket.kind_eq_ok_iff.mp (Bracket.kind_ofKind h.writable)⟩
  rw [String.toList_append, ← Bracket.text_ofKind]
  exact htrim

/-- **Nodes are declared by an id and a bracket, and kinds are written in a form of their own.** A
text declares a node by itself exactly if it consists of an id and a bracket that says the kind,
with nothing but blanks around them. Every kind that can be written is declared, behind any id, by
the form in which it is written, and so a node that was read stays the same when it is written in
that form and read again. -/
theorem readNode_canonical :
    (∀ (text : String) (spec : NodeSpec),
        readNode text = .ok spec ↔ spec.DeclaredBy text.toList) ∧
      (∀ (id : String) (kind : NodeKind), IsId id.toList → kind.Writable →
        readNode (id ++ kind.representation) = .ok ⟨id, kind⟩) ∧
      ∀ (text : String) (spec : NodeSpec), readNode text = .ok spec →
        readNode (spec.id ++ spec.kind.representation) = .ok spec := by
  refine ⟨fun _ _ => readNode_eq_ok_iff, fun id kind hid hkind => ?_, fun text spec hread => ?_⟩
  · have hlegible : NodeSpec.Legible ⟨id, kind⟩ := ⟨hid, hkind⟩
    have hread := readNode_representation hlegible
    exact hread
  · exact readNode_representation (legible_of_readNode hread)

/-- Two positions with a comma between them are written anew with a space. -/
theorem readNode_canonical_path :
    readNode " é]([ existsPath\t1 ,1,3, -03 ]) " =
        .ok ⟨"é]", .condition (.pathBetween ⟨0, 0⟩ ⟨2, -4⟩)⟩ ∧
      (NodeKind.condition (.pathBetween ⟨0, 0⟩ ⟨2, -4⟩)).representation =
        "([existsPath 1,1 3,-3])" ∧
      readNode ("é]" ++ (NodeKind.condition (.pathBetween ⟨0, 0⟩ ⟨2, -4⟩)).representation) =
        .ok ⟨"é]", .condition (.pathBetween ⟨0, 0⟩ ⟨2, -4⟩)⟩ := by
  have hread : readNode " é]([ existsPath\t1 ,1,3, -03 ]) " =
      .ok ⟨"é]", .condition (.pathBetween ⟨0, 0⟩ ⟨2, -4⟩)⟩ := by decide +kernel
  exact ⟨hread, by decide +kernel, readNode_canonical.2.2 _ _ hread⟩

end Flowchart

end Ladybug
