import Ladybug.Proofs.Classifying
import Ladybug.Proofs.Respacing

/-!
# Nodes on lines of words

A node that is added to a tree comes from a line of words, and what the game is given of it are
these words with single spaces between them. So the blanks inside its bracket are not those that
were typed. But words are all that declares a node, and so the line does what the game does when
it is given the node as it was typed. There is one difference, which is not in what is done: if
nothing was typed, the line is complained about before the game is asked.

## Main definitions

* `Session.siblingLine` — the line that adds a node beside another one.

## Main results

* `Flowchart.readNode_of_wordsOf` — texts with the same words declare the same nodes.
* `Session.executeLine_siblingLine` — how such a line ends.
* `Session.addSibling_typed` — nodes that are typed against nodes that are given to the game.
-/

namespace Ladybug

open Text Flowchart

/-! ### Words on lines -/

namespace Command

/-- Texts with the same words on lines have the same words. -/
theorem words_eq_of_wordsOf_eq {text other : String} (h : wordsOf text = wordsOf other) :
    words text.toList = words other.toList :=
  List.map_injective_iff.mpr (fun _ _ => String.ofList_inj.mp) h

/-- The words of a text are found again when they are joined. -/
theorem wordsOf_joined (text : String) : wordsOf (" ".intercalate (wordsOf text)) = wordsOf text :=
  wordsOf_intercalate fun _ => isWord_of_mem_wordsOf

end Command

/-- What spells the number of a ladybug is a word. -/
theorem SpellsLadybug.isWord {word : String} {agent : AgentId} (h : SpellsLadybug word agent) :
    Command.IsWord word := by
  obtain ⟨-, sign, digits, hsign, hword, hspells⟩ := h
  have hblank : ∀ c ∈ sign, isBlank c = false := by
    rcases hsign with rfl | rfl <;> exact not_blank_of_all rfl
  refine ⟨fun hempty => hspells.ne_nil ?_, ?_⟩
  · rw [hempty] at hword
    exact (List.append_eq_nil_iff.mp hword.symm).2
  · rw [hword]
    exact List.forall_mem_append.mpr ⟨hblank, hspells.not_blank⟩

/-! ### Nodes with the same words -/

namespace Flowchart

/-- **Texts with the same words declare the same nodes.** -/
theorem readNode_of_wordsOf {text other : String}
    (h : Command.wordsOf text = Command.wordsOf other) (spec : NodeSpec) :
    readNode text = .ok spec ↔ readNode other = .ok spec := by
  have hwords := Command.words_eq_of_wordsOf_eq h
  rw [readNode_eq_ok_iff, readNode_eq_ok_iff]
  exact ⟨fun hdeclared => hdeclared.of_words hwords,
    fun hdeclared => hdeclared.of_words hwords.symm⟩

/-- A text without words declares no node. -/
theorem wordsOf_ne_nil_of_readNode {text : String} {spec : NodeSpec}
    (h : readNode text = .ok spec) : Command.wordsOf text ≠ [] := by
  obtain ⟨b, hid, -, htext, -⟩ := readNode_eq_ok_iff.mp h
  intro hnil
  have hempty := eq_nil_of_words ((words_trim _).trans (List.map_eq_nil_iff.mp hnil))
    (isBlank_getLast?_trim text.toList)
  rw [htext] at hempty
  exact hid.ne_nil (List.append_eq_nil_iff.mp hempty).1

end Flowchart

namespace Game

variable {a : AgentId} {existing node : String} {g g' : Game}

/-- A node is added if it can be read and the tree takes it. -/
theorem addSibling_eq_ok_iff :
    addSibling a existing node g = .ok () g' ↔ ∃ spec, readNode node = .ok spec ∧
      editTree a (fun tree => (tree.addSibling existing spec).map Prod.fst) g = .ok () g' := by
  rw [addSibling]
  cases hread : readNode node with
  | ok spec =>
      rw [bind_of_ok (orFail_of_ok rfl)]
      exact ⟨fun h => ⟨spec, rfl, h⟩, fun ⟨_, hspec, h⟩ => Except.ok.inj hspec ▸ h⟩
  | error error =>
      rw [bind_of_error (orFail_of_error rfl)]
      exact ⟨nofun, fun ⟨_, hspec, _⟩ => nomatch hspec⟩

/-- A node is added, or it is refused and the game is left as it was. -/
theorem addSibling_cases (a : AgentId) (existing node : String) (g : Game) :
    (∃ g', addSibling a existing node g = .ok () g') ∨
      ∃ error, addSibling a existing node g = .error error g := by
  have hends : Ends (addSibling a existing node) g (fun _ _ => True) fun _ g' => g' = g :=
    ends_bind (ends_orFail (fun _ _ => ends_editTree (fun _ _ _ _ _ _ => trivial) fun _ => rfl)
      fun _ _ => rfl)
  rw [Ends] at hends
  cases hadd : addSibling a existing node g with
  | ok answer g' => exact .inl ⟨g', rfl⟩
  | error error g' =>
      rw [hadd] at hends
      exact .inr ⟨error, by rw [hends]⟩

/-- Of two texts with the same words, both are added alike or both are refused. -/
theorem addSibling_of_wordsOf {other : String}
    (h : Command.wordsOf node = Command.wordsOf other) (a : AgentId) (existing : String)
    (g : Game) :
    (∃ g', addSibling a existing node g = .ok () g' ∧ addSibling a existing other g = .ok () g') ∨
      ∃ error error', addSibling a existing node g = .error error g ∧
        addSibling a existing other g = .error error' g := by
  have hsame (g' : Game) :
      addSibling a existing node g = .ok () g' ↔ addSibling a existing other g = .ok () g' := by
    rw [addSibling_eq_ok_iff, addSibling_eq_ok_iff]
    exact exists_congr fun spec => and_congr_left fun _ => readNode_of_wordsOf h spec
  rcases addSibling_cases a existing node g with ⟨g', hadd⟩ | ⟨error, hrefused⟩
  · exact .inl ⟨g', hadd, (hsame g').mp hadd⟩
  · rcases addSibling_cases a existing other g with ⟨g', hadd'⟩ | ⟨error', hrefused'⟩
    · rw [(hsame g').mpr hadd'] at hrefused
      cases hrefused
    · exact .inr ⟨error, error', hrefused, hrefused'⟩

/-- A text without words is refused. -/
theorem addSibling_of_no_words (h : Command.wordsOf node = []) (a : AgentId) (existing : String)
    (g : Game) : ∃ error, addSibling a existing node g = .error error g := by
  rcases addSibling_cases a existing node g with ⟨g', hadd⟩ | hrefused
  · obtain ⟨spec, hread, -⟩ := addSibling_eq_ok_iff.mp hadd
    exact absurd h (wordsOf_ne_nil_of_readNode hread)
  · exact hrefused

end Game

/-! ### Lines that add nodes -/

namespace Session

variable {word existing node : String} {agent : AgentId}

/-- The line that adds a node beside another one. -/
def siblingLine (word existing node : String) : String :=
  " ".intercalate ["add", "sibling", word, existing, node]

/-- The words of the line. -/
theorem wordsOf_siblingLine (hword : Command.IsWord word) (hexisting : Command.IsWord existing)
    (node : String) : Command.wordsOf (siblingLine word existing node) =
      Keyword.addSibling.words ++ word :: existing :: Command.wordsOf node := by
  have hwords : ∀ w ∈ [word, existing], Command.IsWord w :=
    List.forall_mem_cons.mpr ⟨hword, List.forall_mem_singleton.mpr hexisting⟩
  exact Command.wordsOf_intercalate_append (Command.isWord_line .addSibling hwords) node

/-- A command that adds a node ends as the game does. -/
theorem execute_addSibling (files : Source) (agent : AgentId) (existing node : String)
    (s : Session) : execute files (.addSibling agent existing node) s =
      match Game.addSibling agent existing node s.game with
      | .ok () g' => .ok .goOn { s with game := g' }
      | .error error g' => .error (.game error) { s with game := g' } := by
  cases hadd : Game.addSibling agent existing node s.game with
  | ok answer g' =>
      have hplay : play (Game.addSibling agent existing node) s = .ok () { s with game := g' } := by
        rw [play, EStateM.run, hadd]
      rw [execute, bind_of_ok hplay]
      rfl
  | error error g' =>
      have hplay : play (Game.addSibling agent existing node) s =
          .error (.game error) { s with game := g' } := by
        rw [play, EStateM.run, hadd]
      rw [execute, bind_of_error hplay]

/-- A line that adds a node ends as the game does that is given the node as it was typed, except
that it may fail for another reason. -/
theorem executeLine_siblingLine (files : Source) (hagent : SpellsLadybug word agent)
    (hexisting : Command.IsWord existing) (node : String) (s : Session) :
    (∃ g', Game.addSibling agent existing node s.game = .ok () g' ∧
        executeLine files (siblingLine word existing node) s = .ok .goOn { s with game := g' }) ∨
      ∃ error error', Game.addSibling agent existing node s.game = .error error s.game ∧
        executeLine files (siblingLine word existing node) s = .error error' s := by
  have hparse := Command.parse_eq_command (wordsOf_siblingLine hagent.isWord hexisting node)
  by_cases hnil : Command.wordsOf node = []
  · -- The node is missing on the line.
    obtain ⟨error, hrefused⟩ := Game.addSibling_of_no_words hnil agent existing s.game
    rw [hnil] at hparse
    exact .inr ⟨error, _, hrefused, by rw [executeLine, hparse]; rfl⟩
  · rw [(Keyword.Means.addSibling hagent existing hnil).command_eq] at hparse
    rw [executeLine, hparse]
    dsimp only
    rw [execute_addSibling]
    rcases Game.addSibling_of_wordsOf (Command.wordsOf_joined node) agent existing s.game with
      ⟨g', hjoined, hadd⟩ | ⟨error', error, hjoined, hrefused⟩
    · rw [hjoined]
      exact .inl ⟨g', hadd, rfl⟩
    · rw [hjoined]
      exact .inr ⟨error, _, hrefused, rfl⟩

/-- **Splitting a line into words does not change the node that is added.** A text and its words,
joined by single spaces, declare the same nodes. So a line that adds a node to the tree of a
ladybug succeeds exactly if the game adds the node as it was typed, and then the game that results
is all that has changed. Otherwise nothing changes on either side. -/
theorem addSibling_typed :
    (∀ text spec, readNode (" ".intercalate (Command.wordsOf text)) = .ok spec ↔
      readNode text = .ok spec) ∧
    ∀ files word agent existing, SpellsLadybug word agent → Command.IsWord existing →
      ∀ node (s : Session),
        (∀ flow s', executeLine files (siblingLine word existing node) s = .ok flow s' ↔
          flow = .goOn ∧ ∃ g', Game.addSibling agent existing node s.game = .ok () g' ∧
            s' = { s with game := g' }) ∧
        (left (executeLine files (siblingLine word existing node)) s).game =
          s.game.after (.addSibling agent existing node) := by
  refine ⟨fun text spec => readNode_of_wordsOf (Command.wordsOf_joined text) spec, ?_⟩
  intro files word agent existing hagent hexisting node s
  rcases executeLine_siblingLine files hagent hexisting node s with
    ⟨g', hadd, hline⟩ | ⟨error, error', hadd, hline⟩
  · rw [left, hline, Game.after, Game.Operation.run, hadd]
    refine ⟨fun flow s' => ⟨fun h => ?_, ?_⟩, rfl⟩
    · obtain ⟨rfl, rfl⟩ := EStateM.Result.ok.inj h
      exact ⟨rfl, g', rfl, rfl⟩
    · rintro ⟨rfl, _, hg', rfl⟩
      obtain ⟨-, rfl⟩ := EStateM.Result.ok.inj hg'
      rfl
  · rw [left, hline, Game.after, Game.Operation.run, hadd]
    refine ⟨fun flow s' => ⟨fun h => ?_, ?_⟩, rfl⟩
    · cases h
    · rintro ⟨-, _, hno, -⟩
      cases hno

/-- A node with blanks of several kinds in its bracket is added by a line. -/
theorem addSibling_typed_path :
    let g := (Game.new.after (.loadBoard [">v"])).after
      (.loadTrees ["flowchart TD", "A[->] --> B[turnLeft]"])
    let node := "C([ existsPath\t1 ,\u00a01,3,  4 ])"
    let s : Session := ⟨g, .unlimited, ""⟩
    let files : Source := fun _ => .error "no such file"
    SpellsLadybug "+01" .first ∧ Command.IsWord "B" ∧
      readNode (" ".intercalate (Command.wordsOf node)) =
        .ok ⟨"C", .condition (.pathBetween ⟨0, 0⟩ ⟨2, 3⟩)⟩ ∧
      ∃ g', Game.addSibling .first "B" node g = .ok () g' ∧
        executeLine files (siblingLine "+01" "B" node) s = .ok .goOn { s with game := g' } := by
  intro g node s files
  obtain ⟨hnodes, hlines⟩ := addSibling_typed
  have hagent : SpellsLadybug "+01" .first := readLadybug_eq_ok_iff.mp (by decide)
  have hexisting : Command.IsWord "B" := ⟨by decide, Command.forall_of_all (by decide)⟩
  have hread : readNode node = .ok ⟨"C", .condition (.pathBetween ⟨0, 0⟩ ⟨2, 3⟩)⟩ := by
    decide +kernel
  have hadded : (Game.addSibling .first "B" node).run' g = some () := by decide +kernel
  obtain ⟨g', hadd⟩ : ∃ g', Game.addSibling .first "B" node g = .ok () g' := by
    rcases Game.addSibling_cases .first "B" node g with hdone | ⟨error, hrefused⟩
    · exact hdone
    · rw [Game.run'_of_error hrefused] at hadded
      cases hadded
  refine ⟨hagent, hexisting, (hnodes _ _).mpr hread, g', hadd, ?_⟩
  exact ((hlines files _ _ _ hagent hexisting node s).1 _ _).mpr ⟨rfl, g', hadd, rfl⟩

end Session

end Ladybug
