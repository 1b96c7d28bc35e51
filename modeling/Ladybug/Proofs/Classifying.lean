import Ladybug.Proofs.PairLists
import Ladybug.Proofs.Preloading

/-!
# What a line of words is taken for

Every line is taken for exactly one thing. It may begin with a keyword, and if it does, the number
of words behind the keyword decides first: if it is wrong, nothing is said about these words. Only
if the number is right and the command is about a ladybug, the first of them must be the number
of one. Lines that begin with no keyword are unknown, and the complaint repeats them.

All this depends on the words of the line alone. The complaint about an unknown line is the only
thing to show the blanks, and of these only the ones between words.

The reader finds the keyword in a table and leaves it to one match to tell right arguments from
wrong ones. What it is measured against says for each keyword how many arguments it takes, and
which command is meant by them, without a word about what happens otherwise.

## Main definitions

* `Keyword.Takes` and `Keyword.NamesLadybug` — the arguments that go with a keyword.
* `SpellsLadybug` — the words that are numbers of ladybugs.
* `Keyword.Means` — the command that is meant by a keyword with arguments.
* `Command.TakenFor` — what a line is taken for.
* `Command.Writable` and `Command.typed` — the commands that can be typed, and how.

## Main results

* `readLadybug_eq_ok_iff` — the numbers that are read.
* `Command.exists_takenFor` — every line is taken for something.
* `Command.parse_classifies` — what is read from a line is what the line is taken for.
-/

namespace Ladybug

open Text

/-! ### Numbers of ladybugs -/

/-- The ladybug has a number that can be written: a positive one of at most 32 bits. -/
def AgentId.Writable (agent : AgentId) : Prop := 0 < agent.number ∧ agent.number ≤ maxLadybug

instance (agent : AgentId) : Decidable agent.Writable :=
  inferInstanceAs (Decidable (0 < agent.number ∧ agent.number ≤ maxLadybug))

/-- The word is the number of the ladybug in decimal digits, perhaps with zeros in front and
behind a plus sign. -/
structure SpellsLadybug (word : String) (agent : AgentId) : Prop where
  writable : agent.Writable
  digits : ∃ sign digits, (sign = [] ∨ sign = ['+']) ∧ word.toList = sign ++ digits ∧
    Flowchart.SpellsNat digits agent.number

/-- What stands behind a plus sign, or the whole text if it does not start with one. -/
def behindPlus : List Char → List Char
  | '+' :: rest => rest
  | cs => cs

/-- The number is read behind the plus sign. -/
theorem readLadybug_eq (word : String) :
    readLadybug word =
      match readDigits? (behindPlus word.toList) with
      | some n => if 0 < n ∧ n ≤ maxLadybug then .ok ⟨n⟩ else .error (.invalidLadybug word)
      | none => .error (.invalidLadybug word) :=
  rfl

/-- A text is a plus sign with something behind it, or it is taken as it is. -/
theorem exists_sign_append (cs : List Char) :
    ∃ sign, (sign = [] ∨ sign = ['+']) ∧ cs = sign ++ behindPlus cs := by
  rw [behindPlus.eq_def]
  split
  · exact ⟨['+'], .inr rfl, rfl⟩
  · exact ⟨[], .inl rfl, rfl⟩

/-- Digits do not start with a plus sign of their own. -/
theorem behindPlus_append {sign digits : List Char} {n : Nat} (hsign : sign = [] ∨ sign = ['+'])
    (h : Flowchart.SpellsNat digits n) : behindPlus (sign ++ digits) = digits := by
  rcases hsign with rfl | rfl
  · obtain ⟨c, cs, rfl⟩ := List.exists_cons_of_ne_nil h.ne_nil
    have hplus : c ≠ '+' := ne_of_isDigit (h.digits c List.mem_cons_self) (by decide)
    exact behindPlus.eq_2 _ fun rest heq => hplus (List.cons.inj heq).1
  · rfl

/-- **The numbers that are read are the ones that are spelled.** -/
theorem readLadybug_eq_ok_iff {word : String} {agent : AgentId} :
    readLadybug word = .ok agent ↔ SpellsLadybug word agent := by
  rw [readLadybug_eq]
  constructor
  · intro h
    obtain ⟨sign, hsign, hword⟩ := exists_sign_append word.toList
    split at h
    · next n hn =>
      split at h
      · next hrange =>
        obtain rfl := Except.ok.inj h
        exact ⟨hrange, sign, _, hsign, hword, Flowchart.readDigits?_eq_some_iff.mp hn⟩
      · cases h
    · cases h
  · rintro ⟨hrange, sign, digits, hsign, hword, hspells⟩
    rw [hword, behindPlus_append hsign hspells, Flowchart.readDigits?_eq_some_iff.mpr hspells]
    exact if_pos hrange

/-- Any other word is complained about. -/
theorem readLadybug_eq_error {word : String} (h : ∀ agent, ¬ SpellsLadybug word agent) :
    readLadybug word = .error (.invalidLadybug word) := by
  have hnot (agent : AgentId) : readLadybug word ≠ .ok agent :=
    fun hread => h agent (readLadybug_eq_ok_iff.mp hread)
  rw [readLadybug_eq] at hnot ⊢
  split
  · next n hn =>
    rw [hn] at hnot
    exact if_neg fun hrange => hnot ⟨n⟩ (if_pos hrange)
  · rfl

/-- The number of a ladybug, written without zeros in front, is a word that spells it. -/
theorem spellsLadybug_text {agent : AgentId} (h : agent.Writable) :
    SpellsLadybug agent.text agent :=
  ⟨h, [], digitsOf agent.number, .inl rfl, toList_toString_nat agent.number,
    digitsOf_ne_nil _, fun _ hc => isDigit_of_mem_digitsOf hc, digitsValue_digitsOf _⟩

/-! ### Keywords and arguments -/

namespace Keyword

/-- Commands with this keyword take so many arguments. -/
def Takes : Keyword → Nat → Prop
  | listLadybugs, n | nextAction, n | printBoard, n | quit, n => n = 0
  | loadBoard, n | printPosition, n | head, n | resetTree, n => n = 1
  | jumpTo, n => n = 2
  | loadTrees, n => 1 ≤ n
  | addSibling, n => 3 ≤ n

/-- Commands with this keyword are about a ladybug, which is their first argument. -/
def NamesLadybug : Keyword → Prop
  | printPosition | head | resetTree | jumpTo | addSibling => True
  | _ => False

/-- The command is the one that is meant by the keyword with these arguments. -/
inductive Means : Keyword → List String → Command → Prop
  | loadBoard (path : String) : Means loadBoard [path] (.loadBoard path)
  | loadTrees {paths : List String} (hne : paths ≠ []) : Means loadTrees paths (.loadTrees paths)
  | listLadybugs : Means listLadybugs [] .listLadybugs
  | nextAction : Means nextAction [] .nextAction
  | printPosition {word : String} {agent : AgentId} (h : SpellsLadybug word agent) :
      Means printPosition [word] (.printPosition agent)
  | printBoard : Means printBoard [] .printBoard
  | head {word : String} {agent : AgentId} (h : SpellsLadybug word agent) :
      Means head [word] (.head agent)
  | resetTree {word : String} {agent : AgentId} (h : SpellsLadybug word agent) :
      Means resetTree [word] (.resetTree agent)
  | jumpTo {word : String} {agent : AgentId} (h : SpellsLadybug word agent) (node : String) :
      Means jumpTo [word, node] (.jumpTo agent node)
  | addSibling {word : String} {agent : AgentId} (h : SpellsLadybug word agent)
      (existing : String) {ws : List String} (hne : ws ≠ []) :
      Means addSibling (word :: existing :: ws) (.addSibling agent existing (" ".intercalate ws))
  | quit : Means quit [] .quit

variable {keyword : Keyword} {arguments : List String} {command : Command}

/-- What is meant is read. -/
theorem Means.command_eq (h : keyword.Means arguments command) :
    keyword.command arguments = .ok command := by
  cases h with
  | loadBoard path => rfl
  | loadTrees hne =>
      obtain ⟨path, paths, rfl⟩ := List.exists_cons_of_ne_nil hne
      rfl
  | listLadybugs | nextAction | printBoard | quit => rfl
  | printPosition h | head h | resetTree h | jumpTo h =>
      rw [Keyword.command, readLadybug_eq_ok_iff.mpr h]
      rfl
  | addSibling h existing hne =>
      obtain ⟨w, ws, rfl⟩ := List.exists_cons_of_ne_nil hne
      rw [Keyword.command, readLadybug_eq_ok_iff.mpr h]
      rfl

/-- If the number of arguments is wrong, the answer is how the command is written. -/
theorem command_of_not_takes (h : ¬ keyword.Takes arguments.length) :
    keyword.command arguments = .error (.usage keyword.usage) := by
  rw [Keyword.command.eq_def]
  -- In all cases but the last one the number is right.
  split
  case h_12 => rfl
  all_goals exact absurd (by simp [Takes]) h

/-- If it is right, but the first argument should be the number of a ladybug and is none, this is
complained about. -/
theorem command_of_not_spells {word : String} (hnames : keyword.NamesLadybug)
    (htakes : keyword.Takes (word :: arguments).length)
    (h : ∀ agent, ¬ SpellsLadybug word agent) :
    keyword.command (word :: arguments) = .error (.invalidLadybug word) := by
  have hread := readLadybug_eq_error h
  cases keyword with
  | printPosition | head | resetTree =>
      obtain rfl : arguments = [] := by simpa [Takes] using htakes
      rw [Keyword.command, hread]
      rfl
  | jumpTo =>
      obtain ⟨node, rfl⟩ : ∃ node, arguments = [node] := by
        simpa [Takes, List.length_eq_one_iff] using htakes
      rw [Keyword.command, hread]
      rfl
  | addSibling =>
      match arguments, htakes with
      | existing :: w :: ws, _ =>
        rw [Keyword.command, hread]
        rfl
  | loadBoard | loadTrees | listLadybugs | nextAction | printBoard | quit => cases hnames

/-- If it is right, a command is meant, unless the first argument is no number of a ladybug. -/
theorem exists_means (htakes : keyword.Takes arguments.length)
    (h : keyword.NamesLadybug → ∀ word rest, arguments = word :: rest →
      ∃ agent, SpellsLadybug word agent) :
    ∃ command, keyword.Means arguments command := by
  cases keyword with
  | listLadybugs | nextAction | printBoard | quit =>
      obtain rfl := List.eq_nil_of_length_eq_zero htakes
      exact ⟨_, by constructor⟩
  | loadBoard =>
      obtain ⟨path, rfl⟩ := List.length_eq_one_iff.mp htakes
      exact ⟨_, .loadBoard path⟩
  | loadTrees => exact ⟨_, .loadTrees (List.ne_nil_of_length_pos htakes)⟩
  | printPosition | head | resetTree =>
      obtain ⟨word, rfl⟩ := List.length_eq_one_iff.mp htakes
      obtain ⟨agent, hagent⟩ := h trivial word [] rfl
      exact ⟨_, by constructor; exact hagent⟩
  | jumpTo =>
      obtain ⟨word, node, rfl⟩ := List.length_eq_two.mp htakes
      obtain ⟨agent, hagent⟩ := h trivial word [node] rfl
      exact ⟨_, .jumpTo hagent node⟩
  | addSibling =>
      match arguments, htakes with
      | word :: existing :: w :: ws, _ =>
        obtain ⟨agent, hagent⟩ := h trivial word (existing :: w :: ws) rfl
        exact ⟨_, .addSibling hagent existing (List.cons_ne_nil w ws)⟩

end Keyword

/-! ### Lines -/

namespace Command

/-- What a line is taken for: the words that it begins with, the number of those that follow, and
the first of these decide, in this order. -/
inductive TakenFor (line : String) : Except ConsoleError Command → Prop
  | command {keyword : Keyword} {arguments : List String} {command : Command}
      (hline : wordsOf line = keyword.words ++ arguments) (h : keyword.Means arguments command) :
      TakenFor line (.ok command)
  | invalidLadybug {keyword : Keyword} {word : String} {rest : List String}
      (hline : wordsOf line = keyword.words ++ word :: rest) (hnames : keyword.NamesLadybug)
      (htakes : keyword.Takes (word :: rest).length) (h : ∀ agent, ¬ SpellsLadybug word agent) :
      TakenFor line (.error (.invalidLadybug word))
  | usage {keyword : Keyword} {arguments : List String}
      (hline : wordsOf line = keyword.words ++ arguments)
      (h : ¬ keyword.Takes arguments.length) : TakenFor line (.error (.usage keyword.usage))
  | unknownCommand (h : ∀ keyword : Keyword, ¬ keyword.words <+: wordsOf line) :
      TakenFor line (.error (.unknownCommand (String.ofList (trim line.toList))))

variable {line : String} {outcome : Except ConsoleError Command} {command : Command}

/-- A line that begins with a keyword is read as such. -/
theorem parse_eq_command {keyword : Keyword} {arguments : List String}
    (h : wordsOf line = keyword.words ++ arguments) : parse line = keyword.command arguments := by
  rw [parse, h, ofWords?_append]

/-- A line that begins with no keyword is unknown. -/
theorem parse_eq_unknown (h : ∀ keyword : Keyword, ¬ keyword.words <+: wordsOf line) :
    parse line = .error (.unknownCommand (String.ofList (trim line.toList))) := by
  have hnone : Keyword.all.find? (fun keyword => keyword.words.isPrefixOf (wordsOf line)) = none :=
    List.find?_eq_none.mpr fun keyword _ hprefix =>
      h keyword (List.isPrefixOf_iff_prefix.mp hprefix)
  rw [parse, Keyword.ofWords?, hnone]
  rfl

/-- What a line is taken for is read from it. -/
theorem TakenFor.parse_eq (h : TakenFor line outcome) : parse line = outcome := by
  cases h with
  | command hline h => rw [parse_eq_command hline, h.command_eq]
  | invalidLadybug hline hnames htakes h =>
      rw [parse_eq_command hline, Keyword.command_of_not_spells hnames htakes h]
  | usage hline h => rw [parse_eq_command hline, Keyword.command_of_not_takes h]
  | unknownCommand h => exact parse_eq_unknown h

/-- **Every line is taken for something.** -/
theorem exists_takenFor (line : String) : ∃ outcome, TakenFor line outcome := by
  by_cases hprefix : ∃ keyword : Keyword, keyword.words <+: wordsOf line
  · obtain ⟨keyword, arguments, hline⟩ := hprefix
    by_cases htakes : keyword.Takes arguments.length
    · by_cases hspells : keyword.NamesLadybug → ∀ word rest, arguments = word :: rest →
          ∃ agent, SpellsLadybug word agent
      · obtain ⟨command, hmeans⟩ := Keyword.exists_means htakes hspells
        exact ⟨_, .command hline.symm hmeans⟩
      · push Not at hspells
        obtain ⟨hnames, word, rest, rfl, hnot⟩ := hspells
        exact ⟨_, .invalidLadybug hline.symm hnames htakes hnot⟩
    · exact ⟨_, .usage hline.symm htakes⟩
  · exact ⟨_, .unknownCommand fun keyword h => hprefix ⟨keyword, h⟩⟩

/-- **What is read from a line is what it is taken for.** -/
theorem parse_eq_iff_takenFor : parse line = outcome ↔ TakenFor line outcome := by
  refine ⟨fun h => ?_, TakenFor.parse_eq⟩
  obtain ⟨outcome', h'⟩ := exists_takenFor line
  rwa [← h, h'.parse_eq]

/-- Apart from the text that is complained about, only the words of a line count. -/
theorem parse_of_wordsOf_eq {other : String} (h : wordsOf other = wordsOf line) :
    parse other = parse line ∨
      parse other = .error (.unknownCommand (String.ofList (trim other.toList))) ∧
        parse line = .error (.unknownCommand (String.ofList (trim line.toList))) := by
  by_cases hprefix : ∃ keyword : Keyword, keyword.words <+: wordsOf line
  · obtain ⟨keyword, arguments, hline⟩ := hprefix
    rw [parse_eq_command hline.symm, parse_eq_command (h.trans hline.symm)]
    exact .inl rfl
  · have hnot (keyword : Keyword) : ¬ keyword.words <+: wordsOf line :=
      fun hline => hprefix ⟨keyword, hline⟩
    exact .inr ⟨parse_eq_unknown (h ▸ hnot), parse_eq_unknown hnot⟩

/-! ### Commands on lines -/

/-- The keyword of a command. -/
def keyword : Command → Keyword
  | loadBoard _ => .loadBoard
  | loadTrees _ => .loadTrees
  | listLadybugs => .listLadybugs
  | nextAction => .nextAction
  | printPosition _ => .printPosition
  | printBoard => .printBoard
  | head _ => .head
  | resetTree _ => .resetTree
  | jumpTo _ _ => .jumpTo
  | addSibling _ _ _ => .addSibling
  | quit => .quit

/-- The arguments of a command as they are written. -/
def arguments : Command → List String
  | loadBoard path => [path]
  | loadTrees paths => paths
  | printPosition agent | head agent | resetTree agent => [agent.text]
  | jumpTo agent node => [agent.text, node]
  | addSibling agent existing node => [agent.text, existing, node]
  | listLadybugs | nextAction | printBoard | quit => []

/-- The command as it is typed, with single spaces between the words. -/
def typed (command : Command) : String :=
  " ".intercalate (command.keyword.words ++ command.arguments)

/-- The command can be typed. Its files and nodes must be words, of which a list of
trees needs at least one. A node that is added may consist of several words with single spaces
between them. -/
def Writable : Command → Prop
  | loadBoard path => IsWord path
  | loadTrees paths => paths ≠ [] ∧ ∀ path ∈ paths, IsWord path
  | printPosition agent | head agent | resetTree agent => agent.Writable
  | jumpTo agent node => agent.Writable ∧ IsWord node
  | addSibling agent existing node => agent.Writable ∧ IsWord existing ∧
      ∃ ws, ws ≠ [] ∧ (∀ word ∈ ws, IsWord word) ∧ node = " ".intercalate ws
  | listLadybugs | nextAction | printBoard | quit => True

/-- The words of a line are words. -/
theorem isWord_of_mem_wordsOf {word : String} (h : word ∈ wordsOf line) : IsWord word := by
  obtain ⟨w, hw, rfl⟩ := List.mem_map.mp h
  obtain ⟨hne, hblank⟩ := of_mem_words hw
  refine ⟨fun hempty => hne ?_, by rwa [String.toList_ofList]⟩
  rw [← String.toList_ofList (l := w), hempty]
  rfl

/-- The number of a ladybug is a word. -/
theorem isWord_text (agent : AgentId) : IsWord agent.text := by
  have hdigits : agent.text.toList = digitsOf agent.number := toList_toString_nat agent.number
  refine ⟨fun hempty => digitsOf_ne_nil agent.number ?_, fun c hc => ?_⟩
  · rw [← hdigits, hempty]
    rfl
  · rw [hdigits] at hc
    exact isBlank_of_isDigit (isDigit_of_mem_digitsOf hc)

/-- Words in front of a text are found before its own ones. -/
theorem wordsOf_intercalate_append {ws : List String} (h : ∀ word ∈ ws, IsWord word)
    (text : String) : wordsOf (" ".intercalate (ws ++ [text])) = ws ++ wordsOf text := by
  induction ws with
  | nil => rw [List.nil_append, String.intercalate_singleton, List.nil_append]
  | cons word ws ih =>
      obtain ⟨hword, hws⟩ := List.forall_mem_cons.mp h
      have hne : word.toList ≠ [] := fun hnil => hword.1 (String.toList_injective hnil)
      obtain ⟨w, rest, hrest⟩ := List.exists_cons_of_ne_nil
        (List.append_ne_nil_of_right_ne_nil ws (List.cons_ne_nil text []))
      have hsplit : (" ".intercalate (word :: ws ++ [text])).toList =
          word.toList ++ ' ' :: (" ".intercalate (ws ++ [text])).toList := by
        rw [List.cons_append, hrest, String.intercalate_cons_cons, String.toList_append,
          String.toList_append, List.append_assoc]
        rfl
      rw [wordsOf, hsplit, words_append hne hword.2 (by decide), List.map_cons,
        String.ofList_toList, List.cons_append, ← ih hws, wordsOf]

/-- A command that can be typed is meant by the words that are typed. -/
theorem Writable.exists_words (h : command.Writable) :
    ∃ arguments, wordsOf command.typed = command.keyword.words ++ arguments ∧
      command.keyword.Means arguments command := by
  have htyped {keyword : Keyword} {arguments : List String}
      (harguments : ∀ word ∈ arguments, IsWord word) :
      wordsOf (" ".intercalate (keyword.words ++ arguments)) = keyword.words ++ arguments :=
    wordsOf_intercalate (isWord_line keyword harguments)
  cases command with
  | loadBoard path => exact ⟨[path], htyped (List.forall_mem_singleton.mpr h), .loadBoard path⟩
  | loadTrees paths => exact ⟨paths, htyped h.2, .loadTrees h.1⟩
  | listLadybugs | nextAction | printBoard | quit => exact ⟨[], htyped nofun, by constructor⟩
  | printPosition agent | head agent | resetTree agent =>
      exact ⟨[agent.text], htyped (List.forall_mem_singleton.mpr (isWord_text agent)),
        by constructor; exact spellsLadybug_text h⟩
  | jumpTo agent node =>
      refine ⟨[agent.text, node], htyped ?_, .jumpTo (spellsLadybug_text h.1) node⟩
      exact List.forall_mem_cons.mpr ⟨isWord_text agent, List.forall_mem_singleton.mpr h.2⟩
  | addSibling agent existing node =>
      obtain ⟨hagent, hexisting, ws, hne, hws, rfl⟩ := h
      have hfirst : ∀ word ∈ [agent.text, existing], IsWord word :=
        List.forall_mem_cons.mpr ⟨isWord_text agent, List.forall_mem_singleton.mpr hexisting⟩
      refine ⟨agent.text :: existing :: ws, ?_, .addSibling (spellsLadybug_text hagent) _ hne⟩
      have hline := wordsOf_intercalate_append (isWord_line .addSibling hfirst)
        (" ".intercalate ws)
      rwa [wordsOf_intercalate hws] at hline

/-- It is read again from the line on which it is typed. -/
theorem Writable.parse_typed (h : command.Writable) : parse command.typed = .ok command := by
  obtain ⟨arguments, htyped, hmeans⟩ := h.exists_words
  rw [parse_eq_command htyped, hmeans.command_eq]

/-- Only such commands are meant by words. -/
theorem writable_of_means {keyword : Keyword} {arguments : List String}
    (h : keyword.Means arguments command) (hwords : ∀ word ∈ arguments, IsWord word) :
    command.Writable := by
  cases h with
  | loadBoard path => exact hwords path List.mem_cons_self
  | loadTrees hne => exact ⟨hne, hwords⟩
  | listLadybugs | nextAction | printBoard | quit => trivial
  | printPosition h | head h | resetTree h => exact h.writable
  | jumpTo h node => exact ⟨h.writable, hwords node (by simp)⟩
  | @addSibling word agent h existing ws hne =>
      refine ⟨h.writable, hwords existing (by simp), ws, hne, fun w hw => hwords w ?_, rfl⟩
      exact List.mem_cons_of_mem _ (List.mem_cons_of_mem _ hw)

/-- Whatever is read from a line can be typed. -/
theorem writable_of_parse (h : parse line = .ok command) : command.Writable := by
  cases parse_eq_iff_takenFor.mp h with
  | command hline hmeans =>
      refine writable_of_means hmeans fun word hword => ?_
      have hmem : word ∈ wordsOf line := hline ▸ List.mem_append_right _ hword
      exact isWord_of_mem_wordsOf hmem

/-- **Lines are classified by their words.** What is read from a line is what the line is taken
for, and every line is taken for exactly one thing. Lines with the same words are taken for the
same thing, unless they are unknown, in which case each complaint repeats its own line. The
commands that are read from lines are those that can be typed, and each of them is read from the
line on which it is typed. -/
theorem parse_classifies :
    (∀ line outcome, parse line = outcome ↔ TakenFor line outcome) ∧
      (∀ line, ∃! outcome, TakenFor line outcome) ∧
      (∀ line other, wordsOf other = wordsOf line → parse other = parse line ∨
        parse other = .error (.unknownCommand (String.ofList (trim other.toList))) ∧
          parse line = .error (.unknownCommand (String.ofList (trim line.toList)))) ∧
      (∀ command : Command, (∃ line, parse line = .ok command) ↔ command.Writable) ∧
      ∀ command : Command, command.Writable → parse command.typed = .ok command := by
  refine ⟨fun _ _ => parse_eq_iff_takenFor, fun line => ?_, fun _ _ h => parse_of_wordsOf_eq h,
    fun command => ⟨fun ⟨_, h⟩ => writable_of_parse h, fun h => ⟨_, h.parse_typed⟩⟩,
    fun _ h => h.parse_typed⟩
  obtain ⟨outcome, h⟩ := exists_takenFor line
  exact ⟨outcome, h, fun other hother => hother.parse_eq.symm.trans h.parse_eq⟩

/-- A node of two words is read again, whatever blanks stand between them. -/
theorem parse_classifies_node_of_two_words :
    (addSibling ⟨7⟩ "T" "X[fly 2,3]").Writable ∧
      parse "add sibling 7 T X[fly 2,3]" = .ok (addSibling ⟨7⟩ "T" "X[fly 2,3]") ∧
      wordsOf "\tadd sibling  7 T\u00a0X[fly\u20282,3]" = wordsOf "add sibling 7 T X[fly 2,3]" ∧
      parse "\tadd sibling  7 T\u00a0X[fly\u20282,3]" = .ok (addSibling ⟨7⟩ "T" "X[fly 2,3]") := by
  have hword {text : String} (hne : text ≠ "")
      (h : (text.toList.all fun c => !isBlank c) = true) : IsWord text :=
    ⟨hne, forall_of_all h⟩
  have hwritable : (addSibling ⟨7⟩ "T" "X[fly 2,3]").Writable := by
    refine ⟨by decide, hword (by decide) (by decide), ["X[fly", "2,3]"], by decide, ?_, rfl⟩
    exact List.forall_mem_cons.mpr ⟨hword (by decide) (by decide),
      List.forall_mem_singleton.mpr (hword (by decide) (by decide))⟩
  have htyped : (addSibling ⟨7⟩ "T" "X[fly 2,3]").typed = "add sibling 7 T X[fly 2,3]" := by
    decide +kernel
  have hwords : wordsOf "\tadd sibling  7 T\u00a0X[fly\u20282,3]" =
      wordsOf "add sibling 7 T X[fly 2,3]" := by decide +kernel
  obtain ⟨-, -, hsame, -, hread⟩ := parse_classifies
  have hparse := hread _ hwritable
  rw [htyped] at hparse
  refine ⟨hwritable, hparse, hwords, ?_⟩
  rcases hsame _ _ hwords with hother | ⟨-, hunknown⟩
  · rw [hother, hparse]
  · rw [hparse] at hunknown
    cases hunknown

end Command

end Ladybug
