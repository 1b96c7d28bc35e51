import Ladybug.Proofs.Arguments
import Ladybug.Proofs.Closing

/-!
# Loading before the first command

What is named on the command line is loaded with the same commands that a script would use, but
these commands are not read from lines, and a failure ends the program instead of being
complained about. The two ways to load are compared here. As long as nothing fails, a session
that has loaded in advance is in the same state as one that was told to load by the first lines of
its script, so whatever the script does from there on is the same. If a load fails, both sessions
have shown the same parts of the files, and the first one ends there.

For this the lines must be read as the commands they are meant to be, which is the case if the
names of the files contain no blanks, and the bytes of the lines must be told apart from those of
the script, which is the case because a newline is not part of any other character.

## Main definitions

* `CommandLine.typedLoads` — the lines that load a board and trees.
* `Session.TypesLoad` — the lines that load, with their commands.
* `Session.Unhindered` — what a program does not do as long as the output is open.
* `CommandLine.StopsAt` — where both ways to load come to an end.

## Main results

* `Command.wordsOf_intercalate` — words are found again on a line.
* `Session.byteLines_bytesOf` — lines are found again at the beginning of a script.
* `CommandLine.preload_cases` — loading in advance against loading by lines.
* `CommandLine.run_preloaded` — the whole program.
-/

namespace Ladybug

/-! ### Lines of words -/

namespace Command

/-- The text is a word: it is not empty, and no blank stands in it. -/
def IsWord (text : String) : Prop := text ≠ "" ∧ ∀ c ∈ text.toList, Text.isBlank c = false

/-- No character is blank if a look at all of them says so. -/
theorem forall_of_all {text : String}
    (h : (text.toList.all fun c => !Text.isBlank c) = true) :
    ∀ c ∈ text.toList, Text.isBlank c = false :=
  Text.not_blank_of_all h

/-- Words that are joined by spaces are found again. -/
theorem wordsOf_intercalate {ws : List String} (h : ∀ word ∈ ws, IsWord word) :
    wordsOf (" ".intercalate ws) = ws := by
  have hwords : ∀ w ∈ ws.map String.toList, w ≠ [] ∧ ∀ c ∈ w, Text.isBlank c = false := by
    intro w hw
    obtain ⟨word, hword, rfl⟩ := List.mem_map.mp hw
    exact ⟨fun hnil => (h word hword).1 (String.toList_injective hnil), (h word hword).2⟩
  have hjoined : (" ".intercalate ws).toList = Text.joinWords (ws.map String.toList) :=
    String.toList_intercalate
  rw [wordsOf, hjoined, Text.words_joinWords hwords, List.map_map]
  exact (List.map_congr_left fun _ _ => String.ofList_toList).trans (List.map_id ws)

/-- Keywords consist of words. -/
theorem isWord_keyword (keyword : Keyword) : ∀ word ∈ keyword.words, IsWord word := by
  have hall : ∀ word ∈ keyword.words,
      word ≠ "" ∧ (word.toList.all fun c => !Text.isBlank c) = true := by
    cases keyword <;> decide
  exact fun word hword => ⟨(hall word hword).1, forall_of_all (hall word hword).2⟩

/-- A keyword is found before any arguments. -/
theorem ofWords?_append (keyword : Keyword) (arguments : List String) :
    Keyword.ofWords? (keyword.words ++ arguments) = some (keyword, arguments) := by
  cases keyword <;> rfl

/-- The words of a line with a keyword and arguments. -/
theorem isWord_line (keyword : Keyword) {arguments : List String}
    (h : ∀ word ∈ arguments, IsWord word) : ∀ word ∈ keyword.words ++ arguments, IsWord word :=
  List.forall_mem_append.mpr ⟨isWord_keyword keyword, h⟩

/-- A line with a keyword and arguments is read as such. -/
theorem parse_intercalate (keyword : Keyword) {arguments : List String}
    (h : ∀ word ∈ arguments, IsWord word) :
    parse (" ".intercalate (keyword.words ++ arguments)) = keyword.command arguments := by
  rw [parse, wordsOf_intercalate (isWord_line keyword h), ofWords?_append]

end Command

/-! ### Bytes of lines -/

namespace Session

/-- The text fits on a line. -/
def OneLine (text : String) : Prop := '\n' ∉ text.toList ∧ '\r' ∉ text.toList

theorem OneLine.append {text more : String} (h : OneLine text) (h' : OneLine more) :
    OneLine (text ++ more) := by
  rw [OneLine, String.toList_append]
  exact ⟨List.not_mem_append h.1 h'.1, List.not_mem_append h.2 h'.2⟩

/-- Words fit on a line. -/
theorem oneLine_of_isWord {word : String} (h : Command.IsWord word) : OneLine word := by
  constructor
  · intro hmem
    have hblank := h.2 _ hmem
    revert hblank
    decide
  · intro hmem
    have hblank := h.2 _ hmem
    revert hblank
    decide

/-- Several words fit on a line as well. -/
theorem oneLine_intercalate {ws : List String} (h : ∀ word ∈ ws, Command.IsWord word) :
    OneLine (" ".intercalate ws) := by
  induction ws with
  | nil => exact ⟨by decide, by decide⟩
  | cons word ws ih =>
      obtain ⟨hword, hws⟩ := List.forall_mem_cons.mp h
      have hspace : OneLine " " := ⟨by decide, by decide⟩
      cases ws with
      | nil => exact oneLine_of_isWord hword
      | cons word' ws =>
          rw [String.intercalate_cons_cons]
          exact ((oneLine_of_isWord hword).append hspace).append (ih hws)

/-- The bytes of a line. -/
def bytesOfLine (line : String) : List UInt8 := line.toUTF8.data.toList

/-- Lines are written one below the other. -/
theorem toList_bytesOf (lines : List String) :
    (Sink.bytesOf lines).data.toList = (lines.map bytesOfLine).flatMap fun l => l ++ [10] := by
  induction lines with
  | nil => rfl
  | cons line lines ih =>
      have hbytes : Sink.bytesOf (line :: lines) =
          (line ++ "\n").toUTF8 ++ Sink.bytesOf lines := rfl
      have hline : (line ++ "\n").toUTF8.data.toList = bytesOfLine line ++ [10] := by
        rw [bytesOfLine, Text.toList_toUTF8, Text.toList_toUTF8, String.toList_append,
          List.flatMap_append]
        rfl
      rw [hbytes, ByteArray.data_append, Array.toList_append, hline, ih, List.map_cons,
        List.flatMap_cons]

/-- Lines are found again at the beginning of a script. -/
theorem byteLines_bytesOf {lines : List String} (h : ∀ line ∈ lines, OneLine line)
    (script : ByteArray) :
    Text.byteLines (Sink.bytesOf lines ++ script).data.toList =
      lines.map bytesOfLine ++ Text.byteLines script.data.toList := by
  have hbytes (l : List UInt8) (hl : l ∈ lines.map bytesOfLine) : 10 ∉ l ∧ 13 ∉ l := by
    obtain ⟨line, hline, rfl⟩ := List.mem_map.mp hl
    have hone := h line hline
    exact ⟨Text.not_mem_toUTF8 rfl (by decide) hone.1, Text.not_mem_toUTF8 rfl (by decide) hone.2⟩
  rw [ByteArray.data_append, Array.toList_append, toList_bytesOf]
  exact Text.linesOf_flatMap (fun l hl => (hbytes l hl).1)
    (fun l hl hlast => (hbytes l hl).2 (List.mem_of_getLast? hlast)) _

/-! ### Commands that load -/

/-- The line loads a board or trees, and the command is the one that does so. -/
inductive TypesLoad : String → Command → Prop
  | board {path : String} (h : Command.IsWord path) :
      TypesLoad ("load board " ++ path) (.loadBoard path)
  | trees {paths : List String} (hne : paths ≠ []) (h : ∀ path ∈ paths, Command.IsWord path) :
      TypesLoad ("load trees " ++ " ".intercalate paths) (.loadTrees paths)

variable {line : String} {command : Command} {s : Session}

/-- The line consists of a keyword and arguments. -/
theorem TypesLoad.exists_words (h : TypesLoad line command) :
    ∃ (keyword : Keyword) (arguments : List String), (∀ word ∈ arguments, Command.IsWord word) ∧
      line = " ".intercalate (keyword.words ++ arguments) ∧
      keyword.command arguments = .ok command := by
  cases h with
  | @board path h =>
      refine ⟨.loadBoard, [path], List.forall_mem_singleton.mpr h, ?_, rfl⟩
      simp [← String.toList_inj, Keyword.words, String.intercalate_cons_cons]
  | @trees paths hne h =>
      obtain ⟨path, rest, rfl⟩ := List.exists_cons_of_ne_nil hne
      refine ⟨.loadTrees, path :: rest, h, ?_, rfl⟩
      simp [← String.toList_inj, Keyword.words, String.intercalate_cons_cons]

/-- The line is read as the command. -/
theorem TypesLoad.parse (h : TypesLoad line command) : Command.parse line = .ok command := by
  obtain ⟨keyword, arguments, hwords, rfl, hcommand⟩ := h.exists_words
  rw [Command.parse_intercalate keyword hwords, hcommand]

/-- Nothing else stands on the line. -/
theorem TypesLoad.oneLine (h : TypesLoad line command) : OneLine line := by
  obtain ⟨keyword, arguments, hwords, rfl, -⟩ := h.exists_words
  exact oneLine_intercalate (Command.isWord_line keyword hwords)

/-! ### Sessions without a limit -/

/-- In a session without a limit the program complains about nothing, and if it fails, this is not
because of the output. The output stays without a limit. -/
def Unhindered {α : Type} (program : SessionM α) : Prop :=
  ∀ s : Session, s.out.limit = none →
    Ends program s (fun _ s' => s'.out.limit = none ∧ s'.err = s.err)
      fun error s' => ¬ IsOutput error ∧ s'.err = s.err

section Unhindered

variable {α β : Type}

theorem unhindered_pure (value : α) : Unhindered (pure value) := fun _ hlimit => ⟨hlimit, rfl⟩

/-- Programs one after the other. -/
theorem Unhindered.bind {program : SessionM α} {rest : α → SessionM β} (h : Unhindered program)
    (hrest : ∀ value, Unhindered (rest value)) : Unhindered (program >>= rest) := by
  intro s hlimit
  refine ends_bind ((h s hlimit).imp ?_ fun _ _ hfailed => hfailed)
  rintro value s' ⟨hlimit', herr⟩
  rw [← herr]
  exact hrest value s' hlimit'

/-- Lines are said completely. -/
theorem unhindered_say (lines : List String) : Unhindered (say lines) := by
  intro s hlimit
  have hall := Sink.pushLines_of_unlimited hlimit lines
  refine ends_say (fun _ => ?_) fun hcut => ?_
  · rw [hall]
    exact ⟨hlimit, rfl⟩
  · rw [hall] at hcut
    cases hcut

/-- The game knows nothing about the output. -/
theorem unhindered_play (program : GameM α) : Unhindered (play program) := by
  intro s hlimit
  refine ends_play (fun _ _ _ => ⟨hlimit, rfl⟩) fun error _ _ => ⟨?_, rfl⟩
  rintro ⟨reason, hreason⟩
  cases hreason

/-- A file is read and shown. -/
theorem unhindered_showFile (files : Source) (path : String) :
    Unhindered (showFile files path) := by
  rw [showFile]
  cases hread : linesOfFile files path with
  | ok lines => exact (unhindered_say lines).bind fun _ => unhindered_pure lines
  | error error =>
      refine fun s _ => ⟨?_, rfl⟩
      rintro ⟨reason, rfl⟩
      rw [linesOfFile] at hread
      split at hread
      · cases hread
      · split at hread <;> cases hread

/-- Several files are read and shown. -/
theorem unhindered_showFiles (files : Source) (paths : List String) :
    Unhindered (showFiles files paths) := by
  induction paths with
  | nil => exact unhindered_pure []
  | cons path rest ih =>
      exact (unhindered_showFile files path).bind fun _ => ih.bind fun _ => unhindered_pure _

/-- A command that loads what it has shown goes on if it succeeds. -/
theorem ends_load {shown : SessionM α} (hshown : Unhindered shown) (program : α → GameM β)
    (hlimit : s.out.limit = none) :
    Ends (do let texts ← shown; let _ ← play (program texts); return Flow.goOn) s
      (fun flow s' => flow = .goOn ∧ s'.out.limit = none ∧ s'.err = s.err)
      fun error s' => ¬ IsOutput error ∧ s'.err = s.err := by
  refine ends_bind ((hshown s hlimit).imp ?_ fun _ _ hfailed => hfailed)
  rintro texts s' ⟨hlimit', herr⟩
  rw [← herr]
  refine ends_bind ((unhindered_play (program texts) s' hlimit').imp ?_ fun _ _ hfailed => hfailed)
  exact fun _ _ hplayed => ⟨rfl, hplayed⟩

end Unhindered

variable {files : Source}

/-- A line that loads goes on if its command succeeds, and complains if it fails. -/
theorem TypesLoad.ends_execute (h : TypesLoad line command) (files : Source)
    (hlimit : s.out.limit = none) :
    Ends (execute files command) s
      (fun flow s' => flow = .goOn ∧ s'.out.limit = none ∧ s'.err = s.err)
      fun error s' => ¬ IsOutput error ∧ s'.err = s.err := by
  cases h with
  | @board path h => exact ends_load (unhindered_showFile files path) Game.loadBoard hlimit
  | @trees paths hne h =>
      exact ends_load (unhindered_showFiles files paths) Game.loadTreeFiles hlimit

/-- The bytes of a line that loads are handled as its command ends. -/
theorem TypesLoad.runLine_eq (h : TypesLoad line command) (files : Source) (s : Session) :
    runLine files (bytesOfLine line) s =
      resultWithError scriptError (handled (execute files command s)) := by
  have hparse := h.parse
  have hblank : ¬ (Text.trim line.toList).isEmpty := by simp [trim_of_parse hparse]
  rw [runLine, bytesOfLine, Text.fromUTF8?_toUTF8]
  dsimp only
  rw [handleLine_of_not_blank hblank, executeLine, hparse]

/-- A line that loads is done with if its command succeeds. -/
theorem TypesLoad.runLines_of_ok (h : TypesLoad line command) {flow : Flow} {t : Session}
    (hlimit : s.out.limit = none) (hrun : execute files command s = .ok flow t) :
    t.out.limit = none ∧ t.err = s.err ∧ ∀ rest,
      runLines files (bytesOfLine line :: rest) s = runLines files rest t := by
  have hends := h.ends_execute files hlimit
  rw [Ends, hrun] at hends
  obtain ⟨rfl, hlimit', herr⟩ := hends
  have hline : runLine files (bytesOfLine line) s = .ok .goOn t := by rw [h.runLine_eq, hrun]; rfl
  refine ⟨hlimit', herr, fun rest => ?_⟩
  rw [runLines_cons, bind_of_ok hline, if_pos rfl]

/-- A line that loads is complained about if its command fails, and the session goes on. -/
theorem TypesLoad.runLines_of_error (h : TypesLoad line command) {error : ConsoleError}
    {t : Session} (hlimit : s.out.limit = none) (hrun : execute files command s = .error error t) :
    t.err = s.err ∧ ∀ rest, runLines files (bytesOfLine line :: rest) s =
      runLines files rest { t with err := t.err ++ "Error, " ++ error.message ++ "\n" } := by
  have hends := h.ends_execute files hlimit
  rw [Ends, hrun] at hends
  obtain ⟨hother, herr⟩ := hends
  have hline : runLine files (bytesOfLine line) s =
      .ok .goOn { t with err := t.err ++ "Error, " ++ error.message ++ "\n" } := by
    rw [h.runLine_eq, hrun]
    cases error with
    | output reason => exact absurd ⟨reason, rfl⟩ hother
    | _ => rfl
  refine ⟨herr, fun rest => ?_⟩
  rw [runLines_cons, bind_of_ok hline, if_pos rfl]

end Session

/-! ### Loading in advance -/

namespace CommandLine

open Session

/-- The lines that load a board and trees. -/
def typedLoads (board : String) (trees : List String) : List String :=
  ("load board " ++ board) ::
    if trees.isEmpty then [] else ["load trees " ++ " ".intercalate trees]

/-- Loading in advance fails with the command of a line, and the session that is told to load by
lines complains for the first time about that line. -/
structure StopsAt (files : Source) (commands : List (String × Command)) (before : List String)
    (line : String) (error : ConsoleError) (text : String) (s t : Session) : Prop where
  fails : preload files commands s = .error text t
  reported : ∃ doing, text = report doing (error.message :: error.cause?.toList)
  err : t.err = s.err
  goesOn : ∃ u, runLines files (before.map bytesOfLine) s = .ok () u ∧ u.err = s.err
  complains : runLines files ((before ++ [line]).map bytesOfLine) s =
    .ok () { t with err := t.err ++ "Error, " ++ error.message ++ "\n" }

variable {files : Source} {lines : List String} {commands : List (String × Command)}

/-- All lines that load are lines. -/
theorem oneLine_of_typesLoad
    (h : List.Forall₂ (fun line named => TypesLoad line named.2) lines commands) :
    ∀ line ∈ lines, OneLine line := by
  induction h with
  | nil => simp
  | cons hline _ ih => exact List.forall_mem_cons.mpr ⟨hline.oneLine, ih⟩

/-- **Loading in advance is loading by lines.** Either all commands succeed, and then it makes no
difference whether they were given in advance or by lines, or both sessions come to the same
command that fails. -/
theorem preload_cases (files : Source)
    (h : List.Forall₂ (fun line named => TypesLoad line named.2) lines commands)
    {s : Session} (hlimit : s.out.limit = none) :
    (∃ t, preload files commands s = .ok () t ∧ ∀ rest,
      runLines files (lines.map bytesOfLine ++ rest) s = runLines files rest t) ∨
    ∃ before line after error text t, lines = before ++ line :: after ∧
      StopsAt files commands before line error text s t := by
  -- The two sessions are the same one as long as nothing has failed, so one variable is enough.
  induction h generalizing s with
  | nil => exact .inl ⟨s, rfl, fun _ => rfl⟩
  | @cons line named lines commands hline _ ih =>
      obtain ⟨doing, command⟩ := named
      cases hrun : execute files command s with
      | ok flow t =>
          obtain ⟨hlimit', herr, hgoes⟩ := hline.runLines_of_ok hlimit hrun
          have hpreload : preload files ((doing, command) :: commands) s =
              preload files commands t := by
            rw [preload, EStateM.run, hrun]
          rcases ih hlimit' with
            ⟨t', hall, hlines⟩ | ⟨before, line', after, error, text, t', hsplit, hstops⟩
          · refine .inl ⟨t', hpreload.trans hall, fun rest => ?_⟩
            rw [List.map_cons, List.cons_append, hgoes, hlines]
          · obtain ⟨u, hbefore, hu⟩ := hstops.goesOn
            refine .inr ⟨line :: before, line', after, error, text, t', ?_, ?_, hstops.reported,
              hstops.err.trans herr, ⟨u, ?_, hu.trans herr⟩, ?_⟩
            · rw [hsplit, List.cons_append]
            · rw [hpreload, hstops.fails]
            · rw [List.map_cons, hgoes, hbefore]
            · rw [List.cons_append, List.map_cons, hgoes, hstops.complains]
      | error error t =>
          obtain ⟨herr, hgoes⟩ := hline.runLines_of_error hlimit hrun
          refine .inr ⟨[], line, lines, error, _, t, rfl, ?_, ⟨doing, rfl⟩, herr,
            ⟨s, rfl, rfl⟩, hgoes []⟩
          rw [preload, EStateM.run, hrun]

/-! ### The whole program -/

/-- What a script leaves that has ended in some way. -/
def exitOf : EStateM.Result ScriptError Session Unit → Exit
  | .error error s => failed (scriptReport error) s
  | .ok _ s => succeeded s

section Run

variable {arguments : List String} {p : Preload} {s : Session}

/-- The script goes on where loading has ended. -/
theorem run_of_preload_ok (haccepted : Request.parse arguments = .run p)
    (h : preload files (preloadCommands p) (start .unlimited) = .ok () s) (script : ByteArray) :
    run files arguments script =
      exitOf (runLines files (Text.byteLines script.data.toList) s) := by
  rw [run, haccepted]
  dsimp only
  rw [runSession, EStateM.run, h]
  dsimp only
  rw [EStateM.run, Session.run]
  cases runLines files (Text.byteLines script.data.toList) s <;> rfl

/-- If loading fails, the script does not matter. -/
theorem run_of_preload_error {text : String} (haccepted : Request.parse arguments = .run p)
    (h : preload files (preloadCommands p) (start .unlimited) = .error text s)
    (script : ByteArray) : run files arguments script = failed text s := by
  rw [run, haccepted]
  dsimp only
  rw [runSession, EStateM.run, h]

end Run

/-- Without arguments the program runs the lines at once, and then the script below them. -/
theorem run_nil (h : ∀ line ∈ lines, OneLine line) (files : Source) (script : ByteArray) :
    run files [] (Sink.bytesOf lines ++ script) =
      exitOf (runLines files (lines.map bytesOfLine ++ Text.byteLines script.data.toList)
        (start .unlimited)) := by
  rw [run_of_preload_ok (p := ⟨none, []⟩) rfl rfl, byteLines_bytesOf h]

/-- The program runs lines that are not followed by anything. -/
theorem run_lines (h : ∀ line ∈ lines, OneLine line) (files : Source) :
    run files [] (Sink.bytesOf lines) =
      exitOf (runLines files (lines.map bytesOfLine) (start .unlimited)) := by
  have hrun := run_nil h files ByteArray.empty
  rw [ByteArray.append_empty] at hrun
  rw [hrun]
  exact congrArg (fun ls => exitOf (runLines files ls (start .unlimited))) (List.append_nil _)

/-- The commands of the lines are those that load in advance. -/
theorem typesLoad_typedLoads {board : String} {trees : List String}
    (h : ∀ path ∈ board :: trees, Command.IsWord path) :
    List.Forall₂ (fun line named => TypesLoad line named.2) (typedLoads board trees)
      (preloadCommands ⟨some board, trees⟩) := by
  obtain ⟨hboard, htrees⟩ := List.forall_mem_cons.mp h
  refine .cons (.board hboard) ?_
  cases trees with
  | nil => exact .nil
  | cons path rest => exact .cons (.trees (List.cons_ne_nil _ _) htrees) .nil

/-- If loading fails, the program has written what the lines up to the one that fails have it
write, and these lines complain about the same error. -/
theorem StopsAt.run_eq {arguments : List String} {p : Preload} {before : List String}
    {line text : String} {error : ConsoleError} {t : Session}
    (h : StopsAt files (preloadCommands p) before line error text (start .unlimited) t)
    (haccepted : Request.parse arguments = .run p) (hone : ∀ l ∈ before ++ [line], OneLine l) :
    (run files [] (Sink.bytesOf before)).err = "" ∧
      (run files [] (Sink.bytesOf (before ++ [line]))).err =
        "Error, " ++ error.message ++ "\n" ∧
      ∀ script, run files arguments script =
        ⟨1, (run files [] (Sink.bytesOf (before ++ [line]))).out, text⟩ := by
  obtain ⟨u, hbefore, hu⟩ := h.goesOn
  have herr : t.err = "" := h.err
  have htold := run_lines hone files
  rw [h.complains, herr, String.empty_append] at htold
  refine ⟨?_, by rw [htold]; rfl, fun script => ?_⟩
  · rw [run_lines (List.forall_mem_append.mp hone).1, hbefore]
    exact hu
  · rw [run_of_preload_error haccepted h.fails, htold, failed, herr, String.empty_append]
    rfl

/-- **Loading in advance is typing the loads.** Let the arguments name a board and trees, none of
which has a blank in its name. If everything can be loaded, the program writes the same and exits
in the same way as without arguments on a script that begins with the lines that load. If
something cannot be loaded, the script does not matter: the program exits with a failure that
reports the error, and it has written what the lines up to the first one that is complained about
have the program write, which complains about the same error. -/
theorem run_preloaded (files : Source) {arguments : List String} {board : String}
    {trees : List String} (haccepted : Request.parse arguments = .run ⟨some board, trees⟩)
    (hpaths : ∀ path ∈ board :: trees, ∀ c ∈ path.toList, Text.isBlank c = false) :
    let typed := typedLoads board trees
    let preloaded := preload files (preloadCommands ⟨some board, trees⟩) (start .unlimited)
    (∃ given, Request.Spells arguments given ∧ Request.valuesOf .board given = [board] ∧
      Request.valuesOf .trees given = trees) ∧
    (∀ s, preloaded = .ok () s → ∀ script,
      run files arguments script = run files [] (Sink.bytesOf typed ++ script)) ∧
    ∀ text s, preloaded = .error text s →
      ∃ (before after : List String) (line doing : String) (error : ConsoleError),
        typed = before ++ line :: after ∧
        text = report doing (error.message :: error.cause?.toList) ∧
        (run files [] (Sink.bytesOf before)).err = "" ∧
        (run files [] (Sink.bytesOf (before ++ [line]))).err =
          "Error, " ++ error.message ++ "\n" ∧
        ∀ script, run files arguments script =
          ⟨1, (run files [] (Sink.bytesOf (before ++ [line]))).out, text⟩ := by
  intro typed preloaded
  have hwords : ∀ path ∈ board :: trees, Command.IsWord path := fun path hpath =>
    ⟨Request.ne_empty_of_parse haccepted path hpath, hpaths path hpath⟩
  have htyped := typesLoad_typedLoads hwords
  have hone := oneLine_of_typesLoad htyped
  refine ⟨Request.exists_spells_of_parse haccepted, ?_⟩
  rcases preload_cases files htyped (s := start .unlimited) rfl with
    ⟨t, hloaded, hlines⟩ | ⟨before, line, after, error, text, t, hsplit, hstops⟩
  · refine ⟨fun s _ script => ?_, fun text s hfails => ?_⟩
    · rw [run_of_preload_ok haccepted hloaded, run_nil hone, hlines]
    · cases hfails.symm.trans hloaded
  · refine ⟨fun s hall => ?_, fun text' s hfails => ?_⟩
    · cases hall.symm.trans hstops.fails
    · obtain ⟨rfl, rfl⟩ := EStateM.Result.error.inj (hfails.symm.trans hstops.fails)
      obtain ⟨doing, hreported⟩ := hstops.reported
      rw [hsplit, List.append_cons] at hone
      exact ⟨before, after, line, doing, error, hsplit, hreported,
        hstops.run_eq haccepted (List.forall_mem_append.mp hone).1⟩

/-- Trees that are spread over two options are loaded by one line. If the second one is missing,
no script is run. -/
theorem run_preloaded_spread :
    let files : Source := fun path =>
      if path = "b" then .ok ">.\n>.".toUTF8
      else if path = "t1" then .ok "flowchart TD\nA[move]".toUTF8
      else if path = "t2" then .ok "flowchart TD\nA[turnLeft]".toUTF8
      else .error "there is no such file"
    let script := "next action\nnothing\nquit\nhead 1".toUTF8
    let arguments := ["--trees", "t1", "--board=b", "--trees", "t2"]
    let missing := ["--trees", "t1", "t3", "--board", "b"]
    run files arguments script =
        run files [] ("load board b\nload trees t1 t2\n".toUTF8 ++ script) ∧
      (run files arguments script).err = "Error, unknown command 'nothing'\n" ∧
      ∀ other, (run files missing other).code = 1 := by
  intro files script arguments missing
  have haccepted : Request.parse arguments = .run ⟨some "b", ["t1", "t2"]⟩ := by decide
  have hmissing : Request.parse missing = .run ⟨some "b", ["t1", "t3"]⟩ := by decide
  have hpaths {paths : List String}
      (h : (paths.all fun path => path.toList.all fun c => !Text.isBlank c) = true) :
      ∀ path ∈ paths, ∀ c ∈ path.toList, Text.isBlank c = false := fun path hpath =>
    Command.forall_of_all (List.all_eq_true.mp h path hpath)
  have hloads := run_preloaded files haccepted (hpaths (by decide))
  have hfails := run_preloaded files hmissing (hpaths (by decide))
  refine ⟨?_, by decide +kernel, fun other => ?_⟩
  · cases hpreloaded : preload files (preloadCommands ⟨some "b", ["t1", "t2"]⟩)
        (start .unlimited) with
    | ok _ s => exact hloads.2.1 s hpreloaded script
    | error text s =>
        have hfailed : (run files arguments script).code = 1 := by
          rw [run_of_preload_error haccepted hpreloaded, failed]
        have hcode : (run files arguments script).code = 0 := by decide +kernel
        rw [hcode] at hfailed
        cases hfailed
  · cases hpreloaded : preload files (preloadCommands ⟨some "b", ["t1", "t3"]⟩)
        (start .unlimited) with
    | ok _ s =>
        have hloaded := congrArg Exit.code (hfails.2.1 s hpreloaded ByteArray.empty)
        have hcode : (run files missing ByteArray.empty).code = 1 := by decide +kernel
        have hcode' : (run files [] (Sink.bytesOf (typedLoads "b" ["t1", "t3"]) ++
          ByteArray.empty)).code = 0 := by decide +kernel
        rw [hcode, hcode'] at hloaded
        cases hloaded
    | error text s =>
        obtain ⟨_, _, _, _, _, -, -, -, -, hrun⟩ := hfails.2.2 text s hpreloaded
        rw [hrun]

end CommandLine

end Ladybug
