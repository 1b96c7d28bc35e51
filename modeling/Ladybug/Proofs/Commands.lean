import Ladybug.Proofs.EdgeLines
import Ladybug.Proofs.Printing

/-!
# What commands do to the game

A command reads files, shows them, asks the game or changes it, and says something, and each of
these may fail. The order is such that a command that fails has not changed the game: files are
read and shown before anything is loaded, and answers are asked for before they are said. Only a
round cannot be taken back when its lines do not fit, and so it is played to its end as if nobody
were watching.

What a command has the game do therefore depends on the files, and on whether what is shown of
them fits, but on nothing that is said later.

## Main definitions

* `Command.operation?` — what a command has the game do.
* `Session.left` — the session that a program leaves.
* `Command.Effect` — what a command does to the game and to the error output.

## Main results

* `Session.ends_execute` — what a command leaves if it succeeds, and if it fails.
* `Command.effect` — the effect of every command in a reachable game.
-/

namespace Ladybug

/-- What a command has the game do, if it gets that far: all files must be read, and all of
their lines must fit. -/
def Command.operation? (files : Source) (out : Sink) : Command → Option Game.Operation
  | .loadBoard path =>
    match Session.linesOfFile files path with
    | .ok lines => if (out.pushLines lines).2 then some (.loadBoard lines) else none
    | .error _ => none
  | .loadTrees paths =>
    match paths.mapM (Session.linesOfFile files) with
    | .ok texts => if (out.pushLines texts.flatten).2 then some (.loadTreeFiles texts) else none
    | .error _ => none
  | .nextAction => some (.nextAction .silent ())
  | .resetTree agent => some (.resetTree agent)
  | .jumpTo agent node => some (.jumpTo agent node)
  | .addSibling agent existing node => some (.addSibling agent existing node)
  | _ => none

namespace Session

/-- The session that a program leaves, whether or not it stops with an error. -/
def left {ε α : Type} (program : EStateM ε Session α) (s : Session) : Session :=
  match program s with
  | .ok _ s' => s'
  | .error _ s' => s'

/-- The game is as after the operation, if there is one, and nothing was complained about. -/
structure Leaves (op? : Option Game.Operation) (s s' : Session) : Prop where
  game : s'.game = op?.elim s.game s.game.after
  err : s'.err = s.err

/-- Whether or not it succeeds, the program leaves the game as after the operation, if there is
one. If it fails, that is the game before, unless the failure is one that may come too late. -/
def Obeys (program : SessionM Flow) (s : Session) (op? : Option Game.Operation)
    (Late : ConsoleError → Prop) : Prop :=
  Ends program s (fun _ => Leaves op? s)
    fun error s' => Leaves op? s s' ∧ (s'.game = s.game ∨ Late error)

/-- The output could not be written. -/
def IsOutput (error : ConsoleError) : Prop := ∃ reason, error = .output reason

variable {s : Session} {files : Source}

/-- What comes first may leave the game alone. -/
theorem Leaves.trans {s' s'' : Session} {op? : Option Game.Operation} (h : Leaves none s s')
    (h' : Leaves op? s' s'') : Leaves op? s s'' where
  game := by
    have hgame : s'.game = s.game := h.game
    rw [h'.game, hgame]
  err := h'.err.trans h.err

/-! ### Showing files -/

/-- A file is read and shown, or the product output is all that has changed. -/
theorem ends_showFile (files : Source) (path : String) :
    Ends (showFile files path) s
      (fun lines s' => linesOfFile files path = .ok lines ∧
        s.out.pushLines lines = (s'.out, true) ∧ Leaves none s s')
      fun _ s' => (∀ lines, linesOfFile files path = .ok lines →
        (s.out.pushLines lines).2 = false) ∧ Leaves none s s' := by
  rw [showFile]
  cases hread : linesOfFile files path with
  | error error =>
      refine ⟨fun lines hlines => ?_, rfl, rfl⟩
      cases hlines
  | ok lines =>
      refine ends_bind (ends_say (fun hcomplete => ?_) fun hcut => ?_)
      · exact ⟨rfl, Prod.ext rfl hcomplete, rfl, rfl⟩
      · refine ⟨fun lines' hlines => ?_, rfl, rfl⟩
        rwa [← Except.ok.inj hlines]

/-- The texts of several files are that of the first one and those of the others. -/
theorem exists_lines_of_mapM {path : String} {rest : List String} {texts : List (List String)}
    (h : (path :: rest).mapM (linesOfFile files) = .ok texts) :
    ∃ lines others, linesOfFile files path = .ok lines ∧
      rest.mapM (linesOfFile files) = .ok others ∧ texts = lines :: others := by
  rw [List.mapM_cons] at h
  obtain ⟨lines, hlines, h⟩ := exists_ok_of_bind h
  obtain ⟨others, hothers, h⟩ := exists_ok_of_bind h
  exact ⟨lines, others, hlines, hothers, (Except.ok.inj h).symm⟩

/-- Several files are read and shown, or the product output is all that has changed. -/
theorem ends_showFiles (files : Source) (paths : List String) :
    Ends (showFiles files paths) s
      (fun texts s' => paths.mapM (linesOfFile files) = .ok texts ∧
        s.out.pushLines texts.flatten = (s'.out, true) ∧ Leaves none s s')
      fun _ s' => (∀ texts, paths.mapM (linesOfFile files) = .ok texts →
        (s.out.pushLines texts.flatten).2 = false) ∧ Leaves none s s' := by
  induction paths generalizing s with
  | nil => exact ⟨rfl, rfl, rfl, rfl⟩
  | cons path rest ih =>
      refine ends_bind ((ends_showFile files path).imp ?_ ?_)
      · rintro lines next ⟨hread, hshown, hnext⟩
        refine ends_bind (ih.imp ?_ ?_)
        · rintro others s' ⟨hothers, hshown', hleaves⟩
          refine ⟨?_, ?_, hnext.trans hleaves⟩
          · rw [List.mapM_cons, hread, hothers]
            rfl
          · rw [List.flatten_cons, Sink.pushLines_append, hshown]
            exact hshown'
        · rintro error s' ⟨hcut, hleaves⟩
          refine ⟨fun texts htexts => ?_, hnext.trans hleaves⟩
          obtain ⟨lines', others, hlines, hothers, rfl⟩ := exists_lines_of_mapM htexts
          obtain rfl := Except.ok.inj (hread.symm.trans hlines)
          rw [List.flatten_cons, Sink.pushLines_append, hshown]
          exact hcut others hothers
      · rintro error s' ⟨hcut, hsame⟩
        refine ⟨fun texts htexts => ?_, hsame⟩
        obtain ⟨lines, others, hlines, -, rfl⟩ := exists_lines_of_mapM htexts
        have hfirst := hcut lines hlines
        rw [List.flatten_cons, Sink.pushLines_append, hfirst]
        exact hfirst

/-! ### Commands -/

/-- A program that leaves the game alone obeys no operation. -/
theorem obeys_none {program : SessionM Flow} {Late : ConsoleError → Prop}
    (h : Ends program s (fun _ => Leaves none s) fun _ => Leaves none s) :
    Obeys program s none Late :=
  h.imp (fun _ _ hleaves => hleaves) fun _ _ hleaves => ⟨hleaves, .inl hleaves.game⟩

/-- What is said about the game leaves the game alone. -/
theorem ends_answer (lines : List String) :
    Ends (do say lines; return Flow.goOn) s (fun _ => Leaves none s) fun _ => Leaves none s :=
  ends_bind (ends_say (fun _ => ⟨rfl, rfl⟩) fun _ => ⟨rfl, rfl⟩)

/-- A question leaves the game alone, if the answer to it does. -/
theorem ends_question {α β : Type} (question : Game → Except GameError α) {rest : α → SessionM β}
    (hrest : ∀ answer, Ends (rest answer) s (fun _ => Leaves none s) fun _ => Leaves none s) :
    Ends (play (Game.ask question) >>= rest) s (fun _ => Leaves none s) fun _ => Leaves none s := by
  refine ends_bind (ends_play (fun answer g' hasked => ?_) fun error g' hasked => ?_)
  · rw [Game.ask] at hasked
    split at hasked
    · obtain ⟨rfl, rfl⟩ := EStateM.Result.ok.inj hasked
      exact hrest _
    · cases hasked
  · rw [Game.ask] at hasked
    split at hasked
    · cases hasked
    · obtain ⟨rfl, rfl⟩ := EStateM.Result.error.inj hasked
      exact ⟨rfl, rfl⟩

/-- The program of an operation obeys the operation, since one that is refused changes nothing. -/
theorem obeys_play {α : Type} {program : GameM α} (op : Game.Operation)
    (hop : (fun _ => ()) <$> program = op.run) (h : s.game.Reachable)
    (Late : ConsoleError → Prop) :
    Obeys (do let _ ← play program; return Flow.goOn) s (some op) Late := by
  refine ends_bind (ends_play (fun value g' hprogram => ?_) fun error g' hprogram => ?_)
  · refine ⟨?_, rfl⟩
    change g' = s.game.after op
    rw [Game.after, ← hop, map_of_ok hprogram]
  · have hrun : op.run s.game = .error error g' := by rw [← hop, map_of_error hprogram]
    refine ⟨⟨?_, rfl⟩, .inl (h.run_error hrun)⟩
    change g' = s.game.after op
    rw [Game.after, hrun]

/-- What is obeyed after the game was left alone is obeyed from there on. -/
theorem Obeys.trans {program : SessionM Flow} {s' : Session} {op? : Option Game.Operation}
    {Late : ConsoleError → Prop} (h : Obeys program s' op? Late) (hleaves : Leaves none s s') :
    Ends program s' (fun _ => Leaves op? s)
      fun error s'' => Leaves op? s s'' ∧ (s''.game = s.game ∨ Late error) := by
  have hgame : s'.game = s.game := hleaves.game
  refine h.imp (fun _ _ hleaves' => hleaves.trans hleaves') fun _ _ hleaves' => ?_
  exact ⟨hleaves.trans hleaves'.1, hleaves'.2.imp_left fun hsame => hsame.trans hgame⟩

/-- What is loaded after it was shown obeys the operation that loads it, and if it cannot be
shown, the game is left alone. -/
theorem obeys_load {α β : Type} {shown : SessionM α} {program : α → GameM β}
    {op? : Option Game.Operation} (op : α → Game.Operation)
    (hop : ∀ texts, (fun _ => ()) <$> program texts = (op texts).run) (h : s.game.Reachable)
    (hshown : Ends shown s (fun texts s' => op? = some (op texts) ∧ Leaves none s s')
      fun _ s' => op? = none ∧ Leaves none s s')
    (Late : ConsoleError → Prop) :
    Obeys (do let texts ← shown; let _ ← play (program texts); return Flow.goOn) s op? Late := by
  refine ends_bind (hshown.imp ?_ ?_)
  · rintro texts s' ⟨rfl, hleaves⟩
    have hgame : s'.game = s.game := hleaves.game
    exact (obeys_play (op texts) (hop texts) (hgame ▸ h) Late).trans hleaves
  · rintro error s' ⟨rfl, hleaves⟩
    exact ⟨hleaves, .inl hleaves.game⟩

/-- Loading a board obeys the load of the lines of the file. -/
theorem obeys_execute_loadBoard (h : s.game.Reachable) (files : Source) (path : String)
    (Late : ConsoleError → Prop) :
    Obeys (execute files (.loadBoard path)) s ((Command.loadBoard path).operation? files s.out)
      Late := by
  refine obeys_load .loadBoard (fun _ => rfl) h ((ends_showFile files path).imp ?_ ?_) Late
  · rintro lines s' ⟨hread, hshown, hleaves⟩
    exact ⟨by simp [Command.operation?, hread, hshown], hleaves⟩
  · rintro error s' ⟨hcut, hleaves⟩
    refine ⟨?_, hleaves⟩
    cases hread : linesOfFile files path with
    | ok lines => simp [Command.operation?, hread, hcut lines hread]
    | error reason => simp [Command.operation?, hread]

/-- Loading trees obeys the load of the lines of all files. -/
theorem obeys_execute_loadTrees (h : s.game.Reachable) (files : Source) (paths : List String)
    (Late : ConsoleError → Prop) :
    Obeys (execute files (.loadTrees paths)) s ((Command.loadTrees paths).operation? files s.out)
      Late := by
  refine obeys_load .loadTreeFiles (fun _ => rfl) h ((ends_showFiles files paths).imp ?_ ?_) Late
  · rintro texts s' ⟨hread, hshown, hleaves⟩
    exact ⟨by simp [Command.operation?, hread, hshown], hleaves⟩
  · rintro error s' ⟨hcut, hleaves⟩
    refine ⟨?_, hleaves⟩
    cases hread : paths.mapM (linesOfFile files) with
    | ok texts => simp [Command.operation?, hread, hcut texts hread]
    | error reason => simp [Command.operation?, hread]

/-- A round obeys itself, also if its lines do not fit. -/
theorem obeys_execute_nextAction (h : s.game.Reachable) (files : Source) :
    Obeys (execute files .nextAction) s (some (.nextAction .silent ())) IsOutput := by
  obtain ⟨game, out, err⟩ := s
  refine ends_bind ?_
  rw [Ends]
  rcases playTurn_cases h with ⟨error, hafter, hrefused⟩ | ⟨lines, hplayed⟩
  · rw [hrefused]
    exact ⟨⟨hafter.symm, rfl⟩, .inl rfl⟩
  · rw [hplayed]
    exact ends_say (fun _ => ⟨rfl, rfl⟩) fun _ => ⟨⟨rfl, rfl⟩, .inr ⟨_, rfl⟩⟩

/-- The board is shown without touching the game. -/
theorem ends_showBoard : Ends showBoard s (fun _ => Leaves none s) fun _ => Leaves none s := by
  refine ends_question _ fun _ => ends_bind ?_
  exact ends_say (fun _ => ⟨rfl, rfl⟩) fun _ => ⟨rfl, rfl⟩

/-- **A command obeys the operation that it stands for.** Only a round may have changed the game
when it fails, and then its lines did not fit. -/
theorem obeys_execute (h : s.game.Reachable) (files : Source) (command : Command) :
    Obeys (execute files command) s (command.operation? files s.out)
      fun error => command = .nextAction ∧ IsOutput error := by
  cases command with
  | loadBoard path => exact obeys_execute_loadBoard h files path _
  | loadTrees paths => exact obeys_execute_loadTrees h files paths _
  | listLadybugs => exact obeys_none (ends_question _ fun _ => ends_answer _)
  | nextAction =>
      refine (obeys_execute_nextAction h files).imp (fun _ _ hleaves => hleaves) ?_
      exact fun _ _ hleaves => ⟨hleaves.1, hleaves.2.imp_right fun houtput => ⟨rfl, houtput⟩⟩
  | printPosition agent => exact obeys_none (ends_question _ fun _ => ends_answer _)
  | printBoard => exact obeys_none (ends_bind ends_showBoard)
  | head agent => exact obeys_none (ends_question _ fun _ => ends_answer _)
  | resetTree agent => exact obeys_play (.resetTree agent) (id_map _) h _
  | jumpTo agent node => exact obeys_play (.jumpTo agent node) (id_map _) h _
  | addSibling agent existing node => exact obeys_play (.addSibling agent existing node) (id_map _) h _
  | quit => exact obeys_none ⟨rfl, rfl⟩

/-! ### Lines -/

/-- There is no command on a blank line. -/
theorem trim_of_parse {line : String} {command : Command} (h : Command.parse line = .ok command) :
    (Text.trim line.toList).isEmpty = false := by
  by_contra hblank
  rw [Bool.not_eq_false, List.isEmpty_iff] at hblank
  obtain ⟨w, w', hw, hw', hline⟩ := Flowchart.exists_blanks_of_trim line.toList
  rw [hblank, List.nil_append] at hline
  have hblanks : Flowchart.Blanks line.toList := by
    rw [hline]
    exact fun c hc => (List.mem_append.mp hc).elim (hw c) (hw' c)
  rw [Command.parse, Command.wordsOf, Text.words_of_blanks hblanks] at h
  cases h

/-- A line with a command runs it and complains if it fails, unless the output is closed. -/
theorem handleLine_of_parse {line : String} {command : Command}
    (h : Command.parse line = .ok command) (files : Source) (s : Session) :
    handleLine files line s =
      match execute files command s with
      | .ok flow s' => .ok flow s'
      | .error (.output reason) s' => .error (.output reason) s'
      | .error error s' =>
        .ok .goOn { s' with err := s'.err ++ "Error, " ++ error.message ++ "\n" } := by
  cases hrun : execute files command s with
  | ok flow s' => simp [handleLine, trim_of_parse h, executeLine, h, EStateM.run, hrun]
  | error error s' =>
      cases error <;> simp [handleLine, trim_of_parse h, executeLine, h, EStateM.run, hrun]

end Session

open Session

/-- What a command does to the game and to the error output, whatever becomes of the product
output. -/
structure Command.Effect (files : Source) (command : Command) (s : Session) : Prop where
  /-- The game is as after the operation of the command, if there is one, and as before if there
  is none. -/
  game : (left (execute files command) s).game =
    (command.operation? files s.out).elim s.game s.game.after
  /-- If the game refuses the operation, it is as before. -/
  refused : ∀ op error g', command.operation? files s.out = some op →
    op.run s.game = .error error g' → (left (execute files command) s).game = s.game
  /-- The game after a round is the same for all outputs. -/
  round : command = .nextAction → ∀ out,
    (left (execute files command) { s with out }).game = (left (execute files command) s).game
  /-- If the command fails, the game is as before, unless it was a round whose lines did not
  fit. -/
  failed : ∀ error s', execute files command s = .error error s' →
    s'.game = s.game ∨ command = .nextAction ∧ IsOutput error
  /-- The command itself complains about nothing. -/
  err : (left (execute files command) s).err = s.err
  /-- On a line, a command that fails is complained about and the session goes on, and closed
  output is passed on without a complaint. -/
  line : ∀ line, Command.parse line = .ok command →
    (∀ flow s', execute files command s = .ok flow s' → handleLine files line s = .ok flow s') ∧
    (∀ reason s', execute files command s = .error (.output reason) s' →
      handleLine files line s = .error (.output reason) s' ∧ s'.err = s.err) ∧
    ∀ error s', execute files command s = .error error s' → ¬ IsOutput error →
      handleLine files line s =
        .ok .goOn { s' with err := s.err ++ ("Error, " ++ error.message ++ "\n") }

/-- **Commands affect the game independently of the output**: a command leaves the game as the
operation does for which it stands, or as it was. Loads stand for an operation once all their
files are read and shown, a round and an edit of a tree always do, and all other commands never
do. -/
theorem Command.effect {s : Session} (h : s.game.Reachable) (files : Source) (command : Command) :
    command.Effect files s := by
  have hleft {s : Session} (h : s.game.Reachable) :
      Leaves (command.operation? files s.out) s (left (execute files command) s) := by
    have hobeys := obeys_execute h files command
    rw [Obeys, Ends] at hobeys
    rw [left]
    cases hrun : execute files command s with
    | ok flow s' =>
        rw [hrun] at hobeys
        exact hobeys
    | error error s' =>
        rw [hrun] at hobeys
        exact hobeys.1
  have hfailed {error : ConsoleError} {s' : Session}
      (hrun : execute files command s = .error error s') :
      (s'.game = s.game ∨ command = .nextAction ∧ IsOutput error) ∧ s'.err = s.err := by
    have hobeys := obeys_execute h files command
    rw [Obeys, Ends, hrun] at hobeys
    exact ⟨hobeys.2, hobeys.1.err⟩
  refine
    { game := (hleft h).game
      refused := fun op error g' hop hrefused => ?_
      round := fun hround out => ?_
      failed := fun error s' hrun => (hfailed hrun).1
      err := (hleft h).err
      line := fun line hparse => ⟨fun flow s' hrun => ?_, fun reason s' hrun => ?_,
        fun error s' hrun hother => ?_⟩ }
  · rw [(hleft h).game, hop, Option.elim_some, Game.after, hrefused]
    exact h.run_error hrefused
  · subst hround
    have hgame : (left (execute files .nextAction) { s with out }).game = _ :=
      (hleft (s := { s with out }) h).game
    rw [hgame, (hleft h).game]
    rfl
  · rw [handleLine_of_parse hparse, hrun]
  · rw [handleLine_of_parse hparse, hrun]
    exact ⟨rfl, (hfailed hrun).2⟩
  · rw [handleLine_of_parse hparse, hrun]
    cases error with
    | output reason => exact absurd ⟨reason, rfl⟩ hother
    | _ => simp only [(hfailed hrun).2, String.append_assoc]

/-- A round whose output is closed after three bytes moves the ladybug all the same. -/
theorem Command.effect_cut_round :
    let files : Source := fun _ => .error "there are no files"
    let g := (Game.new.after (.loadBoard [">."])).after
      (.loadTrees ["flowchart TD", "A[move]"])
    let s : Session := ⟨g, .limited 3, ""⟩
    (left (execute files .nextAction) s).out.written.size = 3 ∧
      (left (execute files .nextAction) s).game ≠ s.game ∧ Command.nextAction.Effect files s := by
  intro files g s
  have hreach : g.Reachable := .after _ (.after _ .new)
  have heffect : Command.nextAction.Effect files s := Command.effect hreach files .nextAction
  exact ⟨by decide +kernel, by decide +kernel, heffect⟩

end Ladybug
