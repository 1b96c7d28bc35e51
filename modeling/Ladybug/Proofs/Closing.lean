import Ladybug.Proofs.Commands
import Ladybug.Proofs.Histories

/-!
# Closed output

A session whose output closes at some byte is compared with the same session without a limit.
Up to the command that has more to say than fits, the two do the same. That command fails in the
limited session with what is left over, and the session ends there, while the other one goes on
and writes more behind. So the limited session has written exactly the first bytes of what the
other one has written, and whatever comes after the command in the script is not even looked at.

A program of a session *truncates* if this is true of it: either all it has to say fits, and then
the limit makes no difference, or it stops with the error of the output. Programs that are made
of such programs one after the other truncate as well, because output only grows.

## Main definitions

* `Session.limitedTo` — the session with a limit to its product output.
* `Session.Grows` — what a program adds to a session without a limit.
* `Session.Truncates` — what a limit does to a program.

## Main results

* `Session.Truncates.bind` — programs one after the other.
* `Session.truncates_execute`, `Session.truncates_handleLine` — commands and lines.
* `Session.run_limited` — a script whose output is closed.
-/

namespace Ladybug

namespace Session

/-! ### Sessions with and without a limit -/

/-- The session with a limit to its product output. -/
def limitedTo (n : Nat) (s : Session) : Session := { s with out := { s.out with limit := some n } }

/-- The result with a limit to the product output of the session. -/
def resultLimitedTo {ε α : Type} (n : Nat) :
    EStateM.Result ε Session α → EStateM.Result ε Session α
  | .ok value s => .ok value (s.limitedTo n)
  | .error error s => .error error (s.limitedTo n)

/-- The session has grown from another one: both outputs have at most become longer, without a
limit, and the game is one that comes about. -/
structure Grows (s s' : Session) : Prop where
  limit : s'.out.limit = s.out.limit
  written : ∃ more, s'.out.written = s.out.written ++ more
  err : ∃ more, s'.err = s.err ++ more
  reachable : s.game.Reachable → s'.game.Reachable

theorem Grows.refl (s : Session) : Grows s s :=
  ⟨rfl, ⟨.empty, ByteArray.append_empty.symm⟩, ⟨"", String.append_empty.symm⟩, id⟩

theorem Grows.trans {s s' s'' : Session} (h : Grows s s') (h' : Grows s' s'') : Grows s s'' where
  limit := h'.limit.trans h.limit
  written := by
    obtain ⟨first, hfirst⟩ := h.written
    obtain ⟨more, hmore⟩ := h'.written
    exact ⟨first ++ more, by rw [hmore, hfirst, ByteArray.append_assoc]⟩
  err := by
    obtain ⟨first, hfirst⟩ := h.err
    obtain ⟨more, hmore⟩ := h'.err
    exact ⟨first ++ more, by rw [hmore, hfirst, String.append_assoc]⟩
  reachable hreach := h'.reachable (h.reachable hreach)

/-- What a limit does to a program in a session without one: if everything fits, it makes no
difference, and otherwise the program stops with the error of closed output, after it has written
the first bytes of what it would have written. -/
structure Truncates {ε α : Type} (closed : ε) (n : Nat) (program : EStateM ε Session α)
    (s : Session) : Prop where
  grows : Grows s (left program s)
  fits : (left program s).out.written.size ≤ n →
    program (s.limitedTo n) = resultLimitedTo n (program s)
  cut : n < (left program s).out.written.size →
    ∃ s', program (s.limitedTo n) = .error closed s' ∧
      s'.out.written = (left program s).out.written.extract 0 n ∧
      ∃ more, (left program s).err = s'.err ++ more

/-- The program truncates in all sessions without a limit whose output fits so far. -/
def AlwaysTruncates {ε α : Type} (closed : ε) (program : EStateM ε Session α) : Prop :=
  ∀ n s, s.out.limit = none → s.game.Reachable → s.out.written.size ≤ n →
    Truncates closed n program s

section Truncates

variable {ε α β : Type} {closed : ε} {program : EStateM ε Session α} {n : Nat} {s t : Session}

theorem left_of_ok {value : α} (h : program s = .ok value t) : left program s = t := by
  rw [left, h]

theorem left_of_error {error : ε} (h : program s = .error error t) : left program s = t := by
  rw [left, h]

/-- A program that behaves the same with and without the limit truncates. -/
theorem truncates_of_fits (hgrows : Grows s (left program s))
    (hsize : (left program s).out.written.size ≤ n)
    (hfits : program (s.limitedTo n) = resultLimitedTo n (program s)) :
    Truncates closed n program s :=
  ⟨hgrows, fun _ => hfits, fun hcut => absurd hsize (Nat.not_le_of_lt hcut)⟩

/-- Returning a value says nothing. -/
theorem truncates_pure (value : α) : AlwaysTruncates closed (pure value) :=
  fun _ s _ _ hsize => truncates_of_fits (Grows.refl s) hsize rfl

/-- What was cut off stays the same while more is written behind it. -/
theorem Grows.extract {s' : Session} (h : Grows t s') (hcut : n < t.out.written.size) :
    n < s'.out.written.size ∧ s'.out.written.extract 0 n = t.out.written.extract 0 n := by
  obtain ⟨more, hmore⟩ := h.written
  rw [hmore, ByteArray.size_append]
  exact ⟨by omega, Sink.extract_append_of_le (Nat.le_of_lt hcut)⟩

/-- A program that stops with an error truncates, whatever would come after it. -/
theorem Truncates.of_error {rest : α → EStateM ε Session β} {error : ε}
    (h : Truncates closed n program s) (hprogram : program s = .error error t) :
    Truncates closed n (program >>= rest) s := by
  have hboth := bind_of_error hprogram rest
  obtain ⟨hgrows, hfits, hcut⟩ := h
  rw [left_of_error hprogram] at hgrows hfits hcut
  rw [hprogram] at hfits
  constructor
  · rwa [left_of_error hboth]
  · rw [left_of_error hboth, hboth]
    exact fun hsize => bind_of_error (hfits hsize) rest
  · rw [left_of_error hboth]
    intro hsize
    obtain ⟨s', hstops, hwritten⟩ := hcut hsize
    exact ⟨s', bind_of_error hstops rest, hwritten⟩

/-- If what the first program has said fits, the other one decides. -/
theorem Truncates.of_fits {rest : α → EStateM ε Session β} {value : α}
    (h : Truncates closed n program s) (hprogram : program s = .ok value t)
    (hsize : t.out.written.size ≤ n) (hrest : Truncates closed n (rest value) t) :
    Truncates closed n (program >>= rest) s := by
  have hboth := bind_of_ok hprogram rest
  have hleft : left (program >>= rest) s = left (rest value) t := by rw [left, hboth, left]
  obtain ⟨hgrows, hfits, -⟩ := h
  rw [left_of_ok hprogram] at hgrows hfits
  rw [hprogram] at hfits
  have hlimited := bind_of_ok (hfits hsize) rest
  constructor
  · rw [hleft]
    exact hgrows.trans hrest.grows
  · rw [hleft, hlimited, hboth]
    exact hrest.fits
  · rw [hleft, hlimited]
    exact hrest.cut

/-- If the first program is cut off, it does not matter what the other one adds. -/
theorem Truncates.of_cut {rest : α → EStateM ε Session β} {value : α}
    (h : Truncates closed n program s) (hprogram : program s = .ok value t)
    (hsize : n < t.out.written.size) (hrest : Grows t (left (rest value) t)) :
    Truncates closed n (program >>= rest) s := by
  have hleft : left (program >>= rest) s = left (rest value) t := by
    rw [left, bind_of_ok hprogram, left]
  obtain ⟨hgrows, -, hcut⟩ := h
  rw [left_of_ok hprogram] at hgrows hcut
  obtain ⟨hover, hextract⟩ := hrest.extract hsize
  obtain ⟨s', hstops, hwritten, more, herr⟩ := hcut hsize
  obtain ⟨later, hlater⟩ := hrest.err
  refine ⟨hleft ▸ hgrows.trans hrest, fun hsmall => ?_, fun _ => ?_⟩
  · rw [hleft] at hsmall
    omega
  · rw [hleft, hextract, hlater, herr]
    exact ⟨s', bind_of_error hstops rest, hwritten, more ++ later, String.append_assoc⟩

/-- One program goes on where the other one has ended, with the limit and without it. -/
theorem AlwaysTruncates.bind {rest : α → EStateM ε Session β}
    (h : AlwaysTruncates closed program) (hrest : ∀ value, AlwaysTruncates closed (rest value)) :
    AlwaysTruncates closed (program >>= rest) := by
  intro n s hlimit hreach hsize
  have hfirst := h n s hlimit hreach hsize
  cases hprogram : program s with
  | error error t => exact hfirst.of_error hprogram
  | ok value t =>
      have hgrows := hfirst.grows
      rw [left_of_ok hprogram] at hgrows
      have hlimit' : t.out.limit = none := hgrows.limit.trans hlimit
      have hreach' := hgrows.reachable hreach
      by_cases hsize' : t.out.written.size ≤ n
      · exact hfirst.of_fits hprogram hsize' (hrest value n t hlimit' hreach' hsize')
      · have hnext := hrest value t.out.written.size t hlimit' hreach' (Nat.le_refl _)
        exact hfirst.of_cut hprogram (Nat.lt_of_not_le hsize') hnext.grows

end Truncates

/-! ### Commands -/

/-- The error of closed output. -/
def closedOutput : ConsoleError := .output Sink.refusal

variable {files : Source}

/-- Stopping with an error says nothing. -/
theorem truncates_fail {α : Type} (error : ConsoleError) :
    AlwaysTruncates closedOutput (fail error : SessionM α) :=
  fun _ s _ _ hsize => truncates_of_fits (Grows.refl s) hsize rfl

/-- Lines that all fit are said. -/
theorem say_of_complete {s : Session} {lines : List String} {out : Sink}
    (h : s.out.pushLines lines = (out, true)) : say lines s = .ok () { s with out } := by
  simp [say, h]

/-- Lines that do not all fit close the output. -/
theorem say_of_cut {s : Session} {lines : List String} {out : Sink}
    (h : s.out.pushLines lines = (out, false)) :
    say lines s = .error closedOutput { s with out } := by
  simp [say, h, closedOutput]

/-- Lines are said as far as they fit. -/
theorem truncates_say (lines : List String) : AlwaysTruncates closedOutput (say lines) := by
  intro n s hlimit _ hsize
  have hsay := say_of_complete (Sink.pushLines_of_unlimited hlimit lines)
  have hpush : (s.limitedTo n).out.pushLines lines = _ :=
    Sink.pushLines_of_limit (s := (s.limitedTo n).out) rfl hsize lines
  constructor
  · rw [left_of_ok hsay]
    exact ⟨rfl, ⟨_, rfl⟩, ⟨"", String.append_empty.symm⟩, id⟩
  · rw [left_of_ok hsay, hsay]
    intro hfits
    exact say_of_complete (hpush.trans (if_pos hfits))
  · rw [left_of_ok hsay]
    intro hcut
    exact ⟨_, say_of_cut (hpush.trans (if_neg (Nat.not_le_of_lt hcut))), rfl, "",
      String.append_empty.symm⟩

/-- What a program of the game leaves is put in place of the game. -/
theorem left_play {α : Type} (program : GameM α) (s : Session) :
    left (play program) s = { s with game := Game.left program s.game } := by
  simp only [left, play, EStateM.run, Game.left]
  cases program s.game <;> rfl

/-- The game does not know about the limit. -/
theorem play_limitedTo {α : Type} (program : GameM α) (n : Nat) (s : Session) :
    play program (s.limitedTo n) = resultLimitedTo n (play program s) := by
  have hgame : (s.limitedTo n).game = s.game := rfl
  simp only [play, EStateM.run, hgame]
  cases program s.game <;> rfl

/-- The game is played without saying anything. -/
theorem truncates_play {α : Type} {program : GameM α}
    (h : ∀ g : Game, g.Reachable → (Game.left program g).Reachable) :
    AlwaysTruncates closedOutput (play program) := by
  intro n s _ hreach hsize
  have hleft := left_play program s
  refine truncates_of_fits ?_ ?_ (play_limitedTo program n s)
  · rw [hleft]
    exact ⟨rfl, ⟨_, ByteArray.append_empty.symm⟩, ⟨"", String.append_empty.symm⟩, h s.game⟩
  · rwa [hleft]

/-- A question says nothing. -/
theorem truncates_ask {α : Type} (question : Game → Except GameError α) :
    AlwaysTruncates closedOutput (play (Game.ask question)) := by
  refine truncates_play fun g hreach => ?_
  rw [Game.left, Game.ask]
  cases question g <;> exact hreach

/-- The program of an operation says nothing. -/
theorem truncates_operation {α : Type} {program : GameM α} (op : Game.Operation)
    (hop : (fun _ => ()) <$> program = op.run) :
    AlwaysTruncates closedOutput (play program) := by
  refine truncates_play fun g hreach => ?_
  have hafter : g.after op = Game.left program g := by
    rw [Game.after_eq_left, ← hop, Game.left_map]
  exact hafter ▸ .after op hreach

/-- A round is printed as far as it fits. -/
theorem truncates_playTurn : AlwaysTruncates closedOutput playTurn := by
  intro n s hlimit hreach hsize
  obtain ⟨game, out, err⟩ := s
  rcases playTurn_cases hreach with ⟨error, -, hrefused⟩ | ⟨lines, hplayed⟩
  · have hleft := left_of_error (hrefused out err)
    refine truncates_of_fits ?_ ?_ ?_
    · rw [hleft]
      exact Grows.refl _
    · rwa [hleft]
    · exact (hrefused _ _).trans (congrArg (resultLimitedTo n) (hrefused out err).symm)
  · -- The round is played in both sessions, and its lines are said in the games after it.
    have hround : game.Reachable → (game.after (.nextAction .silent ())).Reachable := .after _
    have hsaid := truncates_say lines n ⟨game.after (.nextAction .silent ()), out, err⟩ hlimit
      (hround hreach) hsize
    have hleft : left playTurn ⟨game, out, err⟩ =
        left (say lines) ⟨game.after (.nextAction .silent ()), out, err⟩ := by
      rw [left, hplayed, left]
    constructor
    · rw [hleft]
      refine Grows.trans ?_ hsaid.grows
      exact ⟨rfl, ⟨_, ByteArray.append_empty.symm⟩, ⟨"", String.append_empty.symm⟩, hround⟩
    · rw [hleft, hplayed]
      exact fun hfits => (hplayed _ _).trans (hsaid.fits hfits)
    · rw [hleft]
      intro hcut
      obtain ⟨s', hstops, hwritten⟩ := hsaid.cut hcut
      exact ⟨s', (hplayed _ _).trans hstops, hwritten⟩

/-- A file is shown as far as it fits. -/
theorem truncates_showFile (files : Source) (path : String) :
    AlwaysTruncates closedOutput (showFile files path) := by
  rw [showFile]
  cases linesOfFile files path with
  | error error => exact truncates_fail error
  | ok lines => exact (truncates_say lines).bind fun _ => truncates_pure lines

/-- Several files are shown as far as they fit. -/
theorem truncates_showFiles (files : Source) (paths : List String) :
    AlwaysTruncates closedOutput (showFiles files paths) := by
  induction paths with
  | nil => exact truncates_pure []
  | cons path rest ih =>
      exact (truncates_showFile files path).bind fun _ => ih.bind fun _ => truncates_pure _

/-- The lines of the board as it is shown. -/
def boardLines (g : Game) : Except GameError (List String) := do
  let w ← g.world
  return Render.board w (if g.treesLoaded then w.colony.activeIds else w.colony.ids)

/-- A question with an answer leaves the session as it is. -/
theorem play_ask_of_ok {α : Type} {question : Game → Except GameError α} {answer : α} {s : Session}
    (h : question s.game = .ok answer) : play (Game.ask question) s = .ok answer s := by
  simp [play, EStateM.run, Game.ask_of_ok h]

/-- A question without an answer leaves the session as it is. -/
theorem play_ask_of_error {α : Type} {question : Game → Except GameError α} {error : GameError}
    {s : Session} (h : question s.game = .error error) :
    play (Game.ask question) s = .error (.game error) s := by
  simp [play, EStateM.run, Game.ask_of_error h]

/-- Showing the board is a question whose answer is said. -/
theorem showBoard_eq : showBoard = play (Game.ask boardLines) >>= say := by
  funext s
  have hlines : boardLines s.game = s.game.world.map fun w =>
      Render.board w (if s.game.treesLoaded then w.colony.activeIds else w.colony.ids) := by
    rw [boardLines]
    cases s.game.world <;> rfl
  rw [showBoard]
  cases hworld : s.game.world with
  | ok w =>
      rw [hworld] at hlines
      rw [bind_of_ok (play_ask_of_ok hworld), bind_of_ok (play_ask_of_ok hlines)]
      exact bind_of_ok rfl _
  | error error =>
      rw [hworld] at hlines
      rw [bind_of_error (play_ask_of_error hworld), bind_of_error (play_ask_of_error hlines)]

/-- Every command says as much as fits. -/
theorem truncates_execute (files : Source) (command : Command) :
    AlwaysTruncates closedOutput (execute files command) := by
  have hdone : AlwaysTruncates closedOutput (pure Flow.goOn : SessionM Flow) := truncates_pure _
  have hanswer (lines : List String) :
      AlwaysTruncates closedOutput (do say lines; return Flow.goOn : SessionM Flow) :=
    (truncates_say lines).bind fun _ => hdone
  cases command with
  | loadBoard path =>
      refine (truncates_showFile files path).bind fun lines => ?_
      exact (truncates_operation (.loadBoard lines) rfl).bind fun _ => hdone
  | loadTrees paths =>
      refine (truncates_showFiles files paths).bind fun texts => ?_
      exact (truncates_operation (.loadTreeFiles texts) rfl).bind fun _ => hdone
  | listLadybugs => exact (truncates_ask _).bind fun _ => hanswer _
  | nextAction => exact truncates_playTurn.bind fun _ => hdone
  | printPosition agent => exact (truncates_ask _).bind fun _ => hanswer _
  | printBoard =>
      rw [execute, showBoard_eq]
      exact ((truncates_ask boardLines).bind truncates_say).bind fun _ => hdone
  | head agent => exact (truncates_ask _).bind fun _ => hanswer _
  | resetTree agent =>
      exact (truncates_operation (.resetTree agent) (id_map _)).bind fun _ => hdone
  | jumpTo agent node =>
      exact (truncates_operation (.jumpTo agent node) (id_map _)).bind fun _ => hdone
  | addSibling agent existing node =>
      exact (truncates_operation (.addSibling agent existing node) (id_map _)).bind fun _ => hdone
  | quit => exact truncates_pure _

/-! ### Lines -/

/-- The result of a line, given that of its command: a command that fails is complained about,
unless the output is closed. -/
def handled : EStateM.Result ConsoleError Session Flow → EStateM.Result ConsoleError Session Flow
  | .ok flow s => .ok flow s
  | .error (.output reason) s => .error (.output reason) s
  | .error error s =>
    .ok .goOn { s with err := s.err ++ "Error, " ++ error.message ++ "\n" }

/-- A line that is not blank is handled as its command ends. -/
theorem handleLine_of_not_blank {line : String} (h : ¬ (Text.trim line.toList).isEmpty)
    (files : Source) (s : Session) :
    handleLine files line s = handled (executeLine files line s) := by
  simp only [handleLine, h, Bool.false_eq_true, if_false, EStateM.run]
  cases executeLine files line s with
  | ok flow s' => rfl
  | error error s' => cases error <;> rfl

/-- Complaints do not depend on the limit. -/
theorem handled_limitedTo (n : Nat) (result : EStateM.Result ConsoleError Session Flow) :
    handled (resultLimitedTo n result) = resultLimitedTo n (handled result) := by
  cases result with
  | ok flow s => rfl
  | error error s => cases error <;> rfl

/-- A complaint is written behind what was complained about before, and nothing else changes. -/
theorem exists_complaint (program : SessionM Flow) (s : Session) :
    ∃ complaint, left (fun s => handled (program s)) s =
      { left program s with err := (left program s).err ++ complaint } := by
  simp only [left]
  cases program s with
  | ok flow s' => exact ⟨"", by simp [handled]⟩
  | error error s' =>
      cases error with
      | output reason => exact ⟨"", by simp [handled]⟩
      | _ => exact ⟨_, by simp only [handled, String.append_assoc]; rfl⟩

/-- Complaining about what has failed does not add to the output. -/
theorem Truncates.complain {program : SessionM Flow} {n : Nat} {s : Session}
    (h : Truncates closedOutput n program s) :
    Truncates closedOutput n (fun s => handled (program s)) s := by
  obtain ⟨complaint, hcomplaint⟩ := exists_complaint program s
  constructor
  · rw [hcomplaint]
    exact h.grows.trans ⟨rfl, ⟨_, ByteArray.append_empty.symm⟩, ⟨complaint, rfl⟩, id⟩
  · rw [hcomplaint]
    intro hfits
    rw [h.fits hfits, handled_limitedTo]
  · rw [hcomplaint]
    intro hcut
    obtain ⟨s', hstops, hwritten, more, herr⟩ := h.cut hcut
    refine ⟨s', by rw [hstops]; rfl, hwritten, more ++ complaint, ?_⟩
    change (left program s).err ++ complaint = _
    rw [herr, String.append_assoc]

/-- A line says as much as fits. -/
theorem truncates_handleLine (files : Source) (line : String) :
    AlwaysTruncates closedOutput (handleLine files line) := by
  have hexecute : AlwaysTruncates closedOutput (executeLine files line) := by
    rw [executeLine]
    cases Command.parse line with
    | ok command => exact truncates_execute files command
    | error error => exact truncates_fail error
  intro n s hlimit hreach hsize
  by_cases hblank : (Text.trim line.toList).isEmpty
  · have hline : handleLine files line = pure .goOn := by
      funext s
      simp only [handleLine, hblank, if_true]
      rfl
    rw [hline]
    exact truncates_pure Flow.goOn n s hlimit hreach hsize
  · rw [funext (handleLine_of_not_blank hblank files)]
    exact (hexecute n s hlimit hreach hsize).complain

/-! ### Scripts -/

/-- The result with another error. -/
def resultWithError {ε ε' α : Type} (f : ε → ε') :
    EStateM.Result ε Session α → EStateM.Result ε' Session α
  | .ok value s => .ok value s
  | .error error s => .error (f error) s

/-- What the error is called does not matter. -/
theorem AlwaysTruncates.withError {ε ε' α : Type} {closed : ε} {program : EStateM ε Session α}
    (h : AlwaysTruncates closed program) (f : ε → ε') :
    AlwaysTruncates (f closed) fun s => resultWithError f (program s) := by
  intro n s hlimit hreach hsize
  have hrun := h n s hlimit hreach hsize
  have hleft : left (fun s => resultWithError f (program s)) s = left program s := by
    simp only [left]
    cases program s <;> rfl
  constructor
  · rw [hleft]
    exact hrun.grows
  · rw [hleft]
    intro hfits
    rw [hrun.fits hfits]
    cases program s <;> rfl
  · rw [hleft]
    intro hcut
    obtain ⟨s', hstops, hwritten⟩ := hrun.cut hcut
    exact ⟨s', by rw [hstops, resultWithError], hwritten⟩

/-- Why a script ends if a line of it stops with an error. -/
def scriptError (error : ConsoleError) : ScriptError := .output (error.cause?.getD error.message)

/-- Runs one line of bytes. -/
def runLine (files : Source) (line : List UInt8) : EStateM ScriptError Session Flow := fun s =>
  match String.fromUTF8? ⟨line.toArray⟩ with
  | none => .error .input s
  | some text => resultWithError scriptError (handleLine files text s)

/-- A script goes on after a line that does not quit. -/
theorem runLines_cons (files : Source) (line : List UInt8) (rest : List (List UInt8)) :
    runLines files (line :: rest) =
      runLine files line >>= fun flow => if flow = .goOn then runLines files rest else pure () := by
  funext s
  change _ = EStateM.bind (runLine files line) _ s
  rw [runLines, EStateM.bind, runLine]
  cases String.fromUTF8? ⟨line.toArray⟩ with
  | none => rfl
  | some text =>
      simp only [EStateM.run]
      cases handleLine files text s with
      | ok flow s' => cases flow <;> rfl
      | error error s' => rfl

/-- A line of bytes says as much as fits. -/
theorem truncates_runLine (files : Source) (line : List UInt8) :
    AlwaysTruncates (.output Sink.refusal) (runLine files line) := by
  cases htext : String.fromUTF8? ⟨line.toArray⟩ with
  | none =>
      have hline (s : Session) : runLine files line s = .error .input s := by
        rw [runLine, htext]
      intro n s _ _ hsize
      have hleft := left_of_error (hline s)
      refine truncates_of_fits ?_ ?_ ?_
      · rw [hleft]
        exact Grows.refl s
      · rwa [hleft]
      · rw [hline, hline, resultLimitedTo]
  | some text =>
      have hline : runLine files line =
          fun s => resultWithError scriptError (handleLine files text s) := by
        funext s
        rw [runLine, htext]
      rw [hline]
      exact (truncates_handleLine files text).withError scriptError

/-- A script says as much as fits. -/
theorem truncates_runLines (files : Source) (lines : List (List UInt8)) :
    AlwaysTruncates (.output Sink.refusal) (runLines files lines) := by
  induction lines with
  | nil => exact truncates_pure ()
  | cons line rest ih =>
      rw [runLines_cons]
      refine (truncates_runLine files line).bind fun flow => ?_
      split
      · exact ih
      · exact truncates_pure ()

/-- Lines after one that ends the script with an error do not matter. -/
theorem runLines_append_of_error {lines : List (List UInt8)} {s t : Session} {error : ScriptError}
    (h : runLines files lines s = .error error t) (more : List (List UInt8)) :
    runLines files (lines ++ more) s = .error error t := by
  induction lines generalizing s with
  | nil => cases h
  | cons line rest ih =>
      rw [List.cons_append, runLines_cons]
      rw [runLines_cons] at h
      cases hline : runLine files line s with
      | error error' t' =>
          rw [bind_of_error hline] at h ⊢
          exact h
      | ok flow s' =>
          rw [bind_of_ok hline] at h ⊢
          cases flow with
          | goOn => exact ih h
          | quit => exact h

/-- A list without a property gets it with one of its elements, if it has it in the end. -/
theorem exists_first {α : Type} {P : List α → Prop} (hnil : ¬ P []) {xs : List α} (h : P xs) :
    ∃ before x after, xs = before ++ x :: after ∧ ¬ P before ∧ P (before ++ [x]) := by
  induction xs using List.reverseRecOn with
  | nil => exact absurd h hnil
  | append_singleton xs x ih =>
      by_cases hxs : P xs
      · obtain ⟨before, y, after, rfl, hbefore, hy⟩ := ih hxs
        exact ⟨before, y, after ++ [x], by simp, hbefore, hy⟩
      · exact ⟨xs, x, [], rfl, hxs, h⟩

/-- How a program ends: with a value, or with an error. -/
def ending {ε α : Type} (program : EStateM ε Session α) (s : Session) : Except ε α :=
  match program s with
  | .ok value _ => .ok value
  | .error error _ => .error error

section Ends

variable {ε α : Type} {closed : ε} {n : Nat} {program : EStateM ε Session α} {s : Session}

/-- If everything fits, the two sessions end in the same way and differ in their limit only. -/
theorem Truncates.same (h : Truncates closed n program s)
    (hsize : (left program s).out.written.size ≤ n) :
    ending program (s.limitedTo n) = ending program s ∧
      left program (s.limitedTo n) = (left program s).limitedTo n := by
  rw [ending, ending, left, left, h.fits hsize]
  cases program s <;> exact ⟨rfl, rfl⟩

/-- The session with a limit writes the first bytes of what the one without a limit writes. -/
theorem Truncates.written_eq (h : Truncates closed n program s) :
    (left program (s.limitedTo n)).out.written = (left program s).out.written.extract 0 n := by
  by_cases hsize : (left program s).out.written.size ≤ n
  · rw [(h.same hsize).2, Sink.extract_of_size_le hsize]
    rfl
  · obtain ⟨s', hstops, hwritten, -⟩ := h.cut (Nat.lt_of_not_le hsize)
    rw [left_of_error hstops]
    exact hwritten

end Ends

/-- Once lines go beyond the limit, it does not matter to the session with the limit which ones
come after them. -/
theorem runLines_append_of_cut {n : Nat} {closed : ScriptError} {lines : List (List UInt8)}
    {s : Session} (h : Truncates closed n (runLines files lines) s)
    (hbeyond : n < (left (runLines files lines) s).out.written.size)
    (more other : List (List UInt8)) :
    runLines files (lines ++ more) (s.limitedTo n) =
      runLines files (lines ++ other) (s.limitedTo n) := by
  obtain ⟨t, hstops, -⟩ := h.cut hbeyond
  rw [runLines_append_of_error hstops more, runLines_append_of_error hstops other]

/-- **Closed output truncates and does nothing else.** A script is run in two fresh sessions, one
without a limit and one whose output takes `n` bytes. The second one writes exactly the first `n`
bytes of what the first one writes. If that is all of it, the two sessions end in the same way,
with the same complaints and the same game. Otherwise the second one ends with the error of its
output, what it has complained about is the beginning of what the first one complains about, and
it has got to the line at which the first one goes beyond `n` bytes: the lines after that one do
not matter to it. -/
theorem run_limited (files : Source) (script : ByteArray) (n : Nat) :
    let full := left (run files script) (start .unlimited)
    let cut := left (run files script) (start (.limited n))
    cut.out.written = full.out.written.extract 0 n ∧
    (full.out.written.size ≤ n →
      ending (run files script) (start (.limited n)) =
        ending (run files script) (start .unlimited) ∧
      cut.err = full.err ∧ cut.game = full.game) ∧
    (n < full.out.written.size →
      ending (run files script) (start (.limited n)) = .error (.output Sink.refusal) ∧
      (∃ more, full.err = cut.err ++ more) ∧
      ∃ before line after, Text.byteLines script.data.toList = before ++ line :: after ∧
        (left (runLines files before) (start .unlimited)).out.written.size ≤ n ∧
        n < (left (runLines files (before ++ [line])) (start .unlimited)).out.written.size ∧
        ∀ other, runLines files (before ++ line :: other) (start (.limited n)) =
          run files script (start (.limited n))) := by
  have htruncates (lines : List (List UInt8)) :
      Truncates (.output Sink.refusal) n (runLines files lines) (start .unlimited) :=
    truncates_runLines files lines n (start .unlimited) rfl .new (Nat.zero_le n)
  intro full cut
  have hrun := htruncates (Text.byteLines script.data.toList)
  refine ⟨hrun.written_eq, fun hsize => ?_, fun hsize => ?_⟩
  · obtain ⟨hending, hleft⟩ := hrun.same hsize
    have hcut : cut = full.limitedTo n := hleft
    rw [hcut]
    exact ⟨hending, rfl, rfl⟩
  · obtain ⟨s', hstops, -, herr⟩ := hrun.cut hsize
    have hstops' : run files script (start (.limited n)) = .error _ s' := hstops
    have hcut : cut = s' := left_of_error hstops
    rw [hcut, ending, hstops']
    -- The first line with which the session without a limit goes beyond the limit.
    obtain ⟨before, line, after, hlines, hbefore, hline⟩ := exists_first
      (P := fun lines =>
        n < (left (runLines files lines) (start .unlimited)).out.written.size)
      (Nat.not_lt_zero n) hsize
    refine ⟨rfl, herr, before, line, after, hlines, Nat.le_of_not_lt hbefore, hline,
      fun other => ?_⟩
    have hother := runLines_append_of_cut (htruncates (before ++ [line])) hline other after
    rw [List.append_assoc, List.append_assoc, List.singleton_append, List.singleton_append,
      ← hlines] at hother
    rw [← hstops']
    exact hother

/-- The board is shown when it is loaded. With room for a byte less than that, the command fails,
and the board is not printed again. -/
theorem run_limited_two :
    let files : Source := fun _ => .ok ">.".toUTF8
    let script : ByteArray := "load board b\nprint board\n".toUTF8
    let full := left (run files script) (start .unlimited)
    let cut := left (run files script) (start (.limited 2))
    full.out.written = ">.\n+--+\n|>.|\n+--+\n".toUTF8 ∧ cut.out.written = ">.".toUTF8 ∧
      cut.game = .new ∧
      ending (run files script) (start (.limited 2)) = .error (.output Sink.refusal) := by
  intro files script full cut
  have hcut := (run_limited files script 2).2.2
  exact ⟨by decide +kernel, by decide +kernel, by decide +kernel, (hcut (by decide +kernel)).1⟩

end Session

end Ladybug
