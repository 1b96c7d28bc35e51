import Ladybug.Console.Session
import Ladybug.Proofs.Rounds

/-!
# What is printed

All that the console has to say are lines, and where a text is cut into calls does not matter:
lines that are written in two steps are written like all of them at once, with nothing after the
first one that does not fit. The observer who prints a round relies on that. It is called once
for each record and each board, and what it leaves is the same as if the lines of the whole round
had been written at its end.

So in a reachable game the command for a round comes down to two steps that have nothing to do
with each other: the round is played without anyone watching, and then its lines are written.

## Main definitions

* `Sink.bytesOf` — the bytes of lines.
* `Render.callLines` — the lines for what an observer gets to see.
* `Session.Ends` — what a program of a session leaves.

## Main results

* `Sink.pushLines_of_unlimited`, `Sink.pushLines_of_limit` — what becomes of lines in a sink.
* `Session.hear_printer` — a round is printed like its lines.
* `Session.playTurn_cases` — a round is played first and printed then.
-/

namespace Ladybug

/-! ### Lines in a sink -/

namespace Sink

variable {s : Sink} {lines more : List String} {n : Nat}

/-- The bytes of lines, each of them with its end. -/
def bytesOf (lines : List String) : ByteArray :=
  lines.foldr (fun line rest => (line ++ "\n").toUTF8 ++ rest) ByteArray.empty

/-- Lines are written up to the first one that does not fit, also if more of them follow. -/
theorem pushLines_append (s : Sink) (lines more : List String) :
    s.pushLines (lines ++ more) =
      if (s.pushLines lines).2 then (s.pushLines lines).1.pushLines more else s.pushLines lines := by
  induction lines generalizing s with
  | nil => rfl
  | cons line rest ih =>
      rw [List.cons_append, pushLines, pushLines]
      by_cases h : s.hasRoom (line ++ "\n")
      · simp only [h, if_true]
        exact ih _
      · simp only [h, Bool.false_eq_true, if_false]

/-- A sink without limit takes all lines. -/
theorem pushLines_of_unlimited (h : s.limit = none) (lines : List String) :
    s.pushLines lines = ({ s with written := s.written ++ bytesOf lines }, true) := by
  induction lines generalizing s with
  | nil => simp [pushLines, bytesOf]
  | cons line rest ih =>
      have hroom : s.hasRoom (line ++ "\n") = true := by rw [hasRoom, h, Option.all_none]
      have hpush : s.push (line ++ "\n") =
          { s with written := s.written ++ (line ++ "\n").toUTF8 } := by rw [push, fitting, h]
      have hbytes : bytesOf (line :: rest) = (line ++ "\n").toUTF8 ++ bytesOf rest := rfl
      simp only [pushLines, hroom, if_true, hpush]
      rw [hbytes, ← ByteArray.append_assoc]
      exact ih h

/-- Bytes that are few enough are not cut. -/
theorem extract_of_size_le {bytes : ByteArray} (h : bytes.size ≤ n) : bytes.extract 0 n = bytes :=
  ByteArray.ext (ByteArray.data_extract.trans (Array.extract_eq_self_of_le h))

/-- What comes after the limit is cut off. -/
theorem extract_append_of_le {bytes later : ByteArray} (h : n ≤ bytes.size) :
    (bytes ++ later).extract 0 n = bytes.extract 0 n := by
  have hlater : later.extract (0 - bytes.size) (n - bytes.size) = ByteArray.empty := by
    rw [ByteArray.extract_eq_empty_iff]
    omega
  rw [ByteArray.extract_append, hlater, ByteArray.append_empty]

/-- A sink with a limit takes all lines if their bytes fit, and otherwise the bytes up to the
limit. -/
theorem pushLines_of_limit (h : s.limit = some n) (hsize : s.written.size ≤ n)
    (lines : List String) :
    s.pushLines lines =
      if (s.written ++ bytesOf lines).size ≤ n then
        ({ s with written := s.written ++ bytesOf lines }, true)
      else ({ s with written := (s.written ++ bytesOf lines).extract 0 n }, false) := by
  induction lines generalizing s with
  | nil => simp [pushLines, bytesOf, hsize]
  | cons line rest ih =>
      have hbytes : bytesOf (line :: rest) = (line ++ "\n").toUTF8 ++ bytesOf rest := rfl
      have htext : (line ++ "\n").utf8ByteSize = (line ++ "\n").toUTF8.size := rfl
      have hroom : s.hasRoom (line ++ "\n") =
          decide ((s.written ++ (line ++ "\n").toUTF8).size ≤ n) := by
        rw [hasRoom, h, Option.all_some, ByteArray.size_append, htext]
      have hpush : s.push (line ++ "\n") =
          { s with
            written := s.written ++ (line ++ "\n").toUTF8.extract 0 (n - s.written.size) } := by
        rw [push, fitting, h]
      rw [hbytes, ← ByteArray.append_assoc]
      by_cases hfits : (s.written ++ (line ++ "\n").toUTF8).size ≤ n
      · have hall : (line ++ "\n").toUTF8.extract 0 (n - s.written.size) =
            (line ++ "\n").toUTF8 := by
          rw [ByteArray.size_append] at hfits
          exact extract_of_size_le (by omega)
        simp only [pushLines, hroom, hfits, decide_true, if_true, hpush, hall]
        exact ih h hfits
      · have hcut : (s.written ++ (line ++ "\n").toUTF8 ++ bytesOf rest).extract 0 n =
            s.written ++ (line ++ "\n").toUTF8.extract 0 (n - s.written.size) := by
          rw [extract_append_of_le (Nat.le_of_not_le hfits), ByteArray.extract_append,
            extract_of_size_le hsize, Nat.zero_sub]
        have hmore : ¬ (s.written ++ (line ++ "\n").toUTF8 ++ bytesOf rest).size ≤ n := by
          rw [ByteArray.size_append]
          omega
        simp only [pushLines, hroom, hfits, decide_false, Bool.false_eq_true, if_false, hpush,
          hmore, hcut]

end Sink

/-! ### The lines of a round -/

/-- The lines for what an observer gets to see: those of a record, or those of a board. -/
def Render.callLines : TurnObserver.Call → List String
  | .trace trace => trace.map traceLine
  | .turnDone _ w => board w w.colony.activeIds

namespace Session

/-- Lines that are added in two steps are added like all of them at once. -/
theorem addLines_addLines (p : Printout) (lines more : List String) :
    (p.addLines lines).addLines more = p.addLines (lines ++ more) := by
  cases hcomplete : p.complete with
  | false => simp [Printout.addLines, hcomplete]
  | true =>
      simp only [Printout.addLines, hcomplete, if_true, Sink.pushLines_append]
      split <;> simp [*]

/-- A round is printed like its lines. -/
theorem hear_printer (calls : List TurnObserver.Call) (p : Printout) :
    printer.hear calls p = p.addLines (calls.flatMap Render.callLines) := by
  induction calls generalizing p with
  | nil =>
      obtain ⟨out, complete⟩ := p
      cases complete <;> rfl
  | cons call rest ih =>
      rw [List.flatMap_cons, ← addLines_addLines]
      cases call with
      | trace trace => exact ih _
      | turnDone a w => exact ih _

/-! ### What programs of a session leave -/

/-- If the program succeeds, its value and the session after it are as the first condition says,
and if it stops with an error, the error and the session are as the second one says. -/
def Ends {α : Type} (program : SessionM α) (s : Session) (Done : α → Session → Prop)
    (Failed : ConsoleError → Session → Prop) : Prop :=
  match program s with
  | .ok value s' => Done value s'
  | .error error s' => Failed error s'

section Ends

variable {α β : Type} {s : Session} {Done : α → Session → Prop}
  {Failed : ConsoleError → Session → Prop}

/-- More may follow from what a program leaves. -/
theorem Ends.imp {program : SessionM α} (h : Ends program s Done Failed)
    {Done' : α → Session → Prop} {Failed' : ConsoleError → Session → Prop}
    (hdone : ∀ value s', Done value s' → Done' value s')
    (hfailed : ∀ error s', Failed error s' → Failed' error s') :
    Ends program s Done' Failed' := by
  rw [Ends] at h ⊢
  cases hprogram : program s with
  | ok value s' =>
      rw [hprogram] at h
      exact hdone value s' h
  | error error s' =>
      rw [hprogram] at h
      exact hfailed error s' h

/-- One program goes on where the other one has ended. -/
theorem ends_bind {program : SessionM β} {rest : β → SessionM α}
    (h : Ends program s (fun value s' => Ends (rest value) s' Done Failed) Failed) :
    Ends (program >>= rest) s Done Failed := by
  change match EStateM.bind program rest s with | .ok value s' => _ | .error error s' => _
  rw [Ends] at h
  rw [EStateM.bind]
  cases hprogram : program s with
  | ok value s' =>
      rw [hprogram] at h
      exact h
  | error error s' =>
      rw [hprogram] at h
      exact h

/-- Lines are said completely, or only the output has changed. -/
theorem ends_say {lines : List String} {Done : Unit → Session → Prop}
    (hdone : (s.out.pushLines lines).2 = true →
      Done () { s with out := (s.out.pushLines lines).1 })
    (hfailed : (s.out.pushLines lines).2 = false →
      Failed (.output Sink.refusal) { s with out := (s.out.pushLines lines).1 }) :
    Ends (say lines) s Done Failed := by
  rw [Ends, say]
  cases hcomplete : (s.out.pushLines lines).2 with
  | true =>
      simp only [hcomplete, if_true]
      exact hdone hcomplete
  | false =>
      simp only [hcomplete, Bool.false_eq_true, if_false]
      exact hfailed hcomplete

/-- A program of the game changes nothing but the game. -/
theorem ends_play {program : GameM α}
    (hdone : ∀ value g', program s.game = .ok value g' → Done value { s with game := g' })
    (hfailed : ∀ error g', program s.game = .error error g' →
      Failed (.game error) { s with game := g' }) : Ends (play program) s Done Failed := by
  rw [Ends, play, EStateM.run]
  cases hprogram : program s.game with
  | ok value g' => exact hdone value g' hprogram
  | error error g' => exact hfailed error g' hprogram

end Ends

/-! ### Rounds -/

variable {s : Session}

/-- A round that is refused is not printed. -/
theorem playTurn_of_error {error : GameError}
    (h : Game.nextAction printer ⟨s.out, true⟩ s.game = .error error s.game) :
    playTurn s = .error (.game error) s := by
  have hplay : play (Game.nextAction printer ⟨s.out, true⟩) s = .error (.game error) s := by
    rw [play, EStateM.run, h]
  change EStateM.bind (play (Game.nextAction printer ⟨s.out, true⟩)) _ s = _
  rw [EStateM.bind, hplay]

/-- A round that is played is printed like its lines. -/
theorem playTurn_of_ok {calls : List TurnObserver.Call} {trace : Trace} {g' : Game}
    (h : Game.nextAction printer ⟨s.out, true⟩ s.game =
      .ok (trace, printer.hear calls ⟨s.out, true⟩) g') :
    playTurn s = say (calls.flatMap Render.callLines) { s with game := g' } := by
  have hplay : play (Game.nextAction printer ⟨s.out, true⟩) s =
      .ok (trace, printer.hear calls ⟨s.out, true⟩) { s with game := g' } := by
    rw [play, EStateM.run, h]
  change EStateM.bind (play (Game.nextAction printer ⟨s.out, true⟩)) _ s = _
  rw [EStateM.bind, hplay, hear_printer, Printout.addLines, if_pos rfl, say]
  cases hcomplete : (s.out.pushLines (calls.flatMap Render.callLines)).2 with
  | true =>
      simp only [hcomplete, if_true]
      rfl
  | false =>
      simp only [hcomplete, Bool.false_eq_true, if_false]
      rfl

/-- **In a reachable game a round is played first and printed then**, or it is refused at once.
The game and the lines do not depend on the output. -/
theorem playTurn_cases (h : s.game.Reachable) :
    (∃ error, s.game.after (.nextAction .silent ()) = s.game ∧ ∀ out err,
      playTurn ⟨s.game, out, err⟩ = .error (.game error) ⟨s.game, out, err⟩) ∨
    ∃ lines, ∀ out err, playTurn ⟨s.game, out, err⟩ =
      say lines ⟨s.game.after (.nextAction .silent ()), out, err⟩ := by
  cases hready : s.game.ready with
  | error error =>
      have hround {σ : Type} (observer : TurnObserver σ) (memory : σ) :
          Game.nextAction observer memory s.game = .error error s.game := by
        rw [Game.nextAction, bind_of_error (Game.ask_of_error hready)]
      refine .inl ⟨error, ?_, fun out err => playTurn_of_error (hround _ _)⟩
      rw [Game.after, Game.Operation.run, map_of_error (hround .silent ())]
  | ok f =>
      obtain ⟨reports, g', -, hround⟩ := Game.exists_round h hready
      refine .inr ⟨(reports.flatMap Game.Report.calls).flatMap Render.callLines, fun out err => ?_⟩
      have hafter : s.game.after (.nextAction .silent ()) = g' := by
        rw [Game.after, Game.Operation.run, map_of_ok (hround .silent ())]
      rw [hafter]
      exact playTurn_of_ok (hround printer ⟨out, true⟩)

end Session

end Ladybug
