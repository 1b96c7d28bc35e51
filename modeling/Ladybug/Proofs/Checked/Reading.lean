import Ladybug.Proofs.Binding
import Ladybug.Proofs.Checked.Tree

/-!
# Valid accesses while flowcharts are read

Three kinds of accesses are made while a text is read. Coordinates are counted from zero, which
takes one off each of them. They have been compared with the largest integers of 32 bits before,
and the smallest one is refused although it has 32 bits too, so that one can be taken off. Nodes
are read and written by the rows that were returned when they were declared or looked up, in a
table that only grows. And the number of ladybugs left for the next text is what remains of all
of them, which cannot become negative since no text may hold more trees than ladybugs are left.

So reading makes valid accesses only, whatever the text is, and it is refused for the same
reasons or returns the same trees as the unchecked reading.

## Main definitions

* `Checked.readKind`, `Checked.readNode` — brackets and nodes, with checked accesses.
* `Checked.readTrees`, `Checked.readTreeFiles` — texts of trees, with checked accesses.

## Main results

* `Checked.readNode_agrees`, `Checked.readTreeFiles_agrees` — reading makes valid accesses only.
-/

namespace Ladybug.Checked

open Text Flowchart

/-! ### Coordinates -/

/-- The position that a user calls `(x, y)`. -/
def ofDisplay (x y : Int) : Checked Position := do
  let column ← int32 (x - 1)
  let row ← int32 (y - 1)
  return ⟨column, row⟩

/-- The position with written coordinates, if they are small enough. -/
def position? : Int × Int → Checked (Option Position)
  | (x, y) =>
    if -maxCoordinate ≤ x ∧ x ≤ maxCoordinate ∧ -maxCoordinate ≤ y ∧ y ≤ maxCoordinate then do
      let p ← ofDisplay x y
      return some p
    else .ok none

/-- The positions with written coordinates, up to the first one that is too large. -/
def positions? : List (Int × Int) → Checked (Option (List Position))
  | [] => .ok (some [])
  | pair :: rest => do
    let first ← position? pair
    match first with
    | none => return none
    | some p =>
      let more ← positions? rest
      return more.map (p :: ·)

/-- The positions that a whole text lists. -/
def readPositions? (cs : List Char) : Checked (Option (List Position)) :=
  if isPairList cs then positions? (findPairs cs) else .ok none

theorem position?_eq (pair : Int × Int) : position? pair = .ok (Flowchart.position? pair) := by
  obtain ⟨x, y⟩ := pair
  rw [position?, Flowchart.position?]
  split
  · next h =>
      have hfits : Fits (x - 1) ∧ Fits (y - 1) := by
        unfold Fits
        omega
      rw [ofDisplay, int32_eq hfits.1, int32_eq hfits.2]
      rfl
  · rfl

theorem positions?_eq (pairs : List (Int × Int)) :
    positions? pairs = .ok (pairs.mapM Flowchart.position?) := by
  induction pairs with
  | nil => rfl
  | cons pair rest ih =>
      rw [positions?, position?_eq, ok_bind, List.mapM_cons]
      cases Flowchart.position? pair with
      | none => rfl
      | some p =>
          dsimp only
          rw [ih, ok_bind]
          cases rest.mapM Flowchart.position? <;> rfl

/-- **Reading coordinates makes valid accesses only**, whatever the text is. -/
theorem readPositions?_eq (cs : List Char) :
    readPositions? cs = .ok (Flowchart.readPositions? cs) := by
  rw [readPositions?, Flowchart.readPositions?]
  split
  · exact positions?_eq _
  · rfl

/-! ### Nodes -/

/-- The action that the text in a square bracket denotes. -/
def readAction (cs : List Char) : ExceptT LineFault Checked Action := do
  let (keyword, rest) := keywordAndRest cs
  if keyword = "fly" then
    let positions ← readPositions? rest
    outcome <| match positions with
      | some [goal] => .ok (.fly goal)
      | _ => .error (.invalidCoordinates (String.ofList rest))
  else
    outcome <| match Action.plain.find? fun action => action.keyword == keyword with
      | none => .error (.unknownAction keyword)
      | some action =>
        if rest.isEmpty then .ok action else .error (.unexpectedArguments keyword)

/-- The condition that the text in a round bracket denotes. -/
def readCondition (cs : List Char) : ExceptT LineFault Checked Condition := do
  let (keyword, rest) := keywordAndRest cs
  if keyword = "existsPath" then
    let positions ← readPositions? rest
    outcome <| match positions with
      | some [goal] => .ok (.pathTo goal)
      | some [start, goal] => .ok (.pathBetween start goal)
      | _ => .error (.invalidCoordinates (String.ofList rest))
  else
    outcome <| match Condition.plain.find? fun condition => condition.keyword == keyword with
      | some condition =>
        if rest.isEmpty then .ok condition
        else .error (.unknownCondition (String.ofList cs))
      | none => .error (.unknownCondition (String.ofList cs))

/-- The kind of node that a bracket denotes. -/
def readKind (b : Bracket) : ExceptT LineFault Checked NodeKind :=
  let inner := trim b.inner
  if inner = ['?'] then return .composite .fallback
  else if inner = ['-', '>'] then return .composite .sequence
  else if inner.head? = some '=' ∧ inner.getLast? = some '>' then
    outcome <| match readThreshold? (inner.drop 1).dropLast with
      | some threshold => .ok (.composite (.parallel threshold))
      | none => .error (.invalidThreshold (String.ofList inner))
  else if b.round then return .condition (← readCondition inner)
  else return .action (← readAction inner)

/-- The node that a text declares by itself. -/
def readSpec (text : String) : ExceptT LineFault Checked NodeSpec :=
  let token := trim text.toList
  match Token.read? token with
  | some ⟨id, some bracket⟩ => do
    let kind ← readKind bracket
    return { id := String.ofList id, kind }
  | _ => throw (.invalidNode (String.ofList token))

/-- The node that a text declares by itself, with faults reported for line zero. -/
def readNode (text : String) : ExceptT FlowchartError Checked NodeSpec :=
  (readSpec text).adapt (.atLine 0)

theorem readAction_agrees (cs : List Char) : Agrees (readAction cs) (Flowchart.readAction cs) := by
  rw [readAction, Flowchart.readAction]
  exact .ite (fun _ => .access (readPositions?_eq _) (.outcome _)) fun _ => .outcome _

theorem readCondition_agrees (cs : List Char) :
    Agrees (readCondition cs) (Flowchart.readCondition cs) := by
  rw [readCondition, Flowchart.readCondition]
  exact .ite (fun _ => .access (readPositions?_eq _) (.outcome _)) fun _ => .outcome _

theorem readKind_agrees (b : Bracket) : Agrees (readKind b) b.kind := by
  refine .ite (fun _ => .pure _) fun _ => .ite (fun _ => .pure _) fun _ =>
    .ite (fun _ => .outcome _) fun _ => .ite (fun _ => ?_) fun _ => ?_
  · exact .map (readCondition_agrees _)
  · exact .map (readAction_agrees _)

/-- **Reading a node makes valid accesses only**, whatever the text is. -/
theorem readNode_agrees (text : String) : Agrees (readNode text) (Flowchart.readNode text) := by
  refine .mapError ?_
  rw [readSpec, Flowchart.readSpec]
  rcases Token.read? (trim text.toList) with - | ⟨id, - | bracket⟩
  · exact .throw _
  · exact .throw _
  · exact .map (readKind_agrees bracket)

/-! ### Blocks -/

/-- Makes one node the last child of another. -/
def addChild (t : Arena) (parent child : NodeIdx) : ExceptT TreeError Checked Arena := do
  let p ← node t parent
  if p.kind.isComposite then
    let t ← modify t parent fun n => { n with children := n.children ++ [child] }
    modify t child fun n => { n with parent := some parent }
  else throw (.notComposite p.id)

/-- The node that a token names, and the block in which it is declared. -/
def resolve (b : Block) (token : Token) : ExceptT LineFault Checked (Block × NodeIdx) := do
  let id := String.ofList token.id
  match b.arena.lookup? id, token.bracket with
  | some i, none => return (b, i)
  | some _, some _ => throw (.redefinition id)
  | none, none => throw (.invalidNode (String.ofList token.text))
  | none, some bracket =>
    let kind ← readKind bracket
    outcome <| match b.arena.addNode { id, kind } with
      | .error _ => .error (.redefinition id)
      | .ok (arena, i) => .ok ({ b with arena, hasAction := b.hasAction || kind.isAction }, i)

/-- The block with one more edge. -/
def addEdge (b : Block) (edge : Edge) : ExceptT LineFault Checked Block := do
  let (found, parent) ← resolve b edge.parent
  let (both, child) ← resolve found edge.child
  let n ← node both.arena parent
  let arena ← (addChild both.arena parent child).adapt
    fun _ => LineFault.notComposite n.id n.kind.category
  return { both with arena, root := both.root.or (some parent) }

/-- The block after one more line. -/
def readBlockLine (b : Block) (line : List Char) : ExceptT LineFault Checked Block :=
  match Edge.read? line with
  | some edge => addEdge b edge
  | none =>
    let text := trim line
    let single := if b.arena.isEmpty then Token.read? text else none
    match single.filter fun token => token.bracket.isSome with
    | some token => do
      let (found, root) ← resolve b token
      return { found with root := some root }
    | none => throw (.invalidEdge (String.ofList text))

/-- The finished tree. -/
def close (b : Block) : ExceptT FlowchartError Checked Tree :=
  match b.root with
  | none => throw (.noAction b.number)
  | some root => do
    let unreachable ← unreachableFrom b.arena root
    outcome <| match unreachable with
      | id :: _ => .error (.disconnected b.number id)
      | [] => if b.hasAction then .ok (Tree.ofArena b.arena root) else .error (.noAction b.number)

section Blocks

variable {b : Block}

theorem addChild_agrees {t : Arena} {parent child : NodeIdx} (hparent : parent < t.size)
    (hchild : child < t.size) : Agrees (addChild t parent child) (t.addChild parent child) := by
  refine .access (node_eq hparent) (.ite (fun _ => ?_) fun _ => .throw _)
  exact .access (modify_eq hparent _) (.lift (modify_eq (by rwa [Arena.size_modify]) _))

theorem resolve_agrees (b : Block) (token : Token) :
    Agrees (resolve b token) (b.resolve token) := by
  rw [resolve, Block.resolve]
  cases b.arena.lookup? (String.ofList token.id) with
  | some i =>
      cases token.bracket with
      | none => exact .pure _
      | some _ => exact .throw _
  | none =>
      cases token.bracket with
      | none => exact .throw _
      | some bracket => exact .bind (readKind_agrees bracket) fun kind _ => .outcome _

/-- Resolving a token takes no row away. -/
theorem size_le_of_resolve {b b' : Block} {token : Token} {i : NodeIdx}
    (h : b.resolve token = .ok (b', i)) : b.arena.size ≤ b'.arena.size := by
  rcases Block.resolve_eq_ok_iff.mp h with ⟨-, -, rfl⟩ | ⟨bracket, kind, -, -, -, -, rfl⟩
  · exact Nat.le_refl _
  · rw [Block.declare, Arena.size_push]
    exact Nat.le_succ _

theorem addEdge_agrees (hb : b.Growing) (edge : Edge) :
    Agrees (addEdge b edge) (b.addEdge edge) := by
  refine .bind (resolve_agrees b edge.parent) fun (found, parent) hparent => ?_
  refine .bind (resolve_agrees found edge.child) fun (both, child) hchild => ?_
  have hfound := hb.resolve hparent
  have hlt : parent < both.arena.size :=
    Nat.lt_of_lt_of_le (Block.lt_size_of_resolve hb.linked hparent) (size_le_of_resolve hchild)
  refine .access (node_eq hlt) ?_
  have hadd := addChild_agrees hlt (Block.lt_size_of_resolve hfound.linked hchild)
  refine .wrap hadd (fun error herror => ?_) fun arena harena => ?_
  · dsimp only
    rw [herror]
    rfl
  · dsimp only
    rw [harena]
    exact .pure _

/-- A line of a block may be read as long as the rows of its nodes are those of a table. -/
theorem readBlockLine_agrees (hb : b.Growing) (line : List Char) :
    Agrees (readBlockLine b line) (b.readLine line) := by
  rw [readBlockLine, Block.readLine]
  cases Edge.read? line with
  | some edge => exact addEdge_agrees hb edge
  | none =>
      dsimp only
      generalize Option.filter _ _ = declared?
      cases declared? with
      | some token => exact .bind (resolve_agrees b token) fun _ _ => .pure _
      | none => exact .throw _

theorem close_agrees (hb : b.Sound) : Agrees (close b) b.close := by
  rw [close, Block.close]
  cases hroot : b.root with
  | none => exact .throw _
  | some root =>
      obtain ⟨rfl, hlt⟩ := hb.root_eq root hroot
      exact .access (unreachableFrom_eq hb.linked hlt) (.outcome _)

end Blocks

/-! ### Texts -/

/-- Closes the block being read, if there is one. -/
def closeBlock (r : Reader) : ExceptT FlowchartError Checked Reader :=
  match r.block with
  | none => return r
  | some block => do
    let tree ← close block
    return { r with trees := r.trees ++ [tree], block := none }

/-- Reads one more line, given with its number. -/
def readLine (r : Reader) (number : Nat) (line : String) : ExceptT FlowchartError Checked Reader :=
  let cs := dropReturns line.toList
  let text := trim cs
  if text.isEmpty then return r
  else if text = header.toList then do
    let closed ← closeBlock r
    outcome closed.openBlock
  else
    match r.block with
    | none => throw (.atLine number .missingHeader)
    | some block => do
      let block ← (readBlockLine block cs).adapt (.atLine number)
      return { r with block := some block }

/-- Reads more lines, counted on from `number`. -/
def readLines (r : Reader) (number : Nat) : List String → ExceptT FlowchartError Checked Reader
  | [] => return r
  | line :: rest => do
    let r ← readLine r number line
    readLines r (number + 1) rest

/-- The trees of a text, of which there may be at most as many as ladybugs. -/
def readTrees (lines : List String) (ladybugs : Nat) :
    ExceptT FlowchartError Checked (List Tree) := do
  let r ← readLines (.start ladybugs) 1 lines
  let closed ← closeBlock r
  if closed.trees.isEmpty then throw .noTrees else return closed.trees

/-- The trees of several texts, in order, after those read already. -/
def readTreeFilesAfter (total : Nat) :
    List Tree → List (List String) → ExceptT FlowchartError Checked (List Tree)
  | parsed, [] => if parsed.isEmpty then throw .noTrees else return parsed
  | parsed, file :: rest => do
    let free ← minus total parsed.length
    let trees ← (readTrees file free).adapt fun error =>
      match error with
      | .tooManyTrees trees _ => .tooManyTrees (parsed.length + trees) total
      | error => error
    readTreeFilesAfter total (parsed ++ trees) rest

/-- The trees of several texts, for a number of ladybugs. -/
def readTreeFiles (files : List (List String)) (ladybugs : Nat) :
    ExceptT FlowchartError Checked (List Tree) :=
  readTreeFilesAfter ladybugs [] files

section Texts

variable {r : Reader}

/-- The block being read is sound. -/
abbrev BlockSound (r : Reader) : Prop := r.Holds Block.Sound fun _ => True

theorem closeBlock_agrees (hr : BlockSound r) : Agrees (closeBlock r) r.closeBlock := by
  rw [closeBlock, Reader.closeBlock]
  cases hblock : r.block with
  | none => exact .pure _
  | some block => exact .map (close_agrees (hr.block block hblock))

theorem readLine_agrees (hr : BlockSound r) (number : Nat) (line : String) :
    Agrees (readLine r number line) (r.readLine number line) := by
  refine .ite (fun _ => .pure _) fun _ => .ite (fun _ => ?_) fun _ => ?_
  · exact .bind (closeBlock_agrees hr) fun closed _ => .outcome _
  · cases hblock : r.block with
    | none => exact .throw _
    | some block =>
        have hline := readBlockLine_agrees (hr.block block hblock).toGrowing
          (dropReturns line.toList)
        refine .wrap hline (fun fault hfault => ?_) fun next hnext => ?_
        · dsimp only
          rw [hfault]
        · dsimp only
          rw [hnext]
          exact .pure _

/-- A block stays sound from line to line. -/
theorem BlockSound.readLine (hr : BlockSound r) {r' : Reader} {number : Nat} {line : String}
    (h : r.readLine number line = .ok r') : BlockSound r' :=
  Reader.Holds.readLine hr Block.Sound.start (fun _ _ _ hb hline => hb.readLine hline)
    (fun _ _ _ _ => trivial) h

theorem readLines_agrees (hr : BlockSound r) (number : Nat) (lines : List String) :
    Agrees (readLines r number lines) (r.readLines number lines) ∧
      ∀ r', r.readLines number lines = .ok r' → BlockSound r' := by
  induction lines generalizing r number with
  | nil => exact ⟨.pure _, fun r' h => Except.ok.inj h ▸ hr⟩
  | cons line rest ih =>
      refine ⟨.bind (readLine_agrees hr number line) fun next hnext =>
        (ih (hr.readLine hnext) (number + 1)).1, fun r' h => ?_⟩
      obtain ⟨next, hnext, hrest⟩ := exists_ok_of_bind h
      exact (ih (hr.readLine hnext) (number + 1)).2 r' hrest

theorem readTrees_agrees (lines : List String) (ladybugs : Nat) :
    Agrees (readTrees lines ladybugs) (Flowchart.readTrees lines ladybugs) := by
  obtain ⟨hlines, hsound⟩ :=
    readLines_agrees (.start ladybugs : BlockSound (Reader.start ladybugs)) 1 lines
  exact .bind hlines fun r hr => .bind (closeBlock_agrees (hsound r hr)) fun closed _ =>
    .ite (fun _ => .throw _) fun _ => .pure _

theorem readTreeFilesAfter_agrees {total : Nat} {parsed : List Tree}
    (hparsed : parsed.length ≤ total) (files : List (List String)) :
    Agrees (readTreeFilesAfter total parsed files)
      (Ladybug.readTreeFilesAfter total parsed files) := by
  induction files generalizing parsed with
  | nil => exact .ite (fun _ => .throw _) fun _ => .pure _
  | cons file rest ih =>
      rw [readTreeFilesAfter, Ladybug.readTreeFilesAfter]
      refine .access (minus_eq hparsed) ?_
      refine .wrap (readTrees_agrees file _) (fun error herror => ?_) fun trees htrees => ?_
      · rw [herror]
        cases error <;> rfl
      · have hlength := length_of_readTrees htrees
        rw [htrees]
        refine ih ?_
        rw [List.length_append]
        omega

/-- **Reading texts of trees makes valid accesses only**, whatever the texts are. -/
theorem readTreeFiles_agrees (files : List (List String)) (ladybugs : Nat) :
    Agrees (readTreeFiles files ladybugs) (Ladybug.readTreeFiles files ladybugs) :=
  readTreeFilesAfter_agrees (Nat.zero_le _) files

end Texts

end Ladybug.Checked
