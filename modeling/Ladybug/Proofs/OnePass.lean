import Ladybug.Proofs.Sound

/-!
# A tree in one pass

What a behavior tree means is easiest said without turns: an interpreter goes through the
tree once, performs every action as soon as it comes to it, and keeps no statuses. Between
turns other ladybugs change the world, so here they change it right after every action.

The interpreter is given a depth, as walks are. The depth is no part of the meaning: from
the number of nodes on, all depths give the same pass.

A log of such a pass is cut into pieces right after the records of actions. What stands
behind the last action is its remainder.

## Main definitions

* `Pass` — how far a pass has come: the world, the log, and the world after each action.
* `Arena.evaluate` and `Tree.evaluate` — the interpreter.
* `Trace.pieces` — a log cut behind its actions.

## Main results

* `Tree.Sound.evaluate_of_le` — the depth does not matter.
* `Trace.pieces_append_singleton` and `Trace.pieces_append` — where a log is cut.
-/

namespace Ladybug

/-! ### Passes -/

/-- How far a pass has come. -/
structure Pass where
  world : World
  /-- The log. -/
  trace : Trace
  /-- The worlds right after the actions, before others changed them. -/
  acted : List World

/-- A pass that has not begun. -/
def Pass.start (w : World) : Pass := ⟨w, [], []⟩

/-- Adds records to the log. -/
def Pass.log (p : Pass) (more : Trace) : Pass := { p with trace := p.trace ++ more }

/-- Adds the record of an action and the world after it, which others change at once. -/
def Pass.act (env : Nat → World → World) (p : Pass) (more : Trace) (after : World) : Pass where
  world := env p.acted.length after
  trace := p.trace ++ more
  acted := p.acted ++ [after]

/-! ### The interpreter -/

namespace Arena

/-- Evaluates nodes from left to right, up to the first one with an outcome that settles
the matter, and lists the outcomes. -/
def evaluateAll (visit : Pass → NodeIdx → Pass × Bool) (settles : Bool → Bool) :
    Pass → List NodeIdx → Pass × List Bool
  | p, [] => (p, [])
  | p, i :: rest =>
    let (q, ok) := visit p i
    if settles ok then (q, [ok])
    else
      let (r, oks) := evaluateAll visit settles q rest
      (r, ok :: oks)

/-- Evaluates a node and everything below it, down to the given depth. Right after its
action number `k`, counted from zero, a pass has its world changed by `env k`. -/
def evaluate (t : Arena) (env : Nat → World → World) (a : AgentId) :
    Nat → Pass → NodeIdx → Pass × Bool
  | 0, p, _ => (p, false)
  | depth + 1, p, i =>
    let record (event : TraceEvent) : TraceEntry := ⟨a, t.id i, t.kind i, event⟩
    match t.kind i with
    | .action action =>
      let (after, ok) := action.perform p.world a
      (p.act env [record (.ofOutcome ok)] after, ok)
    | .condition condition =>
      let ok := condition.holds p.world a
      (p.log [record (.ofOutcome ok)], ok)
    | .composite composite =>
      let children (settles : Bool → Bool) :=
        evaluateAll (t.evaluate env a depth) settles (p.log [record .entry]) (t.children i)
      let (q, ok) :=
        match composite with
        | .sequence => let (q, oks) := children fun ok => !ok; (q, oks.all fun ok => ok)
        | .fallback => let (q, oks) := children fun ok => ok; (q, oks.any fun ok => ok)
        | .parallel threshold =>
          let (q, oks) := children fun _ => false; (q, decide (threshold ≤ oks.count true))
      (q.log [record (.ofOutcome ok)], ok)

end Arena

/-- The outcome of a composite in a pass is the verdict that walks come to. -/
theorem Arena.evaluate_of_composite {t : Arena} {env : Nat → World → World} {a : AgentId}
    {i : NodeIdx} {composite : Composite} (hk : t.kind i = .composite composite) {depth : Nat}
    {p q : Pass} {oks : List Bool}
    (h : evaluateAll (t.evaluate env a depth) composite.stopsOn
      (p.log [⟨a, t.id i, t.kind i, .entry⟩]) (t.children i) = (q, oks)) :
    t.evaluate env a (depth + 1) p i =
      (q.log [⟨a, t.id i, t.kind i,
          .ofOutcome (composite.verdict (oks.any composite.stopsOn) (oks.count true))⟩],
        composite.verdict (oks.any composite.stopsOn) (oks.count true)) := by
  cases composite with
  | fallback =>
      have hstops : Composite.fallback.stopsOn = fun ok => ok := rfl
      rw [hstops] at h ⊢
      rw [hk] at h
      rw [evaluate, hk]
      simp only [h, Composite.verdict]
  | sequence =>
      have hstops : Composite.sequence.stopsOn = fun ok => !ok := rfl
      have hall : (oks.all fun ok => ok) = !oks.any fun ok => !ok := by
        rw [List.not_any_eq_all_not]
        simp only [Bool.not_not]
      rw [hstops] at h ⊢
      rw [hk] at h
      rw [evaluate, hk]
      simp only [h, Composite.verdict, hall]
  | parallel threshold =>
      have hstops : (Composite.parallel threshold).stopsOn = fun _ => false := rfl
      rw [hstops] at h ⊢
      rw [hk] at h
      rw [evaluate, hk]
      simp only [h, Composite.verdict]

/-- The whole tree in one pass, and its outcome. -/
def Tree.evaluate (t : Tree) (env : Nat → World → World) (a : AgentId) (w : World) :
    Pass × Bool :=
  t.arena.evaluate env a t.arena.size (.start w) t.root

/-! ### Depths -/

namespace Arena

variable {t : Arena} {env : Nat → World → World} {a : AgentId}

/-- Nodes with the same visits are evaluated alike. -/
theorem evaluateAll_congr {visit visit' : Pass → NodeIdx → Pass × Bool} {is : List NodeIdx}
    (h : ∀ i ∈ is, ∀ p, visit p i = visit' p i) (settles : Bool → Bool) (p : Pass) :
    evaluateAll visit settles p is = evaluateAll visit' settles p is := by
  induction is generalizing p with
  | nil => rfl
  | cons i rest ih =>
      rw [evaluateAll, evaluateAll, h i List.mem_cons_self]
      simp only [ih fun j hj => h j (List.mem_cons_of_mem i hj)]

/-- The roots of a forest are evaluated alike at all depths that it admits. -/
theorem evaluate_congr_depth {f : Forest} (hf : t.Grows f) {depth depth' : Nat}
    (h : f.height ≤ depth) (h' : f.height ≤ depth') :
    ∀ i ∈ f.roots, ∀ p, t.evaluate env a depth p i = t.evaluate env a depth' p i := by
  induction f generalizing depth depth' with
  | nil => exact fun i hi => nomatch hi
  | cons j below rest ihBelow ihRest =>
      obtain ⟨hj, hbelow, hrest⟩ := hf
      simp only [Forest.height, Nat.max_le] at h h'
      intro i hi p
      rcases List.mem_cons.mp hi with rfl | hi
      · obtain ⟨depth, rfl⟩ : ∃ d, depth = d + 1 := ⟨depth - 1, by omega⟩
        obtain ⟨depth', rfl⟩ : ∃ d, depth' = d + 1 := ⟨depth' - 1, by omega⟩
        have hbelow' : below.height ≤ depth := by omega
        have hbelow'' : below.height ≤ depth' := by omega
        have hall := evaluateAll_congr (ihBelow hbelow hbelow' hbelow'')
        rw [evaluate, evaluate, hj]
        simp only [hall]
      · exact ihRest hrest h.2 h'.2 i hi p

end Arena

/-- The depth at which a sound tree is evaluated does not matter, from the number of nodes
on. -/
theorem Tree.Sound.evaluate_of_le {t : Tree} (h : t.Sound) (env : Nat → World → World)
    (a : AgentId) (w : World) {depth : Nat} (hdepth : t.arena.size ≤ depth) :
    t.arena.evaluate env a depth (.start w) t.root = t.evaluate env a w := by
  obtain ⟨below, hspans⟩ := h.exists_spans
  have hgrows : t.arena.Grows (.cons t.root below .nil) := ⟨hspans.children, hspans.grows, trivial⟩
  have hheight : (Forest.cons t.root below .nil).height ≤ t.arena.size := by
    have hlt := hspans.height_lt
    simp only [Forest.height]
    omega
  exact Arena.evaluate_congr_depth hgrows (Nat.le_trans hheight hdepth) hheight t.root
    List.mem_cons_self _

/-! ### Cutting a log -/

namespace Trace

/-- The log cut right behind the records of actions, and what stands behind the last of
them. -/
def pieces : Trace → List Trace × Trace
  | [] => ([], [])
  | e :: rest =>
    match e.kind.isAction, pieces rest with
    | true, (cut, remainder) => ([e] :: cut, remainder)
    | false, ([], remainder) => ([], e :: remainder)
    | false, (first :: cut, remainder) => ((e :: first) :: cut, remainder)

/-- A log without actions is all remainder. -/
theorem pieces_eq_of_forall {trace : Trace} (h : ∀ e ∈ trace, e.kind.isAction = false) :
    trace.pieces = ([], trace) := by
  induction trace with
  | nil => rfl
  | cons e rest ih =>
      rw [pieces, h e List.mem_cons_self, ih fun e' he' => h e' (List.mem_cons_of_mem e he')]

/-- A log without actions before the record of one is one piece. -/
theorem pieces_append_singleton {trace : Trace} {e : TraceEntry}
    (h : ∀ e ∈ trace, e.kind.isAction = false) (he : e.kind.isAction = true) :
    pieces (trace ++ [e]) = ([trace ++ [e]], []) := by
  induction trace with
  | nil => rw [List.nil_append, pieces, he, pieces]
  | cons e' rest ih =>
      rw [List.cons_append, pieces, h e' List.mem_cons_self,
        ih fun d hd => h d (List.mem_cons_of_mem e' hd)]

/-- Behind a log that ends with an action, the pieces go on with those of what follows. -/
theorem pieces_append {first : Trace} {cut : List Trace} (h : first.pieces = (cut, []))
    (second : Trace) :
    pieces (first ++ second) = (cut ++ second.pieces.1, second.pieces.2) := by
  induction first generalizing cut with
  | nil =>
      rw [pieces] at h
      obtain rfl := (Prod.mk.inj h).1
      rfl
  | cons e rest ih =>
      rw [pieces] at h
      split at h
      · next he hrest =>
          obtain ⟨rfl, rfl⟩ := Prod.mk.inj h
          rw [List.cons_append, pieces, he, ih hrest]
          rfl
      · cases (Prod.mk.inj h).2
      · next he hrest =>
          obtain ⟨rfl, rfl⟩ := Prod.mk.inj h
          rw [List.cons_append, pieces, he, ih hrest]
          rfl

end Trace

end Ladybug
