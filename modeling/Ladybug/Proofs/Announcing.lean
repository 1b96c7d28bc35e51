import Ladybug.Proofs.Halting

/-!
# The head announces the next turn

A tree announces a node for the next turn. It looks only at the resume pointer and at the child
after it, while the turn walks the whole tree again from the root. The two agree after a turn
that has halted. The nodes above the action that was performed run to it, so when its outcome
does not settle its parent, they run to the next child as well. Running nodes are not entered
again and children that are done are passed over, and so the next turn comes to that child
without a record before it, in every world.

## Main definitions

* `Arena.GoesOn` — the outcome of a child does not end its parent.
* `Tree.Announces` — what a tree announces, and that the next turn keeps to it.

## Main results

* `Tree.head_of_child` — the node announced while the resume pointer is at a child.
* `Arena.RunsTo.next` — what runs to a child that is done runs to the next one.
* `Tree.Reachable.announces_of_halted` — after a turn that has halted, the tree announces where
  the next one goes on.
-/

namespace Ladybug

namespace Arena

variable {t : Arena}

/-! ### The child after one that is done -/

/-- The outcome of a child does not end its parent: a sequence goes on after a success, a
fallback after a failure, and a parallel always. -/
inductive GoesOn (t : Arena) (p c : NodeIdx) : Prop
  | sequence (hkind : t.kind p = .composite .sequence) (hstatus : t.status c = .success)
  | fallback (hkind : t.kind p = .composite .fallback) (hstatus : t.status c = .failure)
  | parallel {threshold : Nat} (hkind : t.kind p = .composite (.parallel threshold))

/-- The outcome does not stop the parent from going through its children. -/
theorem GoesOn.exists_stopsOn {p c : NodeIdx} {ok : Bool} (h : t.GoesOn p c)
    (hc : (t.status c).outcome? = some ok) :
    ∃ composite, t.kind p = .composite composite ∧ composite.stopsOn ok = false := by
  cases h with
  | sequence hkind hstatus =>
      rw [hstatus] at hc
      obtain rfl := Option.some.inj hc
      exact ⟨.sequence, hkind, rfl⟩
  | fallback hkind hstatus =>
      rw [hstatus] at hc
      obtain rfl := Option.some.inj hc
      exact ⟨.fallback, hkind, rfl⟩
  | parallel hkind => exact ⟨_, hkind, rfl⟩

/-- A child stands at one place among the children. -/
theorem Linked.not_mem_around (h : t.Linked) {p c : NodeIdx} {before rest : List NodeIdx}
    (hchildren : t.children p = before ++ c :: rest) : c ∉ before ∧ c ∉ rest := by
  have hnodup := h.nodup p
  rw [hchildren, List.nodup_middle, List.nodup_cons] at hnodup
  exact ⟨fun hc => hnodup.1 (List.mem_append_left rest hc),
    fun hc => hnodup.1 (List.mem_append_right before hc)⟩

/-- A node that leads to a child that is done leads to the next one, if it goes on. -/
theorem Leads.next (h : t.Linked) {p c s : NodeIdx} {before after : List NodeIdx} {ok : Bool}
    (hleads : t.Leads p c) (hchildren : t.children p = before ++ c :: s :: after)
    (hc : (t.status c).outcome? = some ok) (hgoes : t.GoesOn p c) : t.Leads p s where
  unfinished := hleads.unfinished
  skips := by
    obtain ⟨composite, skipped, rest, hkind, hsplit, hskipped⟩ := hleads.skips
    obtain ⟨composite', hkind', hstops⟩ := hgoes.exists_stopsOn hc
    obtain rfl : composite = composite' := by
      rw [hkind] at hkind'
      injection hkind'
    obtain ⟨rfl, -, -⟩ := (List.append_cons_inj_of_notMem (h.not_mem_around hsplit).1
      (h.not_mem_around hsplit).2).mp (hsplit.symm.trans hchildren)
    refine ⟨composite, skipped ++ [c], after, hkind, by rw [hchildren, List.append_assoc]; rfl, ?_⟩
    intro d hd
    rcases List.mem_append.mp hd with hd | hd
    · exact hskipped d hd
    · obtain rfl := List.mem_singleton.mp hd
      exact ⟨ok, hc, hstops⟩

/-- What runs to a child that is done runs to the next one, if its parent goes on. -/
theorem RunsTo.next (h : t.Linked) {p c s : NodeIdx} {above before after : List NodeIdx}
    {ok : Bool} (hruns : t.RunsTo (above ++ [p]) c)
    (hchildren : t.children p = before ++ c :: s :: after)
    (hc : (t.status c).outcome? = some ok) (hgoes : t.GoesOn p c) :
    t.RunsTo (above ++ [p]) s where
  running := hruns.running
  leads := by
    have hleads := hruns.leads
    rw [List.append_assoc] at hleads ⊢
    obtain ⟨hway, hchild, -⟩ := List.isChain_append_cons_cons.mp hleads
    exact List.isChain_append_cons_cons.mpr ⟨hway, hchild.next h hchildren hc hgoes, .singleton s⟩

end Arena

namespace Tree

open Arena

variable {t : Tree} {p : NodeIdx} {action : Action}

/-! ### The announced node -/

/-- While the resume pointer is at an action without a parent, that action is announced. -/
theorem head_of_top (hpending : t.pending? = some action)
    (hparent : t.arena.parent? t.current = none) : t.head = t.currentId := by
  rw [head, hpending, Option.isNone_some, if_neg Bool.false_ne_true, hparent]

/-- While the resume pointer is at an action that was not jumped to, the child after it is
announced, or the action itself if it is the last one. -/
theorem head_of_child {before rest : List NodeIdx} (hpending : t.pending? = some action)
    (hjumped : t.jumped = false) (hparent : t.arena.parent? t.current = some p)
    (hchildren : t.arena.children p = before ++ t.current :: rest) (hnot : t.current ∉ before) :
    t.head = (rest.head?.map t.arena.id).getD t.currentId := by
  have hdrop : (t.arena.children p).dropWhile (· != t.current) = t.current :: rest := by
    rw [hchildren, List.dropWhile_append_of_pos fun s hs =>
      bne_iff_ne.mpr (ne_of_mem_of_not_mem hs hnot), List.dropWhile_cons_of_neg (by simp)]
  rw [head, hpending, Option.isNone_some, if_neg Bool.false_ne_true, hparent]
  simp only [hjumped, hdrop]
  cases rest <;> rfl

/-- Running nodes are not entered again. -/
theorem entries_of_running (a : AgentId) {way : List NodeIdx}
    (h : ∀ q ∈ way, t.arena.status q = .running) : t.entries a way = [] := by
  have hnone : (way.filter fun q => t.arena.status q = .notEntered) = [] :=
    List.filter_eq_nil_iff.mpr fun q hq => by simp [h q hq]
  rw [entries, hnone, List.map_nil]

/-- What a tree announces. A child after the one under the resume pointer that has not been
entered is announced if the parent goes on, and then the next turn goes straight to it in every
world. The root and a last child are announced themselves. -/
structure Announces (t : Tree) : Prop where
  next : ∀ p s before after, t.arena.parent? t.current = some p →
    t.arena.children p = before ++ t.current :: s :: after →
    t.arena.status s = .notEntered → t.arena.GoesOn p t.current →
    t.head = t.arena.id s ∧ ∀ w a, (t.tick w a).Reaches w a t s []
  root : t.current = t.root → t.head = t.currentId
  last : ∀ p, t.arena.parent? t.current = some p →
    (t.arena.children p).getLast? = some t.current → t.head = t.currentId

/-- A tree whose resume pointer is at an action that is done, and that the nodes above run to,
announces where the next turn goes on. -/
theorem Sound.announces_of_runsTo (h : t.Sound) (hpending : t.pending? = some action)
    (hjumped : t.jumped = false) {ok : Bool}
    (hdone : (t.arena.status t.current).outcome? = some ok) {above : List NodeIdx}
    (habove : t.arena.Above t.current above) (hruns : t.arena.RunsTo above t.current) :
    t.Announces where
  next p s before after hparent hchildren hfresh hgoes := by
    refine ⟨head_of_child hpending hjumped hparent hchildren
      (h.linked.not_mem_around hchildren).1, fun w a => ?_⟩
    cases habove with
    | top htop => rw [htop] at hparent; cases hparent
    | @step _ q above hq habove =>
        obtain rfl := Option.some.inj (hq.symm.trans hparent)
        have hs : s ∈ t.arena.children q := by rw [hchildren]; simp
        have hnext := hruns.next h.linked hchildren hdone hgoes
        rw [← entries_of_running (t := t) a hnext.running]
        exact h.tick_reaches (h.linked.child_lt_size hs)
          (.step ((h.linked.parent?_iff q s).mpr hs) habove) hnext.leads hfresh w a
  root hroot := head_of_top hpending (by
    rw [hroot]
    exact (h.parent?_eq_none_iff t.root h.root_lt).mpr rfl)
  last p hparent hlast := by
    obtain ⟨before, hchildren⟩ := List.getLast?_eq_some_iff.mp hlast
    exact head_of_child hpending hjumped hparent hchildren (h.linked.not_mem_around hchildren).1

/-- **After a turn that has halted, the tree announces where the next one goes on.** The turn
has performed the action it halted at, in its first or its second walk. If the action does not
end its parent and the child after it has not been entered, that child is announced, and in
every world the next turn comes to it with nothing recorded before. If the action is the root or
a last child, it is announced itself. -/
theorem Reachable.announces_of_halted {Admitted : NodeSpec → Prop} {t : Tree}
    (h : t.Reachable Admitted) (w : World) (a : AgentId) (hend : (t.walks w a).ending = .halted) :
    (∃ action, (t.tick w a).Performs w a action) ∧ (t.tick w a).tree.Announces := by
  have hsound := h.sound
  obtain ⟨hperforms, -, -, hjumped⟩ := h.tick_performs_iff w a
  obtain ⟨action, hperformed⟩ := hperforms.mpr (.inl hend)
  refine ⟨⟨action, hperformed⟩, ?_⟩
  obtain ⟨above, habove, hruns⟩ := hsound.tick_runsTo hend
  obtain ⟨hshape, -⟩ := hsound.shape_tick w a
  have hpending : (t.tick w a).tree.pending? = some action := by
    rw [pending?, hperformed.pointer]
  have hdone := congrArg Status.outcome? (hsound.status_of_performs hperformed)
  rw [Status.outcome?_ofOutcome] at hdone
  exact (hsound.tick w a).announces_of_runsTo hpending hjumped hdone
    (above_of_shape hshape habove) hruns

/-- After a turn that has halted in its second walk, a fallback is announced, and the next turn
enters it first, in every world. -/
theorem announces_after_restart :
    let w : World := ⟨Grid.blank 3 1, Colony.ofSpawns [⟨⟨0, 0⟩, .right⟩]⟩
    ∃ t : Tree,
      Flowchart.readTrees ["flowchart TD", "A[->] --> B[turnLeft]", "A --> C[?]", "C --> D[move]"]
        1 = .ok [t] ∧
      let u := (t.after (.tick w .first)).after (.tick w .first)
      (u.firstWalk w .first).ending ≠ .halted ∧ (u.walks w .first).ending = .halted ∧
      (u.tick w .first).tree.head = "C" ∧
      ∀ w' a, ((u.tick w .first).tree.tick w' a).Reaches w' a (u.tick w .first).tree 2 [] := by
  intro w
  have hannounces (t : Tree)
      (ht : Flowchart.readTrees ["flowchart TD", "A[->] --> B[turnLeft]", "A --> C[?]",
        "C --> D[move]"] 1 = .ok [t])
      (hend : (((t.after (.tick w .first)).after (.tick w .first)).walks w .first).ending =
        .halted) :
      (((t.after (.tick w .first)).after (.tick w .first)).tick w .first).tree.Announces := by
    have hread : Reachable (fun _ => True) t := .read ht (List.mem_singleton_self t)
    have htick : Reachable (fun _ => True)
        ((t.after (.tick w .first)).after (.tick w .first)) := .after (.after hread trivial) trivial
    exact (htick.announces_of_halted w .first hend).2
  obtain ⟨hhead, hreaches⟩ := (hannounces _ rfl (by decide)).next 0 2 [] [] (by decide) (by decide)
    (by decide) (.sequence (by decide) (by decide))
  exact ⟨_, rfl, by decide, by decide, hhead.trans (by decide), hreaches⟩

end Tree

end Ladybug
