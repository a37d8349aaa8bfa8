import Mathlib.Data.List.Nodup

/-!
# Circular doubly linked lists

A ring is given by two pointer functions, `next` and `prev`.  The nodes of a
ring with a distinguished head are linked when every node is the predecessor
of its successor, from the head through the nodes and back to the head.

The two edits are removal of one node and insertion before the head.  Each
is stated for arbitrary new pointer functions that agree with the old ones
outside the two or three nodes the edit touches, so that a memory in which
the links are words can supply them.
-/

namespace Witos.Library

variable {α : Type*}

/-- Consecutive entries of the list point at each other. -/
def Linked (next prev : α → α) : List α → Prop
  | first :: second :: rest =>
      next first = second ∧ prev second = first ∧
        Linked next prev (second :: rest)
  | _ => True

/-- The nodes, in `next` order, of the circular list with the given head. -/
def LinkedRing (next prev : α → α) (head : α) (nodes : List α) : Prop :=
  Linked next prev (head :: nodes ++ [head])

section Links

variable {next prev next' prev' : α → α}

@[simp] theorem linked_singleton (node : α) : Linked next prev [node] :=
  trivial

theorem linked_cons_cons {first second : α} {rest : List α} :
    Linked next prev (first :: second :: rest) ↔
      next first = second ∧ prev second = first ∧
        Linked next prev (second :: rest) :=
  Iff.rfl

theorem linked_append_cons (left : List α) (node : α) (right : List α) :
    Linked next prev (left ++ node :: right) ↔
      Linked next prev (left ++ [node]) ∧
        Linked next prev (node :: right) := by
  induction left with
  | nil => simp
  | cons first left induction =>
      cases left with
      | nil => simp [linked_cons_cons, and_assoc]
      | cons second left =>
          simp only [List.cons_append, linked_cons_cons] at induction ⊢
          rw [induction]
          simp [and_assoc]

/-- Links only read `next` of the entries before the last one and `prev` of
the entries after the first one. -/
theorem Linked.congr {list : List α} (links : Linked next prev list)
    (nextSame : ∀ node ∈ list.dropLast, next' node = next node)
    (prevSame : ∀ node ∈ list.tail, prev' node = prev node) :
    Linked next' prev' list := by
  induction list with
  | nil => trivial
  | cons first list induction =>
      cases list with
      | nil => trivial
      | cons second list =>
          obtain ⟨forward, backward, rest⟩ := links
          refine ⟨?_, ?_, induction rest ?_ ?_⟩
          · rw [nextSame first (by simp), forward]
          · rw [prevSame second (by simp), backward]
          · intro node member
            exact nextSame node (by simp [member])
          · intro node member
            exact prevSame node (by
              simp only [List.tail_cons] at member ⊢
              exact List.mem_cons_of_mem _ member)

/-- Links around a node, once its neighbours point at each other. -/
theorem Linked.bypass {left right : List α} {before node after : α}
    (links : Linked next prev (left ++ before :: node :: after :: right))
    (forward : next' before = after) (backward : prev' after = before)
    (nextSame : ∀ other ∈ left ++ (after :: right).dropLast,
      next' other = next other)
    (prevSame : ∀ other ∈ (left ++ [before]).tail ++ right,
      prev' other = prev other) :
    Linked next' prev' (left ++ before :: after :: right) := by
  rw [linked_append_cons, linked_cons_cons, linked_cons_cons] at links
  obtain ⟨leftLinks, -, -, -, -, rightLinks⟩ := links
  rw [linked_append_cons, linked_cons_cons]
  refine ⟨?_, forward, backward, ?_⟩
  · apply leftLinks.congr
    · intro other member
      rw [List.dropLast_concat] at member
      exact nextSame other (List.mem_append_left _ member)
    · intro other member
      exact prevSame other (List.mem_append_left _ member)
  · apply rightLinks.congr
    · intro other member
      exact nextSame other (List.mem_append_right _ member)
    · intro other member
      exact prevSame other (List.mem_append_right _ member)

end Links

namespace LinkedRing

variable {next prev next' prev' : α → α} {head node : α} {nodes : List α}

theorem empty_iff :
    LinkedRing next prev head [] ↔ next head = head ∧ prev head = head := by
  simp [LinkedRing, linked_cons_cons]

theorem congr (ring : LinkedRing next prev head nodes)
    (nextSame : ∀ other ∈ head :: nodes, next' other = next other)
    (prevSame : ∀ other ∈ head :: nodes, prev' other = prev other) :
    LinkedRing next' prev' head nodes := by
  apply Linked.congr ring
  · intro other member
    apply nextSame other
    rw [List.dropLast_concat] at member
    exact member
  · intro other member
    apply prevSame other
    simp only [List.cons_append, List.tail_cons, List.mem_append,
      List.mem_singleton] at member
    rcases member with inside | isHead
    · exact List.mem_cons_of_mem _ inside
    · simp [isHead]

/-- The neighbours of a node end the part on its left and start the part on
its right; either of them may be the head. -/
theorem neighbours {left right : List α}
    (ring : LinkedRing next prev head (left ++ node :: right)) :
    ∃ leftPart rightPart, head :: left = leftPart ++ [prev node] ∧
      right ++ [head] = next node :: rightPart ∧
      Linked next prev
        (leftPart ++ prev node :: node :: next node :: rightPart) := by
  obtain ⟨leftPart, before, leftShape⟩ :
      ∃ leftPart before, head :: left = leftPart ++ [before] :=
    ⟨_, _, (List.dropLast_append_getLast (List.cons_ne_nil head left)).symm⟩
  obtain ⟨after, rightPart, rightShape⟩ :
      ∃ after rightPart, right ++ [head] = after :: rightPart := by
    cases right with
    | nil => exact ⟨head, [], rfl⟩
    | cons first right => exact ⟨first, right ++ [head], rfl⟩
  have whole : head :: (left ++ node :: right) ++ [head] =
      leftPart ++ before :: node :: after :: rightPart := by
    rw [← List.cons_append, leftShape, List.append_assoc, List.cons_append,
      rightShape]
    simp
  unfold LinkedRing at ring
  rw [whole] at ring
  obtain ⟨-, -, nodePrev, nodeNext, -, -⟩ :=
    (linked_append_cons _ _ _).mp ring
  rw [nodePrev, nodeNext]
  exact ⟨leftPart, rightPart, leftShape, rightShape, ring⟩

/-- Unlinking a node: its neighbours are made to point at each other. -/
theorem remove {left right : List α}
    (ring : LinkedRing next prev head (left ++ node :: right))
    (distinct : (head :: (left ++ node :: right)).Nodup)
    (nextLink : next' (prev node) = next node)
    (prevLink : prev' (next node) = prev node)
    (nextSame : ∀ other ∈ head :: (left ++ right),
      other ≠ prev node → next' other = next other)
    (prevSame : ∀ other ∈ head :: (left ++ right),
      other ≠ next node → prev' other = prev other) :
    LinkedRing next' prev' head (left ++ right) := by
  obtain ⟨leftPart, rightPart, leftShape, rightShape, links⟩ :=
    ring.neighbours
  have atPrev : head :: (left ++ right) = leftPart ++ prev node :: right := by
    rw [← List.cons_append, leftShape]
    simp
  have atNext : left ++ right ++ [head] =
      left ++ next node :: rightPart := by
    rw [List.append_assoc, rightShape]
  have once : (head :: (left ++ right)).Nodup := distinct.sublist (by simp)
  have rotated : (left ++ right ++ [head]).Nodup :=
    (List.perm_append_singleton _ _).nodup_iff.mpr once
  have shorter : head :: (left ++ right) ++ [head] =
      leftPart ++ prev node :: next node :: rightPart := by
    rw [atPrev, List.append_assoc, List.cons_append, rightShape]
  unfold LinkedRing
  rw [shorter]
  rw [atPrev, List.nodup_middle, List.nodup_cons] at once
  rw [atNext, List.nodup_middle, List.nodup_cons] at rotated
  apply links.bypass nextLink prevLink
  · intro other member
    rw [← rightShape, List.dropLast_concat] at member
    apply nextSame other
    · rw [atPrev]
      exact List.mem_append.mpr ((List.mem_append.mp member).imp_right
        (List.mem_cons_of_mem _))
    · rintro rfl
      exact once.1 member
  · intro other member
    rw [← leftShape, List.tail_cons] at member
    apply prevSame other
    · have cell : other ∈ left ++ right ++ [head] := by
        rw [atNext]
        exact List.mem_append.mpr ((List.mem_append.mp member).imp_right
          (List.mem_cons_of_mem _))
      exact (List.perm_append_singleton _ _).subset cell
    · rintro rfl
      exact rotated.1 member

/-- The head points back at the last node, or at itself. -/
theorem last (ring : LinkedRing next prev head nodes) :
    ∃ front, head :: nodes = front ++ [prev head] ∧
      Linked next prev (front ++ [prev head]) := by
  obtain ⟨front, last, shape⟩ :
      ∃ front last, head :: nodes = front ++ [last] :=
    ⟨_, _, (List.dropLast_append_getLast (List.cons_ne_nil head nodes)).symm⟩
  unfold LinkedRing at ring
  rw [shape, List.append_assoc, List.singleton_append, linked_append_cons,
    linked_cons_cons] at ring
  obtain ⟨links, -, prevHead, -⟩ := ring
  rw [prevHead]
  exact ⟨front, shape, links⟩

/-- Linking a new node in between the last node and the head. -/
theorem addLast (ring : LinkedRing next prev head nodes)
    (distinct : (head :: nodes).Nodup)
    (lastNext : next' (prev head) = node) (nodePrev : prev' node = prev head)
    (nodeNext : next' node = head) (headPrev : prev' head = node)
    (nextSame : ∀ other ∈ head :: nodes,
      other ≠ prev head → next' other = next other)
    (prevSame : ∀ other ∈ nodes, prev' other = prev other) :
    LinkedRing next' prev' head (nodes ++ [node]) := by
  obtain ⟨front, shape, frontLinks⟩ := ring.last
  have longer : head :: (nodes ++ [node]) ++ [head] =
      front ++ prev head :: node :: [head] := by
    rw [← List.cons_append, shape]
    simp
  have frontDistinct : (front ++ [prev head]).Nodup := shape ▸ distinct
  unfold LinkedRing
  rw [longer, linked_append_cons, linked_cons_cons, linked_cons_cons]
  refine ⟨?_, lastNext, nodePrev, nodeNext, headPrev, trivial⟩
  · apply Linked.congr frontLinks
    · intro other member
      rw [List.dropLast_concat] at member
      apply nextSame other (by rw [shape]; simp [member])
      exact (List.nodup_append.mp frontDistinct).2.2 other member _ (by simp)
    · intro other member
      apply prevSame other
      have := congrArg List.tail shape
      simp only [List.tail_cons] at this
      rw [this]
      exact member

/-- The head is reached from the last node, or from itself. -/
theorem prev_mem (ring : LinkedRing next prev head nodes) :
    prev head ∈ head :: nodes := by
  obtain ⟨front, shape, -⟩ := ring.last
  rw [shape]
  simp

theorem next_last (ring : LinkedRing next prev head (nodes ++ [node])) :
    next node = head := by
  unfold LinkedRing at ring
  rw [← List.cons_append, List.append_assoc, List.singleton_append,
    linked_append_cons, linked_cons_cons] at ring
  exact ring.2.1

/-- A ring without repetitions is determined by the pointers. -/
theorem unique {nodes' : List α} (ring : LinkedRing next prev head nodes)
    (ring' : LinkedRing next prev head nodes') (apart : head ∉ nodes)
    (apart' : head ∉ nodes') : nodes = nodes' := by
  have walks : ∀ (first : α) (left right : List α),
      Linked next prev (first :: left ++ [head]) →
      Linked next prev (first :: right ++ [head]) →
      head ∉ left → head ∉ right → left = right := by
    intro first left
    induction left generalizing first with
    | nil =>
        intro right links links' _ outside
        cases right with
        | nil => rfl
        | cons second right =>
            have same : second = head := links'.1.symm.trans links.1
            exact absurd (by simp [same]) outside
    | cons second left induction =>
        intro right links links' inside outside
        cases right with
        | nil =>
            have same : second = head := links.1.symm.trans links'.1
            exact absurd (by simp [same]) inside
        | cons third right =>
            have same : second = third := links.1.symm.trans links'.1
            subst same
            rw [induction second right links.2.2 links'.2.2
              (fun member => inside (List.mem_cons_of_mem _ member))
              (fun member => outside (List.mem_cons_of_mem _ member))]
  exact walks head nodes nodes' ring ring' apart apart'

end LinkedRing

/-- The `next` and `prev` pointers of all nodes. -/
structure Links (α : Type*) where
  next : α → α
  prev : α → α

namespace Links

variable [DecidableEq α] {links : Links α} {node head : α}

/-- `list_add_tail`. -/
def addTail (links : Links α) (node head : α) : Links α where
  next := Function.update (Function.update links.next node head)
    (links.prev head) node
  prev := Function.update (Function.update links.prev head node)
    node (links.prev head)

theorem addTail_next_of_ne {other : α} (notNode : other ≠ node)
    (notLast : other ≠ links.prev head) :
    (links.addTail node head).next other = links.next other := by
  simp [addTail, notNode, notLast]

theorem addTail_prev_of_ne {other : α} (notNode : other ≠ node)
    (notHead : other ≠ head) :
    (links.addTail node head).prev other = links.prev other := by
  simp [addTail, notNode, notHead]

theorem addTail_prev_head (different : head ≠ node) :
    (links.addTail node head).prev head = node := by
  simp [addTail, different]

omit [DecidableEq α] in
/-- A well linked list without repetitions. -/
def Ring (links : Links α) (head : α) (nodes : List α) : Prop :=
  LinkedRing links.next links.prev head nodes ∧ (head :: nodes).Nodup

theorem Ring.addTail {nodes : List α} (ring : links.Ring head nodes)
    (new : node ∉ head :: nodes) :
    (links.addTail node head).Ring head (nodes ++ [node]) := by
  obtain ⟨linked, distinct⟩ := ring
  have notNode : ∀ other ∈ head :: nodes, other ≠ node := by
    rintro other member rfl
    exact new member
  have notLast : node ≠ links.prev head :=
    fun same => new (same ▸ linked.prev_mem)
  constructor
  · apply linked.addLast distinct
    · simp [Links.addTail]
    · simp [Links.addTail]
    · simp [Links.addTail, notLast]
    · exact addTail_prev_head (notNode head (by simp))
    · intro other member notPrev
      exact addTail_next_of_ne (notNode other member) notPrev
    · intro other member
      apply addTail_prev_of_ne
        (notNode other (List.mem_cons_of_mem _ member))
      rintro rfl
      exact (List.nodup_cons.mp distinct).1 member
  · rw [← List.cons_append]
    exact List.nodup_append.mpr ⟨distinct, List.nodup_singleton node,
      fun other member last isLast =>
        List.mem_singleton.mp isLast ▸ notNode other member⟩

theorem Ring.addTail_other {start : α} {nodes : List α}
    (ring : links.Ring start nodes)
    (apart : ∀ other ∈ start :: nodes,
      other ≠ node ∧ other ≠ head ∧ other ≠ links.prev head) :
    (links.addTail node head).Ring start nodes := by
  refine ⟨?_, ring.2⟩
  apply ring.1.congr
  · intro other member
    obtain ⟨notNode, -, notLast⟩ := apart other member
    exact addTail_next_of_ne notNode notLast
  · intro other member
    obtain ⟨notNode, notHead, -⟩ := apart other member
    exact addTail_prev_of_ne notNode notHead

omit [DecidableEq α] in
/-- The nodes a loop along `next` passes before it stops. -/
def Walk (links : Links α) (stop : α) : List α → α → Prop
  | [], node => node = stop
  | first :: rest, node =>
      node = first ∧ links.Walk stop rest (links.next first)

omit [DecidableEq α] in
theorem Walk.congr {links' : Links α} {stop start : α} {nodes : List α}
    (walk : links.Walk stop nodes start)
    (same : ∀ other ∈ nodes, links'.next other = links.next other) :
    links'.Walk stop nodes start := by
  induction nodes generalizing start with
  | nil => exact walk
  | cons first rest induction =>
      obtain ⟨isFirst, later⟩ := walk
      refine ⟨isFirst, ?_⟩
      rw [same first List.mem_cons_self]
      exact induction later fun other member =>
        same other (List.mem_cons_of_mem _ member)

omit [DecidableEq α] in
/-- A loop along `next` passes the nodes of the list. -/
theorem Ring.walk {nodes : List α} (ring : links.Ring head nodes) :
    links.Walk head nodes (links.next head) := by
  have walks : ∀ (first : α) (rest : List α),
      Linked links.next links.prev (first :: rest ++ [head]) →
      links.Walk head rest (links.next first) := by
    intro first rest
    induction rest generalizing first with
    | nil => exact fun linked => linked.1
    | cons second rest induction =>
        intro linked
        exact ⟨linked.1, induction second linked.2.2⟩
  exact walks head nodes ring.1

end Links

end Witos.Library
