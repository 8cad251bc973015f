import RecordFilter.Condition.Walk
import RecordFilter.Proofs.Duality

namespace RecordFilter

variable {κ σ ρ : Type}

-- What a visitor is told at one point of a walk, and what it answers.
inductive Visit (κ ρ : Type) where
  | leaf (comparison : Comparison κ) (result : ρ)
  | begin (connective : Connective)
  | finish (connective : Connective) (given : List ρ) (result : ρ)

-- What is left of a visit without the results.
def Visit.event : Visit κ ρ → Event κ
  | leaf comparison _ => .leaf comparison
  | begin connective => .begin connective
  | finish connective given _ => .finish connective given.length

def Event.comparison? : Event κ → Option (Comparison κ)
  | leaf comparison => some comparison
  | _ => none

-- The order of the visits to conditions in a row, and the results of these conditions. A leaf is
-- visited once. The visits to the children of a group stand between a first one and a last one with
-- the connective of the group, and the last one is given the results of exactly these children.
inductive Reports : List (Condition κ) → List (Visit κ ρ) → List ρ → Prop where
  | nil : Reports [] [] []
  | leaf {comparison : Comparison κ} {result : ρ} {others : List (Condition κ)}
    {visits : List (Visit κ ρ)} {results : List ρ} (h : Reports others visits results) :
    Reports (.leaf comparison :: others) (.leaf comparison result :: visits) (result :: results)
  | group {connective : Connective} {children others : List (Condition κ)} {result : ρ}
    {inner visits : List (Visit κ ρ)} {given results : List ρ} (hc : Reports children inner given)
    (h : Reports others visits results) :
    Reports (.group connective children :: others)
      (.begin connective :: inner ++ .finish connective given result :: visits) (result :: results)

namespace Visitor

-- The visitor, while somebody notes its visits, the latest first.
def noting (visitor : Visitor κ σ ρ) : Visitor κ (σ × List (Visit κ ρ)) ρ where
  onLeaf comparison state :=
    let (result, next) := visitor.onLeaf comparison state.1
    (result, next, .leaf comparison result :: state.2)
  onBegin connective state := (visitor.onBegin connective state.1, .begin connective :: state.2)
  onEnd connective given state :=
    let (result, next) := visitor.onEnd connective given state.1
    (result, next, .finish connective given result :: state.2)

-- All visits of a walk in order.
def visits (visitor : Visitor κ σ ρ) (condition : Condition κ) (state : σ) : List (Visit κ ρ) :=
  (condition.accept visitor.noting (state, [])).2.2.reverse

-- A visitor that makes every node again from what its children were made into.
structure Rebuilds (visitor : Visitor κ σ (Condition κ)) : Prop where
  onLeaf : ∀ comparison state, (visitor.onLeaf comparison state).1 = .leaf comparison
  onEnd : ∀ connective children state,
    (visitor.onEnd connective children state).1 = .group connective children

end Visitor

namespace Reports

variable {conditions others : List (Condition κ)} {visits more : List (Visit κ ρ)}
  {results given : List ρ}

theorem append (h : Reports conditions visits results) (ho : Reports others more given) :
    Reports (conditions ++ others) (visits ++ more) (results ++ given) := by
  induction h with
  | nil => exact ho
  | leaf _ ih => exact .leaf ih
  | group hc _ _ ih =>
    rw [List.append_assoc, List.cons_append]
    exact .group hc ih

theorem length_eq (h : Reports conditions visits results) : results.length = conditions.length := by
  induction h with
  | nil => rfl
  | leaf _ ih => exact congrArg (· + 1) ih
  | group _ _ _ ih => exact congrArg (· + 1) ih

end Reports

namespace Condition

theorem accept_group (visitor : Visitor κ σ ρ) (connective : Connective)
    (children : List (Condition κ)) (state : σ) :
    (group connective children).accept visitor state =
      visitor.onEnd connective (acceptAll visitor children (visitor.onBegin connective state)).1
        (acceptAll visitor children (visitor.onBegin connective state)).2 := rfl

theorem acceptAll_cons (visitor : Visitor κ σ ρ) (child : Condition κ)
    (rest : List (Condition κ)) (state : σ) :
    acceptAll visitor (child :: rest) state =
      ((child.accept visitor state).1 :: (acceptAll visitor rest (child.accept visitor state).2).1,
        (acceptAll visitor rest (child.accept visitor state).2).2) := rfl

theorem foldl_leafCount (children : List (Condition κ)) (count : Nat) :
    (children.map leafCount).foldl Nat.add count = count + leafCountAll children := by
  induction children generalizing count with
  | nil => rfl
  | cons child rest ih =>
    rw [List.map_cons, List.foldl_cons, ih, leafCountAll, Nat.add_eq, Nat.add_assoc]

theorem acceptAll_eventVisitor {children : List (Condition κ)}
    (h : ∀ child ∈ children, ∀ log,
      child.accept (eventVisitor κ) log = (child.leafCount, child.events.reverse ++ log))
    (log : List (Event κ)) :
    acceptAll (eventVisitor κ) children log =
      (children.map leafCount, (children.flatMap events).reverse ++ log) := by
  induction children generalizing log with
  | nil => rfl
  | cons child rest ih =>
    obtain ⟨hchild, hrest⟩ := List.forall_mem_cons.mp h
    rw [acceptAll_cons, hchild, ih hrest, List.flatMap_cons, List.reverse_append,
      List.append_assoc, List.map_cons]

theorem group_accept_eventVisitor {children : List (Condition κ)}
    (h : ∀ child ∈ children, ∀ log,
      child.accept (eventVisitor κ) log = (child.leafCount, child.events.reverse ++ log))
    (connective : Connective) (log : List (Event κ)) :
    (group connective children).accept (eventVisitor κ) log =
      (leafCountAll children, .finish connective children.length ::
        ((children.flatMap events).reverse ++ .begin connective :: log)) := by
  rw [accept_group, acceptAll_eventVisitor h]
  simp [eventVisitor, foldl_leafCount]

-- Events are noted behind all that was noted before, and the leaves are counted right.
theorem accept_eventVisitor (condition : Condition κ) (log : List (Event κ)) :
    condition.accept (eventVisitor κ) log =
      (condition.leafCount, condition.events.reverse ++ log) := by
  induction condition generalizing log with
  | leaf comparison => rfl
  | group connective children ih =>
    rw [events, group_accept_eventVisitor ih, group_accept_eventVisitor ih, leafCount]
    simp

theorem events_group (connective : Connective) (children : List (Condition κ)) :
    (group connective children).events =
      .begin connective :: children.flatMap events ++ [.finish connective children.length] := by
  rw [events, group_accept_eventVisitor fun child _ => child.accept_eventVisitor]
  simp

-- The comparisons among the events of a condition are its leaves.
theorem comparisons_events (condition : Condition κ) :
    condition.events.filterMap Event.comparison? = condition.leaves := by
  induction condition with
  | leaf comparison => rfl
  | group connective children ih =>
    have hchildren : (children.flatMap events).filterMap Event.comparison? =
        children.flatMap leaves := by
      rw [List.filterMap_flatMap, List.flatMap_def, List.flatMap_def, List.map_congr_left ih]
    rw [events_group, leaves, leavesAll_eq_flatMap, ← hchildren, List.filterMap_append]
    exact List.append_nil _

theorem length_leaves (condition : Condition κ) : condition.leaves.length = condition.leafCount := by
  induction condition with
  | leaf comparison => rfl
  | group connective children ih =>
    rw [leaves, leafCount]
    induction children with
    | nil => rfl
    | cons child rest ihr =>
      obtain ⟨hchild, hrest⟩ := List.forall_mem_cons.mp ih
      rw [leavesAll, leafCountAll, List.length_append, hchild, ihr hrest]

theorem events_eq_cons (condition : Condition κ) :
    ∃ event rest, condition.events = event :: rest ∧
      ∀ connective count, event ≠ .finish connective count := by
  cases condition with
  | leaf comparison => exact ⟨_, _, rfl, nofun⟩
  | group connective children => exact ⟨_, _, events_group connective children, nofun⟩

-- The events of the children of a group end where its last event stands.
theorem eq_of_flatMap_events {children others : List (Condition κ)}
    (h : ∀ child ∈ children, ∀ (other : Condition κ) rest more,
      child.events ++ rest = other.events ++ more → child = other ∧ rest = more)
    {connective another : Connective} {count number : Nat} {rest more : List (Event κ)}
    (he : children.flatMap events ++ .finish connective count :: rest =
      others.flatMap events ++ .finish another number :: more) :
    children = others ∧ rest = more := by
  induction children generalizing others with
  | nil =>
    cases others with
    | nil =>
      cases he
      exact ⟨rfl, rfl⟩
    | cons other others =>
      obtain ⟨event, events, hother, hevent⟩ := other.events_eq_cons
      rw [List.flatMap_cons, hother] at he
      exact absurd (List.cons.inj he).1.symm (hevent _ _)
  | cons child children ih =>
    obtain ⟨hchild, hchildren⟩ := List.forall_mem_cons.mp h
    cases others with
    | nil =>
      obtain ⟨event, events, hfirst, hevent⟩ := child.events_eq_cons
      rw [List.flatMap_cons, hfirst] at he
      exact absurd (List.cons.inj he).1 (hevent _ _)
    | cons other others =>
      rw [List.flatMap_cons, List.flatMap_cons, List.append_assoc, List.append_assoc] at he
      obtain ⟨rfl, hrest⟩ := hchild other _ _ he
      obtain ⟨rfl, hmore⟩ := ih hchildren hrest
      exact ⟨rfl, hmore⟩

-- No condition has events that begin with all the events of another one.
theorem eq_of_events_append {condition other : Condition κ} {rest more : List (Event κ)}
    (h : condition.events ++ rest = other.events ++ more) : condition = other ∧ rest = more := by
  induction condition generalizing other rest more with
  | leaf comparison =>
    cases other with
    | leaf another =>
      cases h
      exact ⟨rfl, rfl⟩
    | group connective children =>
      rw [events_group] at h
      cases h
  | group connective children ih =>
    cases other with
    | leaf comparison =>
      rw [events_group] at h
      cases h
    | group another others =>
      rw [events_group, events_group, List.append_assoc, List.append_assoc, List.cons_append,
        List.cons_append] at h
      obtain ⟨hconnective, hrest⟩ := List.cons.inj h
      cases hconnective
      obtain ⟨rfl, hmore⟩ := eq_of_flatMap_events (fun child hc other _ _ => ih child hc) hrest
      exact ⟨rfl, hmore⟩

theorem map_event_of_reports {conditions : List (Condition κ)} {visits : List (Visit κ ρ)}
    {results : List ρ} (h : Reports conditions visits results) :
    visits.map Visit.event = conditions.flatMap events := by
  induction h with
  | nil => rfl
  | leaf _ ih => rw [List.map_cons, ih, List.flatMap_cons]; rfl
  | group hc _ ihc ih =>
    rw [List.map_append, List.map_cons, List.map_cons, ihc, ih, Visit.event, Visit.event,
      hc.length_eq, List.flatMap_cons, events_group, List.append_assoc, List.singleton_append]

-- The visits that are noted report the walk, and the walk goes as if nobody noted them.
def NotesVisits (visitor : Visitor κ σ ρ) (condition : Condition κ) (state : σ) : Prop :=
  ∃ visits, Reports [condition] visits [(condition.accept visitor state).1] ∧
    ∀ log, condition.accept visitor.noting (state, log) =
      ((condition.accept visitor state).1, (condition.accept visitor state).2,
        visits.reverse ++ log)

theorem acceptAll_noting {visitor : Visitor κ σ ρ} {children : List (Condition κ)}
    (h : ∀ child ∈ children, ∀ state, child.NotesVisits visitor state) (state : σ) :
    ∃ visits, Reports children visits (acceptAll visitor children state).1 ∧
      ∀ log, acceptAll visitor.noting children (state, log) =
        ((acceptAll visitor children state).1, (acceptAll visitor children state).2,
          visits.reverse ++ log) := by
  induction children generalizing state with
  | nil => exact ⟨[], .nil, fun log => rfl⟩
  | cons child rest ih =>
    obtain ⟨hchild, hrest⟩ := List.forall_mem_cons.mp h
    obtain ⟨first, hfirst, hnoted⟩ := hchild state
    obtain ⟨others, hothers, hmore⟩ := ih hrest (child.accept visitor state).2
    refine ⟨first ++ others, hfirst.append hothers, fun log => ?_⟩
    rw [acceptAll_cons, acceptAll_cons, hnoted, hmore, List.reverse_append, List.append_assoc]

theorem accept_noting (visitor : Visitor κ σ ρ) (condition : Condition κ) (state : σ) :
    condition.NotesVisits visitor state := by
  induction condition generalizing state with
  | leaf comparison => exact ⟨[.leaf comparison _], .leaf .nil, fun log => rfl⟩
  | group connective children ih =>
    obtain ⟨inner, hinner, hnoted⟩ := acceptAll_noting ih (visitor.onBegin connective state)
    refine ⟨_, .group hinner .nil, fun log => ?_⟩
    have hbegin : visitor.noting.onBegin connective (state, log) =
      (visitor.onBegin connective state, .begin connective :: log) := rfl
    rw [accept_group visitor.noting, hbegin, hnoted]
    simp [Visitor.noting, accept_group]

theorem reports_visits (visitor : Visitor κ σ ρ) (condition : Condition κ) (state : σ) :
    Reports [condition] (visitor.visits condition state) [(condition.accept visitor state).1] := by
  obtain ⟨visits, hreports, hnoted⟩ := accept_noting visitor condition state
  have hvisits : visitor.visits condition state = visits := by
    rw [Visitor.visits, hnoted, List.append_nil, List.reverse_reverse]
  exact hvisits ▸ hreports

theorem accept_of_rebuilds {visitor : Visitor κ σ (Condition κ)} (h : visitor.Rebuilds)
    (condition : Condition κ) (state : σ) : (condition.accept visitor state).1 = condition := by
  induction condition generalizing state with
  | leaf comparison => exact h.onLeaf comparison state
  | group connective children ih =>
    have hchildren : ∀ state, (acceptAll visitor children state).1 = children := by
      induction children with
      | nil => exact fun state => rfl
      | cons child rest ihr =>
        obtain ⟨hchild, hrest⟩ := List.forall_mem_cons.mp ih
        intro state
        rw [acceptAll_cons, hchild, ihr hrest]
    rw [accept_group, h.onEnd, hchildren]

-- Whatever a visitor does, its visits follow the condition, and they are the events of the condition.
-- Among these are all leaves, each one once and from left to right. No other condition has the same
-- events. A visitor that makes every node again ends up with the condition itself.
theorem accept_determines (condition : Condition κ) :
    (∀ (σ ρ : Type) (visitor : Visitor κ σ ρ) (state : σ),
      Reports [condition] (visitor.visits condition state) [(condition.accept visitor state).1] ∧
        (visitor.visits condition state).map Visit.event = condition.events) ∧
    condition.events.filterMap Event.comparison? = condition.leaves ∧
    condition.leaves.length = condition.leafCount ∧
    (∀ other : Condition κ, other.events = condition.events ↔ other = condition) ∧
    ∀ (σ : Type) (visitor : Visitor κ σ (Condition κ)), visitor.Rebuilds →
      ∀ state, (condition.accept visitor state).1 = condition := by
  refine ⟨fun σ ρ visitor state => ?_, comparisons_events condition, length_leaves condition,
    fun other => ⟨fun h => ?_, congrArg events⟩,
    fun σ visitor h state => accept_of_rebuilds h condition state⟩
  · have hreports := reports_visits visitor condition state
    exact ⟨hreports, by rw [map_event_of_reports hreports, List.flatMap_singleton]⟩
  · have happend : other.events ++ [] = condition.events ++ [] := congrArg (· ++ []) h
    exact (eq_of_events_append happend).1

-- It counts the nodes on its way, and the groups twice.
def copier (κ : Type) : Visitor κ Nat (Condition κ) where
  onLeaf comparison count := (.leaf comparison, count + 1)
  onBegin _ count := count + 1
  onEnd connective children count := (.group connective children, count + 1)

-- The second child of the condition is a group without children.
theorem accept_determines_copied :
    let condition : Condition Empty := .group .and [.leaf twice, .group .or [], .leaf untagged]
    (copier Empty).Rebuilds ∧ condition.accept (copier Empty) 0 = (condition, 6) ∧
      Reports [condition] ((copier Empty).visits condition 0) [condition] ∧
      condition.events = [.begin .and, .leaf twice, .begin .or, .finish .or 0, .leaf untagged,
        .finish .and 3] := by
  intro condition
  have hrebuilds : (copier Empty).Rebuilds := ⟨fun _ _ => rfl, fun _ _ _ => rfl⟩
  obtain ⟨hvisits, -, -, -, hrebuilt⟩ := accept_determines condition
  have hcopy : (condition.accept (copier Empty) 0).1 = condition :=
    hrebuilt Nat (copier Empty) hrebuilds 0
  have hreports := (hvisits Nat (Condition Empty) (copier Empty) 0).1
  rw [hcopy] at hreports
  exact ⟨hrebuilds, Prod.ext hcopy rfl, hreports, rfl⟩

end Condition

end RecordFilter
