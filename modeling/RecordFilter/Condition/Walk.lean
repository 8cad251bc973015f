import RecordFilter.Condition

namespace RecordFilter

-- A walk over a condition, depth first and from left to right. It carries a state
-- along and gives a result for every node, made from those of its children.
structure Visitor (κ σ ρ : Type) where
  onLeaf : Comparison κ → σ → ρ × σ
  onBegin : Connective → σ → σ
  onEnd : Connective → List ρ → σ → ρ × σ

namespace Condition

variable {κ σ ρ : Type}

mutual

def accept (visitor : Visitor κ σ ρ) : Condition κ → σ → ρ × σ
  | leaf comparison, state => visitor.onLeaf comparison state
  | group connective children, state =>
    let (results, state) := acceptAll visitor children (visitor.onBegin connective state)
    visitor.onEnd connective results state

def acceptAll (visitor : Visitor κ σ ρ) : List (Condition κ) → σ → List ρ × σ
  | [], state => ([], state)
  | child :: rest, state =>
    let (result, state) := child.accept visitor state
    let (results, state) := acceptAll visitor rest state
    (result :: results, state)

end

end Condition

inductive Event (κ : Type) where
  | leaf (comparison : Comparison κ)
  | begin (connective : Connective)
  | finish (connective : Connective) (children : Nat)

-- Notes every event, the latest first, and counts leaves.
def eventVisitor (κ : Type) : Visitor κ (List (Event κ)) Nat where
  onLeaf comparison events := (1, .leaf comparison :: events)
  onBegin connective events := .begin connective :: events
  onEnd connective counts events := (counts.foldl Nat.add 0, .finish connective counts.length :: events)

def Condition.events {κ : Type} (condition : Condition κ) : List (Event κ) :=
  (condition.accept (eventVisitor κ) []).2.reverse

end RecordFilter
