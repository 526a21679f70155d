import Mathlib.Algebra.BigOperators.Group.Finset.Basic
import Mathlib.Algebra.Order.BigOperators.Group.Finset
import Mathlib.Logic.Relation
import Mathlib.Tactic

/-!
# Graph search with a stack

A search that keeps the vertices to be looked at on a stack and the vertices it has
visited in a list.  A vertex can be pushed several times; it is skipped when it comes
up again.  The number of pops is counted, and `Inv` accounts for it: every pop was
paid for by the start or by an edge of a visited vertex.

## Main results

* `Inv.mem_visited_iff`: once the stack is empty, the visited vertices are those that
  can be reached from the start.
* `Inv.pops_le`: the number of pops is bounded by the number of edges that leave these.
-/

namespace Worklist

variable {α : Type*}

/-- The state of a search. -/
structure State (α : Type*) where
  /-- The vertices to be looked at, the next one first. -/
  stack : List α
  /-- The vertices visited so far, in order. -/
  visited : List α := []
  pops : Nat := 0

/-- There is an edge from the first vertex to the second. -/
def Edge (succ : α → List α) (a b : α) : Prop := b ∈ succ a

/-- The vertex can be reached from the start, by any number of edges. -/
def Reaches (succ : α → List α) (start : α) : α → Prop :=
  Relation.ReflTransGen (Edge succ) start

/-- Take the next vertex off the stack and visit it, unless it has been visited. -/
def State.pop [DecidableEq α] (succ : α → List α) (st : State α) : State α :=
  match st.stack with
  | [] => st
  | a :: stack =>
      if a ∈ st.visited then { st with stack, pops := st.pops + 1 }
      else
        { stack := (succ a).reverse ++ stack
          visited := st.visited ++ [a]
          pops := st.pops + 1 }

/-- The invariant of a search. -/
structure Inv (succ : α → List α) (start : α) (st : State α) : Prop where
  sound : ∀ a, a ∈ st.stack ∨ a ∈ st.visited → Reaches succ start a
  start_mem : start ∈ st.stack ∨ start ∈ st.visited
  closed : ∀ a ∈ st.visited, ∀ b ∈ succ a, b ∈ st.stack ∨ b ∈ st.visited
  nodup : st.visited.Nodup
  /-- Every push is still on the stack or has been popped. -/
  count : st.pops + st.stack.length = 1 + (st.visited.map fun a => (succ a).length).sum

namespace Inv

variable {succ : α → List α} {start : α} {st : State α}

theorem init (succ : α → List α) (start : α) : Inv succ start { stack := [start] } := by
  refine ⟨?_, by simp, by simp, by simp, by simp⟩
  intro a ha
  have hstart : a = start := by simpa using ha
  rw [hstart]
  exact .refl

/-- A vertex that has been visited before is dropped. -/
theorem skip (h : Inv succ start st) {a : α} {stack : List α} (hstack : st.stack = a :: stack)
    (hvisited : a ∈ st.visited) : Inv succ start { st with stack, pops := st.pops + 1 } := by
  have hstays : ∀ b, b ∈ st.stack ∨ b ∈ st.visited → b ∈ stack ∨ b ∈ st.visited := by
    intro b hb
    rw [hstack, List.mem_cons] at hb
    rcases hb with (rfl | hb) | hb
    · exact Or.inr hvisited
    · exact Or.inl hb
    · exact Or.inr hb
  constructor
  case sound =>
    rintro b (hb | hb)
    · exact h.sound b (Or.inl (by simp [hstack, hb]))
    · exact h.sound b (Or.inr hb)
  case start_mem => exact hstays start h.start_mem
  case closed => exact fun b hb c hc => hstays c (h.closed b hb c hc)
  case nodup => exact h.nodup
  case count =>
    have hcount := h.count
    rw [hstack, List.length_cons] at hcount
    show st.pops + 1 + stack.length = 1 + (st.visited.map fun a => (succ a).length).sum
    omega

/-- A new vertex is visited, and its successors are pushed. -/
theorem visit (h : Inv succ start st) {a : α} {stack : List α} (hstack : st.stack = a :: stack)
    (hfresh : a ∉ st.visited) : Inv succ start
      { stack := (succ a).reverse ++ stack
        visited := st.visited ++ [a]
        pops := st.pops + 1 } := by
  have ha : Reaches succ start a := h.sound a (Or.inl (by simp [hstack]))
  -- what was on the stack or visited still is, and `a` has moved
  have hstays : ∀ b, b ∈ st.stack ∨ b ∈ st.visited →
      b ∈ (succ a).reverse ++ stack ∨ b ∈ st.visited ++ [a] := by
    intro b hb
    rw [hstack, List.mem_cons] at hb
    simp only [List.mem_append, List.mem_singleton]
    tauto
  constructor
  case sound =>
    rintro b (hb | hb)
    · rw [List.mem_append, List.mem_reverse] at hb
      rcases hb with hb | hb
      · exact ha.tail hb
      · exact h.sound b (Or.inl (by simp [hstack, hb]))
    · rw [List.mem_append, List.mem_singleton] at hb
      rcases hb with hb | rfl
      · exact h.sound b (Or.inr hb)
      · exact ha
  case start_mem => exact hstays start h.start_mem
  case closed =>
    intro b hb c hc
    rw [List.mem_append, List.mem_singleton] at hb
    rcases hb with hb | rfl
    · exact hstays c (h.closed b hb c hc)
    · exact Or.inl (by simp [hc])
  case nodup =>
    rw [List.nodup_append]
    refine ⟨h.nodup, List.nodup_singleton a, ?_⟩
    rintro b hb c hc rfl
    rw [List.mem_singleton] at hc
    exact hfresh (hc ▸ hb)
  case count =>
    have hcount := h.count
    rw [hstack, List.length_cons] at hcount
    simp only [List.length_append, List.length_reverse, List.map_append, List.map_cons,
      List.map_nil, List.sum_append, List.sum_singleton]
    omega

theorem pop [DecidableEq α] (h : Inv succ start st) : Inv succ start (st.pop succ) := by
  unfold State.pop
  split
  · exact h
  · next a stack hstack =>
    split
    · next hvisited => exact h.skip hstack hvisited
    · next hfresh => exact h.visit hstack hfresh

/-- **A finished search has visited the reachable vertices.** -/
theorem mem_visited_iff (h : Inv succ start st) (hstack : st.stack = []) (a : α) :
    a ∈ st.visited ↔ Reaches succ start a := by
  constructor
  · exact fun ha => h.sound a (Or.inr ha)
  · intro ha
    induction ha with
    | refl => simpa [hstack] using h.start_mem
    | tail _ hedge ih => simpa [hstack] using h.closed _ ih _ hedge

/-- **Every pop is paid for by an edge.** -/
theorem pops_le (h : Inv succ start st) (vertices : Finset α)
    (hreach : ∀ a, Reaches succ start a → a ∈ vertices) :
    st.pops + st.stack.length ≤ 1 + ∑ a ∈ vertices, (succ a).length := by
  classical
  rw [h.count, ← List.sum_toFinset _ h.nodup]
  refine Nat.add_le_add_left (Finset.sum_le_sum_of_subset ?_) 1
  intro a ha
  exact hreach a (h.sound a (Or.inr (List.mem_toFinset.mp ha)))

end Inv

end Worklist
