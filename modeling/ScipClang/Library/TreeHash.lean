import Mathlib.Data.List.Basic
import Mathlib.Tactic

/-!
# Hashing labelled trees

A running hash takes up one piece of data after the other.  A tree is hashed from the leaves
up: a node takes up what its label gives, if anything, and then the hashes of its children.

If the hash function is free of collisions, the hash of a tree tells exactly what has been
taken up: two trees have the same hash if and only if they have the same shape and their
labels give the same data (`LabelledTree.hash_eq_iff`).
-/

/-- A hash function with a running value: `raw` is the data that a value itself is taken up as. -/
structure HashFunction (H : Type*) (B : Type*) where
  init : H
  mix : H → B → H
  raw : H → B

namespace HashFunction

variable {H B : Type*}

/-- No two ways to arrive at a value. -/
structure CollisionFree (f : HashFunction H B) : Prop where
  mix_inj : ∀ {h h' : H} {b b' : B}, f.mix h b = f.mix h' b' → h = h' ∧ b = b'
  mix_ne_init : ∀ (h : H) (b : B), f.mix h b ≠ f.init
  raw_injective : Function.Injective f.raw

/-- The value after all data has been taken up. -/
def digest (f : HashFunction H B) (data : List B) : H := data.foldl f.mix f.init

theorem digest_concat (f : HashFunction H B) (data : List B) (b : B) :
    f.digest (data ++ [b]) = f.mix (f.digest data) b := by
  simp [digest]

theorem CollisionFree.digest_injective {f : HashFunction H B} (hfree : f.CollisionFree) :
    Function.Injective f.digest := by
  intro data
  induction data using List.reverseRecOn with
  | nil =>
      intro data' h
      cases data' using List.reverseRecOn with
      | nil => rfl
      | append_singleton data' b' =>
          rw [digest_concat] at h
          exact absurd h.symm (hfree.mix_ne_init _ _)
  | append_singleton data b ih =>
      intro data' h
      cases data' using List.reverseRecOn with
      | nil =>
          rw [digest_concat] at h
          exact absurd h (hfree.mix_ne_init _ _)
      | append_singleton data' b' =>
          rw [digest_concat, digest_concat] at h
          obtain ⟨hdata, rfl⟩ := hfree.mix_inj h
          rw [ih hdata]

end HashFunction

/-- Finite trees with labels. -/
inductive LabelledTree (α : Type*) where
  | node (label : α) (children : List (LabelledTree α))

namespace LabelledTree

variable {H B α β γ : Type*}

mutual

/-- The tree with other labels. -/
def relabel (g : α → β) : LabelledTree α → LabelledTree β
  | .node label children => .node (g label) (relabelAll g children)

/-- `relabel` on each tree of a list. -/
def relabelAll (g : α → β) : List (LabelledTree α) → List (LabelledTree β)
  | [] => []
  | tree :: trees => relabel g tree :: relabelAll g trees

end

mutual

/-- The hash of a tree; `own` is what a label gives. -/
def hash (f : HashFunction H B) (own : α → Option B) : LabelledTree α → H
  | .node label children => hashAll f own ((own label).elim f.init (f.mix f.init)) children

/-- Take up the hashes of some trees. -/
def hashAll (f : HashFunction H B) (own : α → Option B) : H → List (LabelledTree α) → H
  | h, [] => h
  | h, tree :: trees => hashAll f own (f.mix h (f.raw (hash f own tree))) trees

end

mutual

theorem relabel_relabel (g : α → β) (g' : β → γ) : ∀ tree : LabelledTree α,
    (tree.relabel g).relabel g' = tree.relabel (g' ∘ g)
  | .node label children => by
      rw [relabel, relabel, relabel, relabelAll_relabelAll g g' children]
      rfl

theorem relabelAll_relabelAll (g : α → β) (g' : β → γ) : ∀ trees : List (LabelledTree α),
    relabelAll g' (relabelAll g trees) = relabelAll (g' ∘ g) trees
  | [] => rfl
  | tree :: trees => by
      rw [relabelAll, relabelAll, relabelAll, relabel_relabel g g' tree,
        relabelAll_relabelAll g g' trees]

end

mutual

theorem relabel_injective {g : α → β} (hg : Function.Injective g) :
    ∀ {tree tree' : LabelledTree α}, tree.relabel g = tree'.relabel g → tree = tree'
  | .node label children, .node label' children', h => by
      rw [relabel, relabel, node.injEq] at h
      rw [hg h.1, relabelAll_injective hg h.2]

theorem relabelAll_injective {g : α → β} (hg : Function.Injective g) :
    ∀ {trees trees' : List (LabelledTree α)}, relabelAll g trees = relabelAll g trees' →
      trees = trees'
  | [], [], _ => rfl
  | [], _ :: _, h => by rw [relabelAll, relabelAll] at h; cases h
  | _ :: _, [], h => by rw [relabelAll, relabelAll] at h; cases h
  | tree :: trees, tree' :: trees', h => by
      rw [relabelAll, relabelAll, List.cons.injEq] at h
      rw [relabel_injective hg h.1, relabelAll_injective hg h.2]

end

mutual

/-- Only what the labels give is hashed. -/
theorem hash_relabel (f : HashFunction H B) (own : α → Option B) : ∀ tree : LabelledTree α,
    (tree.relabel own).hash f id = tree.hash f own
  | .node label children => by
      rw [relabel, hash, hash]
      exact hashAll_relabelAll f own _ children

theorem hashAll_relabelAll (f : HashFunction H B) (own : α → Option B) (h : H) :
    ∀ trees : List (LabelledTree α),
      hashAll f id h (relabelAll own trees) = hashAll f own h trees
  | [] => by rw [relabelAll, hashAll, hashAll]
  | tree :: trees => by
      rw [relabelAll, hashAll, hashAll, hash_relabel f own tree,
        hashAll_relabelAll f own _ trees]

end

theorem hashAll_append (f : HashFunction H B) (own : α → Option B) (h : H)
    (trees trees' : List (LabelledTree α)) :
    hashAll f own h (trees ++ trees') = hashAll f own (hashAll f own h trees) trees' := by
  induction trees generalizing h with
  | nil => rw [List.nil_append, hashAll]
  | cons tree trees ih => rw [List.cons_append, hashAll, hashAll, ih]

/-- Taking up the hashes of the trees is one long digest. -/
theorem hashAll_digest (f : HashFunction H B) (own : α → Option B) (data : List B)
    (trees : List (LabelledTree α)) :
    hashAll f own (f.digest data) trees =
      f.digest (data ++ trees.map fun tree => f.raw (tree.hash f own)) := by
  induction trees generalizing data with
  | nil => rw [hashAll, List.map_nil, List.append_nil]
  | cons tree trees ih =>
      rw [hashAll, ← HashFunction.digest_concat, ih, List.append_assoc, List.map_cons]
      rfl

/-- The hash of a node. -/
theorem hash_node (f : HashFunction H B) (own : α → Option B) (label : α)
    (children : List (LabelledTree α)) :
    (node label children).hash f own =
      f.digest ((own label).toList ++ children.map fun tree => f.raw (tree.hash f own)) := by
  have hstart : (own label).elim f.init (f.mix f.init) = f.digest (own label).toList := by
    cases own label with
    | none => rfl
    | some b => rfl
  rw [hash, hstart, hashAll_digest]

/-- What a label gives can be told from the hashes of the children. -/
theorem label_children_inj {f : HashFunction H B} {own own' : Option B}
    {hashes hashes' : List H} (hown : ∀ h, own ≠ some (f.raw h))
    (hown' : ∀ h, own' ≠ some (f.raw h))
    (heq : own.toList ++ hashes.map f.raw = own'.toList ++ hashes'.map f.raw) :
    own = own' ∧ hashes.map f.raw = hashes'.map f.raw := by
  cases own with
  | none =>
      cases own' with
      | none => exact ⟨rfl, heq⟩
      | some b' =>
          cases hashes with
          | nil => cases heq
          | cons h hashes => exact absurd (congrArg some (List.cons.inj heq).1.symm) (hown' h)
  | some b =>
      cases own' with
      | none =>
          cases hashes' with
          | nil => cases heq
          | cons h hashes' => exact absurd (congrArg some (List.cons.inj heq).1) (hown h)
      | some b' => exact ⟨congrArg some (List.cons.inj heq).1, (List.cons.inj heq).2⟩

section Injective

variable {f : HashFunction H B}

/-- No label gives the data of a hash value. -/
def Separated (f : HashFunction H B) (own : α → Option B) : Prop :=
  ∀ label h, own label ≠ some (f.raw h)

mutual

theorem relabel_eq_of_hash_eq (hfree : f.CollisionFree) {own : α → Option B}
    (hown : Separated f own) :
    ∀ {tree tree' : LabelledTree α}, tree.hash f own = tree'.hash f own →
      tree.relabel own = tree'.relabel own
  | .node label children, .node label' children', h => by
      rw [hash_node, hash_node] at h
      have hdata := hfree.digest_injective h
      rw [← Function.comp_def f.raw, ← List.map_map, ← List.map_map] at hdata
      obtain ⟨hlabel, hchildren⟩ := label_children_inj (hown label) (hown label') hdata
      have hhashes := hfree.raw_injective.list_map hchildren
      rw [relabel, relabel, hlabel, relabelAll_eq_of_hash_eq hfree hown hhashes]

theorem relabelAll_eq_of_hash_eq (hfree : f.CollisionFree) {own : α → Option B}
    (hown : Separated f own) :
    ∀ {trees trees' : List (LabelledTree α)},
      trees.map (hash f own) = trees'.map (hash f own) →
        relabelAll own trees = relabelAll own trees'
  | [], [], _ => rfl
  | [], _ :: _, h => by cases h
  | _ :: _, [], h => by cases h
  | tree :: trees, tree' :: trees', h => by
      rw [List.map_cons, List.map_cons, List.cons.injEq] at h
      rw [relabelAll, relabelAll, relabel_eq_of_hash_eq hfree hown h.1,
        relabelAll_eq_of_hash_eq hfree hown h.2]

end

/-- **Trees have the same hash if and only if their labels give the same data.** -/
theorem hash_eq_iff (hfree : f.CollisionFree) {own : α → Option B} (hown : Separated f own)
    {tree tree' : LabelledTree α} :
    tree.hash f own = tree'.hash f own ↔ tree.relabel own = tree'.relabel own := by
  constructor
  · exact relabel_eq_of_hash_eq hfree hown
  · intro h
    rw [← hash_relabel, h, hash_relabel]

end Injective

end LabelledTree
