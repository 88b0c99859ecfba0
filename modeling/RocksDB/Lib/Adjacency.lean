import Mathlib

/-!
# Graphs given by successor lists

A directed graph over `α` stored as an association list from a vertex to the list of its
successors:

* `succ g u`, `Edge g u v`: the successors of `u`, an edge from `u` to `v`;
* `inCount g v`: how often `v` occurs across all the successor lists, with `inCount_insert` and
  `inCount_erase` for adding a vertex with its list and removing one;
* `not_transGen_of_inCount_eq_zero`: a vertex in no list is reached by no path;
* `mem_of_transGen`: a list that holds the successors of the root and of each of its own
  elements holds every vertex a path from the root reaches.
-/

namespace Adjacency

open Relation

variable {α : Type*} [DecidableEq α]

/-- the successors of `u`, none where `u` has no list -/
def succ (g : AList fun _ : α => List α) (u : α) : List α := (g.lookup u).getD []

/-- an edge from `u` to `v` -/
def Edge (g : AList fun _ : α => List α) (u v : α) : Prop := v ∈ succ g u

/-- the occurrences of `v` across all the successor lists -/
def inCount (g : AList fun _ : α => List α) (v : α) : Nat :=
  (g.entries.map fun e => e.2.count v).sum

variable {g : AList fun _ : α => List α} {u v : α} {l : List α}

theorem inCount_insert (h : u ∉ g) (v : α) : inCount (g.insert u l) v = l.count v + inCount g v := by
  rw [inCount, inCount, AList.entries_insert_of_notMem h, List.map_cons, List.sum_cons]

theorem inCount_erase (h : g.lookup u = some l) (v : α) :
    inCount (g.erase u) v + l.count v = inCount g v := by
  have hmem : u ∈ g.entries.keys := AList.lookup_isSome.mp (by simp [h])
  obtain ⟨b, l₁, l₂, hl₁, heq, herase⟩ := List.exists_of_kerase hmem
  -- the erased entry is the list `l` that `u` looks up
  have hb : b = l := by
    have hlook : g.entries.dlookup u = some l := h
    rw [heq, List.dlookup_append, List.dlookup_eq_none.mpr hl₁, List.dlookup_cons_eq] at hlook
    exact Option.some.inj hlook
  subst hb
  have hentries : (g.erase u).entries = g.entries.kerase u := rfl
  rw [inCount, inCount, hentries, herase, heq]
  simp only [List.map_append, List.map_cons, List.sum_append, List.sum_cons]
  omega

theorem succ_insert_self : succ (g.insert u l) u = l := by
  simp [succ, AList.lookup_insert]

theorem succ_insert_ne (h : v ≠ u) : succ (g.insert u l) v = succ g v := by
  simp [succ, AList.lookup_insert_ne h]

theorem count_pos_of_edge (h : Edge g u v) : 0 < inCount g v := by
  unfold Edge succ at h
  cases hl : g.lookup u with
  | none => simp [hl] at h
  | some l =>
    rw [hl, Option.getD_some] at h
    have hmem : (⟨u, l⟩ : Sigma fun _ : α => List α) ∈ g.entries := AList.mem_lookup_iff.mp hl
    have hle : l.count v ≤ inCount g v :=
      List.le_sum_of_mem (List.mem_map_of_mem (f := fun e : Sigma fun _ : α => List α => e.2.count v) hmem)
    have hpos : 0 < l.count v := List.count_pos_iff.mpr h
    omega

theorem not_transGen_of_inCount_eq_zero (h : inCount g v = 0) (u : α) :
    ¬ TransGen (Edge g) u v := by
  intro hp
  -- the last edge of the path ends at `v`
  obtain ⟨w, -, hw⟩ := TransGen.tail'_iff.mp hp
  have := count_pos_of_edge hw
  omega

/-- a list closed under the successors of the root and of its elements holds every vertex a path
from the root reaches -/
theorem mem_of_transGen {a b : α} {S : List α} (hroot : ∀ v ∈ succ g a, v ∈ S)
    (hclosed : ∀ u ∈ S, ∀ v ∈ succ g u, v ∈ S) (hp : TransGen (Edge g) a b) : b ∈ S := by
  induction hp with
  | single hab => exact hroot _ hab
  | tail _ hcd ih => exact hclosed _ ih _ hcd

end Adjacency
