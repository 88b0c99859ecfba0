import Mathlib

/-!
# Readers over a list

A decoder that consumes a prefix of its input and may fail: `Reader β α`, a state of the rest of
the input and the possibility of failure, `StateT (List β) Option α`.  A decoding function of type
`List β → Option (α × List β)` is one already.

* `Reader.bind_eq`, `Reader.bind_some`   a `do` step run on an input, and run on an input where
                                         the first step is known to succeed;
* `Reader.bind_inv`                      a successful run of a `do` block comes from successful
                                         runs of its steps;
* `Reader.Shrinks`                       the reader never leaves more input than it was given,
                                         with the rules that build it up through `do` blocks
                                         (`Shrinks.pure`, `Shrinks.bind`, `Shrinks.failure`).
  A loop that runs a shrinking reader after a reader that consumes at least one element
  terminates on the length of its input.
-/

/-- a decoder over a list of `β`, answering an `α` and the rest of the list -/
abbrev Reader (β α : Type) := StateT (List β) Option α

namespace Reader

variable {β α γ : Type}

theorem bind_eq (x : Reader β α) (f : α → Reader β γ) (s : List β) :
    (x >>= f) s = (x s).bind fun p => f p.1 p.2 := rfl

theorem bind_some {x : Reader β α} {f : α → Reader β γ} {s s' : List β} {a : α}
    (h : x s = some (a, s')) : (x >>= f) s = f a s' := by
  rw [bind_eq, h, Option.bind_some]

@[simp] theorem pure_apply (a : α) (s : List β) : (pure a : Reader β α) s = some (a, s) := rfl

@[simp] theorem failure_apply (s : List β) : (failure : Reader β α) s = none := rfl

/-- the workhorse: a successful `do` step comes from a successful first step -/
theorem bind_inv {x : Reader β α} {f : α → Reader β γ} {s : List β} {r : γ × List β}
    (h : (x >>= f) s = some r) : ∃ a s₁, x s = some (a, s₁) ∧ f a s₁ = some r := by
  rw [bind_eq] at h
  cases hx : x s with
  | none => rw [hx] at h; exact absurd h (by simp)
  | some p =>
    rw [hx, Option.bind_some] at h
    exact ⟨p.1, p.2, rfl, h⟩

/-- the reader leaves at most the input it was given -/
def Shrinks (x : Reader β α) : Prop :=
  ∀ s a s', x s = some (a, s') → s'.length ≤ s.length

theorem Shrinks.pure (a : α) : Shrinks (pure a : Reader β α) := by
  intro s b s' h
  simp only [pure_apply, Option.some.injEq, Prod.mk.injEq] at h
  rw [h.2]

theorem Shrinks.failure : Shrinks (failure : Reader β α) := by
  intro s a s' h
  simp at h

theorem Shrinks.bind {x : Reader β α} {f : α → Reader β γ} (hx : Shrinks x)
    (hf : ∀ a, Shrinks (f a)) : Shrinks (x >>= f) := by
  intro s c s' h
  obtain ⟨a, s₁, h1, h2⟩ := bind_inv h
  exact (hf a s₁ c s' h2).trans (hx s a s₁ h1)

theorem Shrinks.ite {p : Prop} [Decidable p] {x y : Reader β α} (hx : Shrinks x)
    (hy : Shrinks y) : Shrinks (if p then x else y) := by
  split
  · exact hx
  · exact hy

end Reader
