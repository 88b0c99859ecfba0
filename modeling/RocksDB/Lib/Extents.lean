import Mathlib

/-!
# Extents: runs of addresses, nested and apart

An extent is the run of addresses `[base, base + len)`.  A bump allocator reasons about two
relations between extents, and only these:

* `Extent.Within e f`   every address of `e` is one of `f`;
* `Extent.Apart e f`    `e` and `f` share no address (an empty extent is apart from every
                        extent), read as the disjointness of the two address sets by
                        `Extent.apart_iff_disjoint`.

Carving an extent into pieces keeps them apart from everything the whole was apart from
(`Apart.mono`, `apart_of_within_mem`).
-/

/-- the addresses `[base, base + len)` -/
structure Extent where
  base : Nat
  len : Nat
deriving DecidableEq, Repr

namespace Extent

/-- one past the last address -/
abbrev limit (e : Extent) : Nat := e.base + e.len

/-- the addresses of `e` -/
def toSet (e : Extent) : Set Nat := Set.Ico e.base e.limit

/-- every address of `e` is one of `f` -/
def Within (e f : Extent) : Prop := f.base ≤ e.base ∧ e.limit ≤ f.limit

/-- `e` and `f` share no address -/
def Apart (e f : Extent) : Prop := e.len = 0 ∨ f.len = 0 ∨ e.limit ≤ f.base ∨ f.limit ≤ e.base

instance (e f : Extent) : Decidable (Within e f) := inferInstanceAs (Decidable (_ ∧ _))

instance (e f : Extent) : Decidable (Apart e f) := inferInstanceAs (Decidable (_ ∨ _ ∨ _ ∨ _))

variable {e e' f f' g : Extent}

theorem Within.refl (e : Extent) : Within e e := ⟨le_rfl, le_rfl⟩

theorem Within.trans (h : Within e f) (h' : Within f g) : Within e g :=
  ⟨h'.1.trans h.1, h.2.trans h'.2⟩

theorem Apart.symm (h : Apart e f) : Apart f e := by
  unfold Apart limit at h ⊢
  omega

/-- pieces of two extents that are apart are apart -/
theorem Apart.mono (h : Apart e f) (he : Within e' e) (hf : Within f' f) : Apart e' f' := by
  unfold Apart Within limit at *
  omega

theorem within_iff_subset (he : e.len ≠ 0) : Within e f ↔ e.toSet ⊆ f.toSet := by
  unfold Within toSet limit
  rw [Set.Ico_subset_Ico_iff (by omega)]

theorem apart_iff_disjoint : Apart e f ↔ Disjoint e.toSet f.toSet := by
  unfold Apart toSet limit
  rw [Set.Ico_disjoint_Ico]
  omega

/-- an extent apart from every extent of a list is apart from every extent within one of them -/
theorem apart_of_within_mem {l : List Extent} (h : ∀ f ∈ l, Apart e f)
    (hg : ∃ f ∈ l, Within g f) : Apart e g := by
  obtain ⟨f, hf, hgf⟩ := hg
  exact (h f hf).mono (Within.refl e) hgf

end Extent
