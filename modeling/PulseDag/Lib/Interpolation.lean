import Mathlib

/-!
# Piecewise monotone functions on the natural numbers

A function is given on intervals of one width. When it is monotone on each interval and stays
between the values of a monotone grid at the two ends of the interval, it is monotone. Integer
linear interpolation of a monotone grid is the main case.
-/

namespace PulseDag

section

variable {f grid : ℕ → ℕ} {width count s t : ℕ}

/-- A grid that grows from point to point grows. -/
theorem grid_le (hgrid : ∀ i < count, grid i ≤ grid (i + 1)) {i j : ℕ} (hij : i ≤ j)
    (hj : j ≤ count) : grid i ≤ grid j := by
  induction j, hij using Nat.le_induction with
  | base => exact le_rfl
  | succ j _ ih => exact (ih (by omega)).trans (hgrid j (by omega))

/-- A function that grows within and across the pieces grows. -/
theorem le_of_pieces (hgrid : ∀ i < count, grid i ≤ grid (i + 1))
    (hlow : ∀ t, t / width < count → grid (t / width) ≤ f t)
    (hhigh : ∀ t, t / width < count → f t ≤ grid (t / width + 1))
    (hpiece : ∀ s t, s ≤ t → s / width = t / width → t / width < count → f s ≤ f t)
    (hst : s ≤ t) (ht : t / width < count) : f s ≤ f t := by
  rcases (Nat.div_le_div_right hst : s / width ≤ t / width).eq_or_lt with hsame | hlt
  · exact hpiece s t hst hsame ht
  · calc f s ≤ grid (s / width + 1) := hhigh s (by omega)
      _ ≤ grid (t / width) := grid_le hgrid (by omega) (by omega)
      _ ≤ f t := hlow t ht

end

/-- Integer linear interpolation between the values of a grid. -/
def interpolate (grid : ℕ → ℕ) (width t : ℕ) : ℕ :=
  grid (t / width) + (grid (t / width + 1) - grid (t / width)) * (t % width) / width

section

variable {grid : ℕ → ℕ} {width count s t : ℕ}

/-- The interpolation starts on the grid. -/
theorem interpolate_zero (grid : ℕ → ℕ) (width : ℕ) : interpolate grid width 0 = grid 0 := by
  simp [interpolate]

/-- A part of the slope is at most the slope. -/
theorem mul_mod_div_le (slope width t : ℕ) : slope * (t % width) / width ≤ slope := by
  rcases Nat.eq_zero_or_pos width with rfl | hpos
  · simp
  · calc slope * (t % width) / width ≤ slope * width / width := by
          gcongr
          exact (Nat.mod_lt t hpos).le
      _ = slope := Nat.mul_div_cancel _ hpos

/-- The interpolation stays below the next grid point. -/
theorem interpolate_le (h : grid (t / width) ≤ grid (t / width + 1)) :
    interpolate grid width t ≤ grid (t / width + 1) := by
  have := mul_mod_div_le (grid (t / width + 1) - grid (t / width)) width t
  unfold interpolate
  omega

/-- Interpolating a growing grid gives a growing function. -/
theorem interpolate_mono (hgrid : ∀ i < count, grid i ≤ grid (i + 1)) (hst : s ≤ t)
    (ht : t / width < count) : interpolate grid width s ≤ interpolate grid width t := by
  refine le_of_pieces hgrid (fun _ _ => Nat.le_add_right _ _)
    (fun t ht => interpolate_le (hgrid _ ht)) (fun s t hst hsame _ => ?_) hst ht
  have hmod : s % width ≤ t % width := by
    have hs := Nat.div_add_mod s width
    have ht := Nat.div_add_mod t width
    rw [hsame] at hs
    omega
  rw [interpolate, interpolate, hsame]
  gcongr

end

end PulseDag
