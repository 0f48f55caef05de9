/-!
# Gaussian rationals

Complex numbers with rational parts.  They are the exact numbers of the
library: integers and fractions are those with imaginary part zero.
-/

namespace ExactRoots

/-- The number `re + im * i` with rational parts. -/
@[ext]
structure Gaussian where
  re : Rat
  im : Rat
  deriving DecidableEq, Repr

namespace Gaussian

/-- A rational as a Gaussian rational. -/
def ofRat (q : Rat) : Gaussian := ⟨q, 0⟩

instance : Zero Gaussian := ⟨⟨0, 0⟩⟩

instance : One Gaussian := ⟨⟨1, 0⟩⟩

instance : Add Gaussian := ⟨fun u v => ⟨u.re + v.re, u.im + v.im⟩⟩

instance : Sub Gaussian := ⟨fun u v => ⟨u.re - v.re, u.im - v.im⟩⟩

instance : Neg Gaussian := ⟨fun u => ⟨-u.re, -u.im⟩⟩

instance : Mul Gaussian :=
  ⟨fun u v => ⟨u.re * v.re - u.im * v.im, u.re * v.im + u.im * v.re⟩⟩

/-- The square of the absolute value. -/
def normSq (u : Gaussian) : Rat := u.re * u.re + u.im * u.im

instance : Inv Gaussian := ⟨fun u => ⟨u.re / u.normSq, -u.im / u.normSq⟩⟩

instance : Div Gaussian := ⟨fun u v => u * v⁻¹⟩

@[simp]
theorem re_zero : (0 : Gaussian).re = 0 := rfl

@[simp]
theorem im_zero : (0 : Gaussian).im = 0 := rfl

@[simp]
theorem re_one : (1 : Gaussian).re = 1 := rfl

@[simp]
theorem im_one : (1 : Gaussian).im = 0 := rfl

@[simp]
theorem re_add (u v : Gaussian) : (u + v).re = u.re + v.re := rfl

@[simp]
theorem im_add (u v : Gaussian) : (u + v).im = u.im + v.im := rfl

@[simp]
theorem re_sub (u v : Gaussian) : (u - v).re = u.re - v.re := rfl

@[simp]
theorem im_sub (u v : Gaussian) : (u - v).im = u.im - v.im := rfl

@[simp]
theorem re_neg (u : Gaussian) : (-u).re = -u.re := rfl

@[simp]
theorem im_neg (u : Gaussian) : (-u).im = -u.im := rfl

@[simp]
theorem re_mul (u v : Gaussian) : (u * v).re = u.re * v.re - u.im * v.im := rfl

@[simp]
theorem im_mul (u v : Gaussian) : (u * v).im = u.re * v.im + u.im * v.re := rfl

end Gaussian

end ExactRoots
