import Mathlib.Analysis.SpecialFunctions.Trigonometric.Basic
import Mathlib.Tactic.Ring

namespace Frameleaf.Plane

/-!
# Affine maps of the plane

Maps are written with six coefficients, and turns by quarters are exact over
every field.
-/

/-- A point of the plane. -/
@[ext] structure Point (K : Type) where
  x : K
  y : K
  deriving DecidableEq

/-- An affine map of the plane. -/
@[ext] structure PlaneMap (K : Type) where
  a : K
  b : K
  c : K
  d : K
  e : K
  f : K
  deriving DecidableEq

variable {K : Type} [Field K]

/-- Where a map takes a point. -/
def PlaneMap.apply
    (map : PlaneMap K)
    (point : Point K) : Point K where
  x := map.a * point.x + map.c * point.y + map.e
  y := map.b * point.x + map.d * point.y + map.f

/-- The map that leaves all points. -/
def PlaneMap.identity : PlaneMap K where
  a := 1
  b := 0
  c := 0
  d := 1
  e := 0
  f := 0

/-- The map that applies the second map first. -/
def PlaneMap.comp
    (first second : PlaneMap K) : PlaneMap K where
  a := first.a * second.a + first.c * second.b
  b := first.b * second.a + first.d * second.b
  c := first.a * second.c + first.c * second.d
  d := first.b * second.c + first.d * second.d
  e := first.a * second.e + first.c * second.f + first.e
  f := first.b * second.e + first.d * second.f + first.f

/-- The map that shifts all points. -/
def PlaneMap.shift (x y : K) : PlaneMap K where
  a := 1
  b := 0
  c := 0
  d := 1
  e := x
  f := y

/-- The map that turns the x-axis to a direction. -/
def PlaneMap.turn (cos sin : K) : PlaneMap K where
  a := cos
  b := sin
  c := -sin
  d := cos
  e := 0
  f := 0

/-- The map that stretches the axes. -/
def PlaneMap.stretch (x y : K) : PlaneMap K where
  a := x
  b := 0
  c := 0
  d := y
  e := 0
  f := 0

/-- The cosine of a number of quarter turns. -/
def quarterCos (quarters : ℤ) : K :=
  if quarters % 4 = 0 then 1 else if quarters % 4 = 2 then -1 else 0

/-- The sine of a number of quarter turns. -/
def quarterSin (quarters : ℤ) : K :=
  if quarters % 4 = 1 then 1 else if quarters % 4 = 3 then -1 else 0

/-- The map that makes quarter turns. -/
def PlaneMap.quarterTurn (quarters : ℤ) : PlaneMap K :=
  .turn (quarterCos quarters) (quarterSin quarters)

/-- The identity leaves points. -/
@[simp] theorem PlaneMap.apply_identity (point : Point K) :
    (PlaneMap.identity : PlaneMap K).apply point = point := by
  ext
  · simp [apply, identity]
  · simp [apply, identity]

/-- A composition applies its second map first. -/
@[simp] theorem PlaneMap.apply_comp
    (first second : PlaneMap K)
    (point : Point K) :
    (first.comp second).apply point = first.apply (second.apply point) := by
  ext
  · simp only [apply, comp]
    ring
  · simp only [apply, comp]
    ring

/-- A shift adds to points. -/
@[simp] theorem PlaneMap.apply_shift
    (x y : K)
    (point : Point K) :
    (PlaneMap.shift x y).apply point = ⟨point.x + x, point.y + y⟩ := by
  simp [apply, shift]

/-- A stretch multiplies points. -/
@[simp] theorem PlaneMap.apply_stretch
    (x y : K)
    (point : Point K) :
    (PlaneMap.stretch x y).apply point = ⟨x * point.x, y * point.y⟩ := by
  simp [apply, stretch]

/-- A turn by an angle. -/
@[simp] theorem PlaneMap.apply_turn
    (cos sin : K)
    (point : Point K) :
    (PlaneMap.turn cos sin).apply point =
      ⟨cos * point.x - sin * point.y, sin * point.x + cos * point.y⟩ := by
  ext
  · simp only [apply, turn]
    ring
  · simp only [apply, turn]
    ring

theorem quarter_cases (quarters : ℤ) :
    quarters % 4 = 0 ∨ quarters % 4 = 1 ∨ quarters % 4 = 2 ∨
      quarters % 4 = 3 := by
  omega

theorem quarter_values (quarters : ℤ) :
    (quarters % 4 = 0 ∧ quarterCos (K := K) quarters = 1 ∧
        quarterSin (K := K) quarters = 0) ∨
      (quarters % 4 = 1 ∧ quarterCos (K := K) quarters = 0 ∧
        quarterSin (K := K) quarters = 1) ∨
      (quarters % 4 = 2 ∧ quarterCos (K := K) quarters = -1 ∧
        quarterSin (K := K) quarters = 0) ∨
      (quarters % 4 = 3 ∧ quarterCos (K := K) quarters = 0 ∧
        quarterSin (K := K) quarters = -1) := by
  unfold quarterCos quarterSin
  rcases quarter_cases quarters with last | last | last | last
  · simp [last]
  · simp [last]
  · simp [last]
  · simp [last]

theorem quarterCos_add (first second : ℤ) :
    (quarterCos (first + second) : K) =
      quarterCos first * quarterCos second -
        quarterSin first * quarterSin second := by
  unfold quarterCos quarterSin
  rw [Int.add_emod]
  rcases quarter_cases first with one | one | one | one <;>
    rcases quarter_cases second with two | two | two | two <;>
      simp [one, two]

theorem quarterSin_add (first second : ℤ) :
    (quarterSin (first + second) : K) =
      quarterSin first * quarterCos second +
        quarterCos first * quarterSin second := by
  unfold quarterCos quarterSin
  rw [Int.add_emod]
  rcases quarter_cases first with one | one | one | one <;>
    rcases quarter_cases second with two | two | two | two <;>
      simp [one, two]

theorem PlaneMap.quarterTurn_add
    (first second : ℤ)
    (point : Point K) :
    (PlaneMap.quarterTurn (first + second)).apply point =
      (PlaneMap.quarterTurn first).apply
        ((PlaneMap.quarterTurn second).apply point) := by
  simp only [quarterTurn, apply_turn, quarterCos_add, quarterSin_add]
  ext
  · simp only
    ring
  · simp only
    ring

/-- No turn leaves points. -/
@[simp] theorem PlaneMap.quarterTurn_zero (point : Point K) :
    (PlaneMap.quarterTurn 0).apply point = point := by
  simp [quarterTurn, quarterCos, quarterSin]

/-- A turn back undoes a turn. -/
@[simp] theorem PlaneMap.quarterTurn_neg
    (quarters : ℤ)
    (point : Point K) :
    (PlaneMap.quarterTurn (-quarters)).apply
        ((PlaneMap.quarterTurn quarters).apply point) = point := by
  rw [← quarterTurn_add, neg_add_cancel, quarterTurn_zero]

/-- A motion that turns by quarters and then shifts. -/
def Turns
    (quarters : ℤ)
    (motion : Point K → Point K) : Prop :=
  ∃ x y : K, ∀ point,
    motion point =
      (PlaneMap.shift x y).apply ((PlaneMap.quarterTurn quarters).apply point)

theorem Turns.shift (x y : K) :
    Turns 0 (PlaneMap.shift x y).apply :=
  ⟨x, y, fun point => by rw [PlaneMap.quarterTurn_zero]⟩

theorem Turns.id : Turns 0 (fun point : Point K => point) :=
  ⟨0, 0, fun point => by
    rw [PlaneMap.quarterTurn_zero, PlaneMap.apply_shift, add_zero, add_zero]⟩

theorem Turns.quarterTurn (quarters : ℤ) :
    Turns quarters (PlaneMap.quarterTurn quarters : PlaneMap K).apply :=
  ⟨0, 0, fun point => by
    rw [PlaneMap.apply_shift, add_zero, add_zero]⟩

theorem Turns.comp
    {first second : ℤ}
    {firstMotion secondMotion : Point K → Point K}
    (firstTurns : Turns first firstMotion)
    (secondTurns : Turns second secondMotion) :
    Turns (first + second) fun point => firstMotion (secondMotion point) := by
  obtain ⟨x, y, firstEq⟩ := firstTurns
  obtain ⟨u, v, secondEq⟩ := secondTurns
  refine ⟨((PlaneMap.quarterTurn first).apply ⟨u, v⟩).x + x,
    ((PlaneMap.quarterTurn first).apply ⟨u, v⟩).y + y, fun point => ?_⟩
  dsimp only
  rw [firstEq, secondEq, PlaneMap.quarterTurn_add]
  simp only [PlaneMap.apply_shift, PlaneMap.quarterTurn, PlaneMap.apply_turn]
  ext
  · simp only
    ring
  · simp only
    ring

theorem quarterTurn_real (quarters : ℤ) :
    (PlaneMap.quarterTurn quarters : PlaneMap ℝ) =
      .turn (Real.cos (quarters * (Real.pi / 2)))
        (Real.sin (quarters * (Real.pi / 2))) := by
  obtain ⟨whole, wholeEq⟩ : ∃ whole : ℤ,
      quarters = quarters % 4 + whole * 4 := ⟨quarters / 4, by omega⟩
  have angle : (quarters : ℝ) * (Real.pi / 2) =
      (quarters % 4 : ℤ) * (Real.pi / 2) + whole * (2 * Real.pi) := by
    have cast : (quarters : ℝ) = (quarters % 4 : ℤ) + whole * 4 := by
      exact_mod_cast wholeEq
    rw [cast]
    ring
  rw [angle, Real.cos_add_int_mul_two_pi, Real.sin_add_int_mul_two_pi]
  have half : (2 : ℝ) * (Real.pi / 2) = Real.pi := by ring
  have most : (3 : ℝ) * (Real.pi / 2) = Real.pi / 2 + Real.pi := by ring
  unfold PlaneMap.quarterTurn
  rcases quarter_values (K := ℝ) quarters with
    ⟨last, cos, sin⟩ | ⟨last, cos, sin⟩ | ⟨last, cos, sin⟩ | ⟨last, cos, sin⟩
  · simp [last, cos, sin]
  · simp [last, cos, sin]
  · simp [last, cos, sin, half]
  · simp [last, cos, sin, most, Real.cos_add_pi, Real.sin_add_pi]

end Frameleaf.Plane
