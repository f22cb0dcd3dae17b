import Midframe.Proofs.Scalar.Powers
import Midframe.Spec.Basic

/-!
# The stride of a chain

Every strided convolution doubles the stride of a chain and every upsampling halves it, so the
stride is a power of two whose exponent tells how many more there are of the former. This holds as
long as double precision numbers reach: where the exponent once leaves their range, the stride
becomes infinite or zero and stays so.
-/

namespace Midframe

namespace Op

/-- Whether the operation doubles the stride. -/
def isStrided : Op → Bool
  | sconv .. => true
  | _ => false

/-- Whether the operation halves the stride. -/
def isUpsampling : Op → Bool
  | up _ => true
  | _ => false

/-- By how many powers of two operations multiply the stride. -/
def scale (ops : List Op) : Int := ops.countP isStrided - ops.countP isUpsampling

/-- The stride of every part of a chain that starts at its head is a double precision number. -/
def StaysInRange (ops : List Op) : Prop :=
  ∀ before, before <+: ops → -1074 ≤ scale before ∧ scale before ≤ 1023

/-- The product of the strides of operations, from the first to the last. -/
def strideProduct (ops : List Op) : Float := ops.foldl (fun acc op => acc * op.stride) 1

theorem strideProduct_concat (ops : List Op) (op : Op) :
    strideProduct (ops ++ [op]) = strideProduct ops * op.stride := by
  rw [strideProduct, List.foldl_append]
  rfl

theorem scale_concat (ops : List Op) (op : Op) : scale (ops ++ [op]) = scale ops + scale [op] := by
  simp only [scale, List.countP_append]
  omega

theorem isPower_stride (op : Op) : IsPower op.stride (scale [op]) := by
  cases op with
  | sconv kernel border => exact isPower_two
  | up algorithm => exact isPower_half
  | _ => exact isPower_one

theorem scale_bounds (op : Op) : -1 ≤ scale [op] ∧ scale [op] ≤ 1 := by
  cases op <;> simp [scale, isStrided, isUpsampling]

theorem staysInRange_concat {ops : List Op} {op : Op} : StaysInRange (ops ++ [op]) ↔
    StaysInRange ops ∧ -1074 ≤ scale (ops ++ [op]) ∧ scale (ops ++ [op]) ≤ 1023 := by
  simp only [StaysInRange, List.prefix_concat_iff, forall_eq_or_imp]
  exact and_comm

/-- Within the range the stride is a power of two. -/
theorem isPower_strideProduct {ops : List Op} (h : StaysInRange ops) :
    IsPower (strideProduct ops) (scale ops) := by
  induction ops using List.reverseRecOn with
  | nil => exact isPower_one
  | append_singleton ops op ih =>
    obtain ⟨hops, hleast, hgreatest⟩ := staysInRange_concat.mp h
    have hop := op.scale_bounds
    rw [scale_concat] at hleast hgreatest
    rw [strideProduct_concat, scale_concat]
    exact (ih hops).mul op.isPower_stride (by omega) hleast hgreatest

open Float.Model in
/-- Beyond the range the stride is infinite or zero. -/
theorem strideProduct_of_not_staysInRange {ops : List Op} (h : ¬ StaysInRange ops) :
    (strideProduct ops).toModel.unpack = .infinity .positive ∨
      (strideProduct ops).toModel.unpack = .zero .positive := by
  induction ops using List.reverseRecOn with
  | nil =>
    refine absurd (fun before hbefore => ?_) h
    rw [List.prefix_nil.mp hbefore]
    decide
  | append_singleton ops op ih =>
    have hop := op.isPower_stride
    rw [strideProduct_concat]
    by_cases hops : StaysInRange ops
    · -- The last operation is the one that leaves the range.
      have hpower := isPower_strideProduct hops
      have hleast := hpower.least
      have hbounds := op.scale_bounds
      rw [staysInRange_concat, scale_concat] at h
      by_cases hlarge : 1023 < scale ops + scale [op]
      · exact .inl (hpower.mul_large hop (by omega) hlarge)
      · have hscale : scale ops = -1074 ∧ scale [op] = -1 := by
          have : ¬ -1074 ≤ scale ops + scale [op] := fun hsmall => h ⟨hops, hsmall, by omega⟩
          omega
        rw [hscale.1] at hpower
        rw [hscale.2] at hop
        exact .inr (hpower.mul_half hop)
    · rcases ih hops with hinf | hzero
      · exact .inl (IsPower.infinity_mul hinf hop)
      · exact .inr (IsPower.zero_mul hzero hop)

/-- The stride is one exactly if there are as many strided convolutions as upsamplings and none of
the strides on the way is too large or too small a number. -/
theorem strideProduct_eq_one_iff (ops : List Op) : (strideProduct ops == 1) = true ↔
    ops.countP isStrided = ops.countP isUpsampling ∧ StaysInRange ops := by
  have hone : (1 : Float).toModel.unpack
      = .finite .positive (2 ^ 52) (-52) (Nat.two_pow_pos 52) := rfl
  have hsplit (x : Float) : (x == 1)
      = Float.Model.UnpackedFloat.beq x.toModel.unpack (1 : Float).toModel.unpack := rfl
  by_cases h : StaysInRange ops
  · have hpower := isPower_strideProduct h
    rw [beq_eq_true_iff hpower.unpack, hone]
    simp only [h, and_true, Float.Model.UnpackedFloat.finite.injEq, true_and]
    have hscale : scale ops = 0 ↔ ops.countP isStrided = ops.countP isUpsampling := by
      unfold scale
      omega
    rw [← hscale]
    constructor
    · rintro ⟨hm, he⟩
      have := Nat.pow_right_injective (le_refl 2) hm
      omega
    · intro hzero
      rw [hzero]
      decide
  · have hne : (strideProduct ops == 1) = false := by
      rw [hsplit, hone]
      rcases strideProduct_of_not_staysInRange h with hinf | hzero
      · rw [hinf]
        rfl
      · rw [hzero]
        rfl
    simp [hne, h]

end Op

/-- The stride of a block is one exactly if its operations leave the resolution as it is, and do so
within the range of double precision numbers. -/
theorem BlockSpec.stride_eq_one_iff (spec : BlockSpec) : (spec.stride == 1) = true ↔
    spec.ops.countP Op.isStrided = spec.ops.countP Op.isUpsampling ∧ Op.StaysInRange spec.ops :=
  Op.strideProduct_eq_one_iff spec.ops

/-- A chain with few strided convolutions and upsamplings stays within the range. -/
theorem Op.staysInRange_of_few {ops : List Op} (strided : ops.countP isStrided ≤ 1000)
    (upsampling : ops.countP isUpsampling ≤ 1000) : StaysInRange ops := by
  intro before hbefore
  have hstrided := hbefore.sublist.countP_le (p := isStrided)
  have hupsampling := hbefore.sublist.countP_le (p := isUpsampling)
  unfold scale
  omega

end Midframe
