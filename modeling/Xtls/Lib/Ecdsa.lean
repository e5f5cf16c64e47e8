import Mathlib.Data.ZMod.Basic
import Mathlib.Tactic.Ring

/-!
# ECDSA over a group of order `n`

Only the scalar part is needed: `r` is some function of the nonce, `s = k⁻¹ (h + r d)` modulo `n`.
Whoever knows the nonce of one signature knows the key.
-/

namespace Xtls

section

variable {n : ℕ}

/-- The signature of hash `h` under key `d` with nonce `k`. -/
def ecdsaSign (rOf : ZMod n → ZMod n) (d h k : ZMod n) : ZMod n × ZMod n :=
  (rOf k, k⁻¹ * (h + rOf k * d))

/-- The key, from one signature and its nonce. -/
def ecdsaKey (h k r s : ZMod n) : ZMod n := (s * k - h) * r⁻¹

theorem ecdsaKey_sign (rOf : ZMod n → ZMod n) (d h k : ZMod n) (hk : IsUnit k)
    (hr : IsUnit (rOf k)) :
    ecdsaKey h k (ecdsaSign rOf d h k).1 (ecdsaSign rOf d h k).2 = d := by
  have hki : k * k⁻¹ = 1 := ZMod.mul_inv_of_unit k hk
  have hri : rOf k * (rOf k)⁻¹ = 1 := ZMod.mul_inv_of_unit _ hr
  calc (k⁻¹ * (h + rOf k * d) * k - h) * (rOf k)⁻¹
      = (k * k⁻¹ * (h + rOf k * d) - h) * (rOf k)⁻¹ := by ring
    _ = (rOf k * (rOf k)⁻¹) * d := by rw [hki]; ring
    _ = d := by rw [hri, one_mul]

end

end Xtls
