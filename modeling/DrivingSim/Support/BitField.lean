import Mathlib.Tactic.SplitIfs

/-!
# Support — fields of a word

A word packs values into fields of `k` bits each.  `place off k v` is the word whose field at `off`
holds the low bits of `v` and which is zero elsewhere; `BitVec.extractLsb'` reads a field.  A field
reads what has been placed in it (`extract_place`), and nothing of what has been placed in a field
beside it (`extract_place_of_disjoint`).
-/

namespace DrivingSim.BitField

variable {n : Nat}

/-- The low `k` bits of a word of `n`. -/
def mask (n k : Nat) : BitVec n := (BitVec.allOnes k).setWidth n

def place (off k : Nat) (v : BitVec n) : BitVec n := (mask n k &&& v) <<< off

theorem getLsbD_mask (n k i : Nat) : (mask n k).getLsbD i = (decide (i < n) && decide (i < k)) := by
  simp [mask]

theorem getLsbD_place (off k : Nat) (v : BitVec n) {i : Nat} (hi : i < n) :
    (place off k v).getLsbD i =
      (decide (off ≤ i) && decide (i < off + k) && v.getLsbD (i - off)) := by
  rw [place, BitVec.getLsbD_shiftLeft, BitVec.getLsbD_and, getLsbD_mask]
  by_cases hoff : off ≤ i
  · have hsub : i - off < n := by omega
    have hlt : i - off < k ↔ i < off + k := by omega
    simp [hi, hoff, hsub, hlt, Nat.not_lt.2 hoff]
  · simp [hoff, Nat.lt_of_not_le hoff]

theorem extract_place {off k : Nat} (h : off + k ≤ n) (v : BitVec n) :
    (place off k v).extractLsb' off k = v.setWidth k := by
  ext i hi
  have hbit : off + i < n := by omega
  rw [BitVec.getElem_extractLsb', getLsbD_place off k v hbit, BitVec.getElem_setWidth]
  simp [hi]

theorem extract_place_of_disjoint {off off' k : Nat} (hdisj : off + k ≤ off' ∨ off' + k ≤ off)
    (h : off' + k ≤ n) (v : BitVec n) : (place off k v).extractLsb' off' k = 0#k := by
  ext i hi
  have hbit : off' + i < n := by omega
  rw [BitVec.getElem_extractLsb', getLsbD_place off k v hbit]
  have hout : ¬ (off ≤ off' + i ∧ off' + i < off + k) := by omega
  simp [← Bool.decide_and, hout]

/-- The complement, within a field. -/
theorem extract_not {off k : Nat} (h : off + k ≤ n) (w : BitVec n) :
    (~~~w).extractLsb' off k = ~~~w.extractLsb' off k := by
  ext i hi
  have hbit : off + i < n := by omega
  simp [hbit]

end DrivingSim.BitField
