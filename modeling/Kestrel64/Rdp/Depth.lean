import Kestrel64.Lib.Segments

/-! # RDP: The Format of a Depth

    A depth has 18 bits. In memory it has 14, an exponent and 11 bits of a
    mantissa, in segments that get finer towards the far end (`zEncode`,
    `zDecode` of `rdp/rdp.hpp`).

    `lt_zDecode_iff`: to compare a depth with one in memory is to compare
    their codes.
-/

namespace Rdp

open Segments

def zBase : Nat → Nat
  | 0 => 0
  | 1 => 0x20000
  | 2 => 0x30000
  | 3 => 0x38000
  | 4 => 0x3c000
  | 5 => 0x3e000
  | 6 => 0x3f000
  | 7 => 0x3f800
  -- the end of the last segment, which the table does not have
  | _ => 0x40000

def zShift : Nat → Nat
  | 0 => 6
  | 1 => 5
  | 2 => 4
  | 3 => 3
  | 4 => 2
  | 5 => 1
  | _ => 0

/-- `while(e < 7 && z >= zBase[e + 1]) e++` -/
def zExp (z : Nat) : Nat → Nat → Nat
  | 0, e => e
  | fuel + 1, e => if e < 7 ∧ zBase (e + 1) ≤ z then zExp z fuel (e + 1) else e

/-- The word in memory; its low two bits are left to the slope. -/
def zEncode (z : Nat) : Nat :=
  let z := min z 0x3ffff
  let e := zExp z 7 0
  let mant := (z - zBase e) / 2 ^ zShift e
  (e * 0x800 + mant % 0x800) * 4

/-- The 14 bits of a word that are the depth. -/
def zCode (mem : Nat) : Nat := mem / 4 % 0x4000

def zDecode (mem : Nat) : Nat :=
  let com := zCode mem
  let e := com / 0x800 % 8
  com % 0x800 * 2 ^ zShift e + zBase e

/-- The tables have their segments end to end. -/
def zFormat : Format where
  size := 0x800
  count := 8
  base := zBase
  step := fun e => 2 ^ zShift e
  size_pos := by decide
  step_pos := fun e => Nat.two_pow_pos _
  base_succ := by decide

theorem zCode_lt (mem : Nat) : zCode mem < zFormat.count * zFormat.size := Nat.mod_lt _ (by decide)

theorem zDecode_eq (mem : Nat) : zDecode mem = zFormat.decode (zCode mem) := by
  have hseg : zCode mem / 0x800 < 8 := (Nat.div_lt_iff_lt_mul (by decide)).mpr (zCode_lt mem)
  unfold zDecode Format.decode zFormat
  dsimp only
  rw [Nat.mod_eq_of_lt hseg]

/-- The loop ends at the segment of `z`. -/
theorem zExp_in {z fuel e : Nat} (hz : z ≤ 0x3ffff) (he : e + fuel = 7) (hbase : zBase e ≤ z) :
    zFormat.In (zExp z fuel e) z := by
  induction fuel generalizing e with
  | zero =>
    obtain rfl : e = 7 := he
    exact ⟨show 7 < 8 by decide, hbase, Nat.lt_succ_of_le hz⟩
  | succ fuel ih =>
    unfold zExp
    split_ifs with hnext
    · exact ih (by omega) hnext.2
    · refine ⟨show e < 8 by omega, hbase, not_le.mp fun hle => hnext ⟨by omega, hle⟩⟩

theorem zCode_zEncode {z : Nat} (hz : z ≤ 0x3ffff) :
    zCode (zEncode z) = zFormat.encode (zExp z 7 0) z := by
  have hin : zFormat.In (zExp z 7 0) z := zExp_in hz rfl (Nat.zero_le z)
  have hmant := Format.mantissa_lt hin
  have hseg := hin.seg
  unfold zCode zEncode Format.encode
  unfold zFormat at hmant hseg ⊢
  dsimp only at hmant hseg ⊢
  rw [Nat.min_eq_left hz, Nat.mod_eq_of_lt hmant, Nat.mul_div_cancel _ (by decide : 0 < 4),
    Nat.mod_eq_of_lt (by omega)]

/-- **Depths in memory are compared by their codes.** -/
theorem lt_zDecode_iff {z : Nat} (hz : z ≤ 0x3ffff) (mem : Nat) :
    z < zDecode mem ↔ zCode (zEncode z) < zCode mem := by
  rw [zDecode_eq, zCode_zEncode hz]
  exact Format.lt_decode_iff (zCode_lt mem) (zExp_in hz rfl (Nat.zero_le z))

theorem zDecode_eq_max_iff (mem : Nat) : zDecode mem = 0x3ffff ↔ zCode mem = 0x3fff := by
  have hlt := zCode_lt mem
  have hmax : zFormat.decode 0x3fff = 0x3ffff := by decide
  rw [zDecode_eq]
  constructor
  · intro heq
    -- it is beyond the last depth but one
    have hin : zFormat.In 7 0x3fffe := ⟨show 7 < 8 by decide, by decide, by decide⟩
    have hcode : zFormat.encode 7 0x3fffe < zCode mem := by
      rw [← Format.lt_decode_iff hlt hin, heq]
      decide
    change 0x3ffe < zCode mem at hcode
    change zCode mem < 0x4000 at hlt
    omega
  · intro h
    rw [h, hmax]

end Rdp
