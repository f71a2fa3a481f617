import Kestrel64.Archive.InBounds
import Kestrel64.Archive.Unwrap

/-! # Unwrapping Is Safe

    Whatever the bytes, `unwrap` ends without a fault: every offset it takes
    from a header is checked before it is used, and no loop goes on for ever. If
    it fails the data are as before.
-/

namespace Archive.Indexed

open Checked

/-! ## Section 1: Fields and sums -/

theorem rd16_ok {p : Bytes} {pos : Nat} (h : pos + 2 ≤ p.length) :
    rd16 p pos = .ok (Bytes.field p pos 2) := by
  rw [rd16_eq h, rd16_field h]

theorem rd32_ok {p : Bytes} {pos : Nat} (h : pos + 4 ≤ p.length) :
    rd32 p pos = .ok (Bytes.field p pos 4) := by
  have hlow : Bytes.field p pos 2 < 2 ^ 16 := Bytes.field_lt p pos 2
  have hlen : pos + 2 ≤ p.length := by omega
  have hor := Nat.two_pow_add_eq_or_of_lt hlow (Bytes.field p (pos + 2) 2)
  rw [rd32, rd16_ok hlen, ok_bind, rd16_ok (by omega), ok_bind, Nat.shiftLeft_eq, Nat.or_comm,
    Nat.mul_comm, ← hor, Bytes.field_add hlen 2]
  congr 1
  omega

/-- The check sum as the table gives it. -/
def tableCrc (p : Bytes) : BitVec 32 :=
  p.foldl (fun (c : BitVec 32) b => tab.getD ((c ^^^ b.setWidth 32) &&& 0xff).toNat 0 ^^^ (c >>> 8))
    0xFFFFFFFF ^^^ 0xFFFFFFFF

theorem length_tab : tab.length = 256 := by
  simp [tab]

theorem crc32_ok (p : Bytes) : crc32 p = .ok (tableCrc p) := by
  have hstep : ∀ (c : BitVec 32) (b : Byte), True → True →
      (do let t ← read tab ((c ^^^ b.setWidth 32) &&& 0xff).toNat; .ok (t ^^^ (c >>> 8)) :
        Checked (BitVec 32)) =
      .ok (tab.getD ((c ^^^ b.setWidth 32) &&& 0xff).toNat 0 ^^^ (c >>> 8)) ∧ True := by
    intro c b _ _
    have hlow : ((c ^^^ b.setWidth 32) &&& 0xff).toNat < tab.length := by
      rw [length_tab, BitVec.toNat_and]
      exact Nat.lt_succ_of_le Nat.and_le_right
    rw [read_eq hlow 0, ok_bind]
    exact ⟨rfl, trivial⟩
  rw [crc32, (foldlM_eq hstep (fun _ _ => trivial) trivial).1, ok_bind]
  rfl

/-! ## Section 2: gzip -/

/-- A failure leaves the data as they were. -/
def Kept (data : Bytes) (r : Bool × State) : Prop := r.1 = false → r.2.data = data

theorem safe_fail (s : State) (error : String) : Safe (fail s error) (Kept s.data) :=
  .ok fun _ => rfl

theorem safe_done (data : Bytes) (s : State) : Safe (.ok (true, s)) (Kept data) :=
  .ok fun h => Bool.noConfusion h

theorem safe_skipName {p : Bytes} {fuel off : Nat} (hpos : 0 < fuel) (h : p.length < off + fuel) :
    Safe (skipName p fuel off) fun _ => True := by
  induction fuel generalizing off with
  | zero => exact absurd hpos (Nat.lt_irrefl 0)
  | succ fuel ih =>
    rw [skipName]
    split
    · next hin =>
      rw [read_eq hin 0, ok_bind]
      split
      · exact .ok trivial
      · exact ih (by omega) (by omega)
    · exact .ok trivial

theorem safe_skipField (p : Bytes) (flg flag : Byte) (off : Nat) :
    Safe (skipField p flg flag off) fun _ => True := by
  unfold skipField
  split
  · exact safe_skipName (Nat.succ_pos _) (by omega)
  · exact .ok trivial

theorem safe_gzipStart (p : Bytes) (flg : Byte) : Safe (gzipStart p flg) fun _ => True := by
  unfold gzipStart
  split
  · exact .ok trivial
  · next hextra =>
    have hstart : Safe (skipExtra p flg) fun _ => True := by
      unfold skipExtra
      split
      · next hflag =>
        have hlen : 10 + 2 ≤ p.length := by
          by_contra hlt
          exact hextra ⟨hflag, by omega⟩
        rw [rd16_ok hlen, ok_bind]
        exact .ok trivial
      · exact .ok trivial
    refine hstart.bind fun off _ => ?_
    refine (safe_skipField p flg 0x08 off).bind fun off _ => ?_
    refine (safe_skipField p flg 0x10 off).bind fun off _ => ?_
    exact .ok trivial

theorem safe_unwrapGzip (s : State) : Safe (unwrapGzip s) (Kept s.data) := by
  unfold unwrapGzip
  dsimp only
  split
  · exact safe_fail ..
  · next hlen =>
    rw [read_eq (by omega) 0, ok_bind]
    split
    · exact safe_fail ..
    · rw [read_eq (by omega) 0, ok_bind]
      refine .bind (safe_gzipStart ..) fun start _ => ?_
      rcases start with _ | off
      · exact safe_fail ..
      · dsimp only
        split
        · exact safe_fail ..
        · next hoff =>
          rw [minus_eq (by omega), ok_bind, rd32_ok (by omega), ok_bind, minus_eq (by omega), ok_bind,
            range_eq (by omega), ok_bind, inflate_eq, ok_bind]
          split
          · exact safe_fail ..
          · rw [minus_eq (by omega), ok_bind, rd32_ok (by omega), ok_bind, crc32_ok, ok_bind]
            split
            · exact safe_fail ..
            · exact safe_done ..

/-! ## Section 3: zip -/

theorem safe_findEocd {p : Bytes} {floor_ k : Nat} (h : floor_ + k + 22 ≤ p.length) :
    Safe (findEocd p floor_ k) fun eocd => eocd = 0 ∨ eocd + 22 ≤ p.length := by
  induction k with
  | zero =>
    rw [findEocd, rd32_ok (by omega), ok_bind]
    refine .ok ?_
    split
    · exact .inr (by omega)
    · exact .inl rfl
  | succ k ih =>
    rw [findEocd, rd32_ok (by omega), ok_bind]
    split
    · exact .ok (.inr (by omega))
    · exact ih (by omega)

/-- The header of a chosen entry is inside of the file. -/
theorem safe_walkDir {p : Bytes} {count cd : Nat} {best : Best}
    (h : best.off = 0 ∨ best.off + 46 ≤ p.length) :
    Safe (walkDir p count cd best) fun best => best.off = 0 ∨ best.off + 46 ≤ p.length := by
  induction count generalizing cd best with
  | zero => exact .ok h
  | succ count ih =>
    rw [walkDir]
    split
    · exact .ok h
    · next hin =>
      rw [rd32_ok (by omega), ok_bind]
      split
      · exact .ok h
      · rw [rd16_ok (by omega), ok_bind, rd16_ok (by omega), ok_bind, rd16_ok (by omega), ok_bind,
          rd32_ok (by omega), ok_bind]
        split
        · exact .ok h
        · next hname =>
          rw [range_eq (by omega), ok_bind]
          apply ih
          split
          · exact .inr (by dsimp only; omega)
          · exact h

theorem safe_extract (method : Nat) (raw : Bytes) : Safe (extract method raw) fun _ => True := by
  unfold extract
  split
  · exact .ok trivial
  · split
    · rw [inflate_eq]
      exact .ok trivial
    · exact .ok trivial

theorem safe_unwrapEntry {s : State} {best : Best} (h : best.off + 46 ≤ s.data.length) :
    Safe (unwrapEntry s best) (Kept s.data) := by
  unfold unwrapEntry
  dsimp only
  rw [rd16_ok (by omega), ok_bind, rd32_ok (by omega), ok_bind, rd32_ok (by omega), ok_bind,
    rd32_ok (by omega), ok_bind]
  split
  · exact safe_fail ..
  · next hlocal =>
    rw [rd32_ok (by omega), ok_bind]
    split
    · exact safe_fail ..
    · rw [rd16_ok (by omega), ok_bind, rd16_ok (by omega), ok_bind]
      split
      · exact safe_fail ..
      · next hdata =>
        rw [range_eq (by omega), ok_bind]
        refine .bind (safe_extract ..) fun out _ => ?_
        rcases out with e | out
        · exact safe_fail ..
        · dsimp only
          rw [crc32_ok, ok_bind]
          split
          · exact safe_fail ..
          · exact safe_done ..

theorem safe_unwrapZip (s : State) : Safe (unwrapZip s) (Kept s.data) := by
  unfold unwrapZip
  dsimp only
  split
  · exact safe_fail ..
  · next hlen =>
    have hfloor : (if 66000 < s.data.length then s.data.length - 66000 else 0) ≤
        s.data.length - 22 := by
      split <;> omega
    rw [minus_eq (by omega), ok_bind, minus_eq hfloor, ok_bind]
    refine .bind (safe_findEocd (by omega)) fun eocd heocd => ?_
    split
    · exact safe_fail ..
    · next hfound =>
      rw [rd16_ok (by omega), ok_bind, rd32_ok (by omega), ok_bind]
      refine .bind (safe_walkDir (.inl rfl)) fun best hbest => ?_
      split
      · exact safe_fail ..
      · next hoff => exact safe_unwrapEntry (hbest.resolve_left hoff)

/-! ## Section 4: Containers -/

/-- **Safety**: on any bytes, zip, gzip or neither, `unwrap` ends, no index is
    out of range, and a failure leaves the data as they were. -/
theorem unwrap_safe (s : State) :
    ∃ ok s', unwrap s = .ok (ok, s') ∧ (ok = false → s'.data = s.data) := by
  have hsafe : Safe (unwrap s) (Kept s.data) := by
    unfold unwrap
    dsimp only
    split
    · exact safe_done ..
    · next hlen =>
      rw [range_eq (by omega), ok_bind]
      split
      · exact safe_unwrapZip _
      · split
        · exact safe_unwrapGzip _
        · split
          · exact safe_fail ..
          · split
            · exact safe_fail ..
            · exact safe_done ..
  obtain ⟨⟨ok, s'⟩, hok, hkept⟩ := hsafe
  exact ⟨ok, s', hok, hkept⟩

end Archive.Indexed
