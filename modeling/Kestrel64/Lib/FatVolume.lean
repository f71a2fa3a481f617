import Mathlib.Data.List.Basic
import Kestrel64.Lib.Fat

/-! # FAT32 Volumes

    The format from the reader's side: the sectors of a disk, the first of which
    says where everything is.

    * The entry of a cluster in the FAT is the next cluster of its chain, or a
      mark from `endMark` on where the chain ends. Numbers from `badMark` on
      stand for no cluster.
    * A file is read along the chain that begins at its first cluster.
-/

namespace Fat

open Bytes (field)

/-- The sectors of a disk; one that is not there is empty. -/
abbrev Disk := Nat → Bytes

def badMark : Nat := 0x0ffffff7
def endMark : Nat := 0x0ffffff8

/-! ## Section 1: The first sector -/

/-- What the first sector says. -/
structure Geometry where
  bytesPerSector : Nat
  secPerClus : Nat
  reserved : Nat
  fats : Nat
  total : Nat
  fatSize : Nat
  root : Nat

namespace Geometry

/-- The first sector of the data area. -/
def dataStart (g : Geometry) : Nat := g.reserved + g.fats * g.fatSize

def clusters (g : Geometry) : Nat := (g.total - g.dataStart) / g.secPerClus

/-- A cluster of the data area. -/
def Valid (g : Geometry) (c : Nat) : Prop := 2 ≤ c ∧ c < g.clusters + 2 ∧ c < badMark

instance (g : Geometry) (c : Nat) : Decidable (g.Valid c) :=
  inferInstanceAs (Decidable (2 ≤ c ∧ c < g.clusters + 2 ∧ c < badMark))

end Geometry

def geometry (d : Disk) : Geometry where
  bytesPerSector := field (d 0) 11 2
  secPerClus := field (d 0) 13 1
  reserved := field (d 0) 14 2
  fats := field (d 0) 16 1
  total := field (d 0) 32 4
  fatSize := field (d 0) 36 4
  root := field (d 0) 44 4

/-- The disk is a FAT32 volume. -/
structure IsVolume (d : Disk) : Prop where
  signature : field (d 0) 510 2 = 0xaa55
  bytesPerSector : (geometry d).bytesPerSector = 512
  secPerClus : ∃ k ≤ 7, (geometry d).secPerClus = 2 ^ k
  reserved : 0 < (geometry d).reserved
  fats : 0 < (geometry d).fats
  /-- The fields that say the same in FAT12 and FAT16, and the version. -/
  zeros : field (d 0) 17 2 = 0 ∧ field (d 0) 19 2 = 0 ∧ field (d 0) 22 2 = 0 ∧ field (d 0) 42 2 = 0
  clusters : 65525 ≤ (geometry d).clusters
  room : ((geometry d).clusters + 2) * 4 ≤ (geometry d).fatSize * 512
  root : (geometry d).Valid (geometry d).root
  sectors : ∀ lba < (geometry d).total, (d lba).length = 512

/-- All copies of the FAT are the same. -/
def SameFats (d : Disk) : Prop :=
  ∀ copy < (geometry d).fats, ∀ s < (geometry d).fatSize,
    d ((geometry d).reserved + copy * (geometry d).fatSize + s) = d ((geometry d).reserved + s)

/-! ## Section 2: Chains -/

/-- The entry of a cluster in the FAT, without the 4 upper bits. -/
def link (d : Disk) (c : Nat) : Nat :=
  field (d ((geometry d).reserved + c * 4 / 512)) (c * 4 % 512) 4 % 2 ^ 28

/-- The clusters from `c` on, up to an end mark. -/
def chain (g : Geometry) (link : Nat → Nat) : Nat → Nat → Option (List Nat)
  | 0, _ => none
  | fuel + 1, c =>
    if g.Valid c then
      if endMark ≤ link c then some [c] else (chain g link fuel (link c)).map (c :: ·)
    else none

/-- The chain that begins at a cluster; it cannot be longer than the volume. -/
def chainOf (d : Disk) (first : Nat) : Option (List Nat) :=
  chain (geometry d) (link d) (geometry d).clusters first

/-- The clusters of a chain are in the data area. -/
theorem chain_valid {g : Geometry} {link : Nat → Nat} {fuel c : Nat} {cs : List Nat}
    (h : chain g link fuel c = some cs) : ∀ x ∈ cs, g.Valid x := by
  induction fuel generalizing c cs with
  | zero => cases h
  | succ fuel ih =>
    rw [chain] at h
    split at h
    · next hc =>
      split at h
      · obtain rfl := Option.some.inj h
        intro x hx
        rwa [List.mem_singleton.mp hx]
      · obtain ⟨cs', hcs, rfl⟩ := Option.map_eq_some_iff.mp h
        intro x hx
        rcases List.mem_cons.mp hx with rfl | hx
        · exact hc
        · exact ih hcs x hx
    · cases h

/-- Clusters that are linked one to the next are a chain. -/
theorem chain_range {g : Geometry} {link : Nat → Nat} {fuel first count : Nat} (hpos : 0 < count)
    (hfuel : count ≤ fuel) (hvalid : ∀ c, first ≤ c → c < first + count → g.Valid c)
    (hnext : ∀ c, first ≤ c → c + 1 < first + count → link c = c + 1)
    (hlast : endMark ≤ link (first + count - 1)) :
    chain g link fuel first = some (List.range' first count) := by
  induction fuel generalizing first count with
  | zero => omega
  | succ fuel ih =>
    rw [chain, if_pos (hvalid first (Nat.le_refl _) (by omega))]
    by_cases hone : count = 1
    · subst hone
      rw [Nat.add_sub_cancel] at hlast
      rw [if_pos hlast]
      rfl
    · obtain ⟨n, rfl⟩ : ∃ n, count = n + 1 := ⟨count - 1, by omega⟩
      have hlink := hnext first (Nat.le_refl _) (by omega)
      have hmark : ¬ endMark ≤ first + 1 := by
        have hin := (hvalid (first + 1) (by omega) (by omega)).2.2
        unfold badMark at hin
        unfold endMark
        omega
      have hrest : chain g link fuel (first + 1) = some (List.range' (first + 1) n) := by
        apply ih (by omega) (by omega)
        · exact fun c hc hlt => hvalid c (by omega) (by omega)
        · exact fun c hc hlt => hnext c (by omega) (by omega)
        · rwa [show first + 1 + n - 1 = first + (n + 1) - 1 by omega]
      rw [hlink, if_neg hmark, hrest]
      rfl

/-! ## Section 3: Files -/

def clusterBytes (d : Disk) (c : Nat) : Bytes :=
  (List.range (geometry d).secPerClus).flatMap fun k =>
    d ((geometry d).dataStart + (c - 2) * (geometry d).secPerClus + k)

def chainBytes (d : Disk) (first : Nat) : Option Bytes :=
  (chainOf d first).map (List.flatMap (clusterBytes d))

/-- The bytes of a file. An empty file has no cluster. -/
def readFile (d : Disk) (first size : Nat) : Option Bytes :=
  if first = 0 then if size = 0 then some [] else none
  else do
    let bytes ← chainBytes d first
    if size ≤ bytes.length then some (bytes.take size) else none

def readDirAt (d : Disk) (first : Nat) : Option (List Rec) := do
  let bytes ← chainBytes d first
  readDir bytes

/-- Pieces of `w` elements, one behind the other. -/
theorem flatMap_range_map {α : Type} (f : Nat → α) (n w : Nat) :
    ((List.range n).flatMap fun k => (List.range w).map fun j => f (k * w + j)) =
      (List.range (n * w)).map f := by
  induction n with
  | zero => simp
  | succ n ih =>
    rw [List.range_succ, List.flatMap_append, ih, List.flatMap_singleton, Nat.succ_mul,
      List.range_add, List.map_append, List.map_map]
    rfl

/-- The bytes of contiguous clusters, byte `i` of which is `f i`. -/
theorem chainBytes_range {d : Disk} {first count : Nat} (f : Nat → Byte)
    (hchain : chainOf d first = some (List.range' first count))
    (hbytes : ∀ i < count, ∀ k < (geometry d).secPerClus,
      d ((geometry d).dataStart + (first + i - 2) * (geometry d).secPerClus + k) =
        (List.range 512).map fun j => f ((i * (geometry d).secPerClus + k) * 512 + j)) :
    chainBytes d first =
      some ((List.range (count * ((geometry d).secPerClus * 512))).map f) := by
  have hcluster : ∀ i ∈ List.range count, clusterBytes d (first + i) =
      (List.range ((geometry d).secPerClus * 512)).map fun j =>
        f (i * ((geometry d).secPerClus * 512) + j) := by
    intro i hi
    rw [clusterBytes, ← flatMap_range_map]
    apply List.flatMap_congr
    intro k hk
    rw [hbytes i (List.mem_range.mp hi) k (List.mem_range.mp hk)]
    apply List.map_congr_left
    intro j _
    rw [Nat.add_mul, Nat.mul_assoc, Nat.add_assoc]
  rw [chainBytes, hchain, Option.map_some, List.range'_eq_map_range, List.flatMap_map,
    ← flatMap_range_map]
  exact congrArg some (List.flatMap_congr hcluster)

end Fat
