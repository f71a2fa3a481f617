import Kestrel64.Lib.FatVolume
import Kestrel64.Sd.VolumeLayout

/-! # SD Card: Reading the Volume

    What a FAT32 reader finds on the virtual card: the host directory.

    * The first sector, the FATs and the data area are made up apart from each
      other; a reader that follows the one to the other is told of the same
      clusters (`link_eq`, `disk_data`).
    * Every node is one chain (`chain_settled`), and along it are its bytes
      (`chainBytes_settled`).
    * `volume_read` puts the directories and files together.
-/

namespace Sd

open Bytes (field)

/-- The card as a reader sees it. -/
def SdCard.disk (v : SdCard) : Fat.Disk := fun lba => (v.read lba).getD []

/-! ## Section 1: The first sector -/

section Card

variable {tree : Listing} {v : SdCard}

/-- The sizes of a card whose cluster numbers are those of FAT32. -/
structure Sizes (v : SdCard) : Prop where
  clusters : 65589 ≤ v.clusters ∧ v.clusters < 2 ^ 28 + 2 ^ 17
  fatSz : (v.clusters + 2) * 4 ≤ v.fatSz * 512 ∧ v.fatSz < 2 ^ 22
  dataStart : v.dataStart = 32 + 2 * v.fatSz
  total : v.total = v.dataStart + v.clusters * 8

theorem Built.sizes (hv : Built tree v) (halloc : allocation tree < 2 ^ 28) : Sizes v := by
  have hk : kMinClusters = 65589 := rfl
  have hr : kReserved = 32 := rfl
  have hs : kSecPerClus = 8 := rfl
  have hclusters := hv.clusters
  have hfat := hv.fatSz
  have hstart := hv.dataStart
  have htotal := hv.total
  rw [hk] at hclusters
  rw [hr] at hstart
  rw [hs] at htotal
  exact ⟨by omega, by omega, hstart, htotal⟩

theorem Built.disk_eq (hv : Built tree v) {lba : Nat} (h : lba < v.total) :
    v.disk lba = v.virtualSector lba := by
  rw [SdCard.disk, SdCard.read, if_neg (by omega), hv.overlay]
  rfl

theorem disk_boot (hv : Built tree v) (hs : Sizes v) : v.disk 0 = (bootParts v).flatten := by
  have htotal := hs.total
  have hclusters := hs.clusters
  rw [hv.disk_eq (by omega), SdCard.virtualSector, if_pos (.inl rfl)]

theorem length_zeros (n : Nat) : (zeros n).length = n := List.length_replicate

/-- The lengths of the fields of the first sector. -/
def bootLengths : List Nat :=
  [3, 8, 2, 1, 2, 1, 2, 2, 1, 2, 2, 2, 4, 4, 4, 2, 2, 4, 2, 2, 12, 3, 4, 11, 8, 420, 2]

theorem lengths_boot (v : SdCard) : (bootParts v).map List.length = bootLengths := by
  simp only [bootParts, List.map_cons, List.map_nil, Bytes.length_le, length_zeros]
  rfl

/-- A number among the fields of the first sector. -/
theorem boot_field {d : Fat.Disk} {v : SdCard} (hd : d 0 = (bootParts v).flatten) {i off w x : Nat}
    (hi : (bootParts v)[i]? = some (Bytes.le w x))
    (hoff : (bootLengths.take i).sum = off) (hx : x < 256 ^ w) : field (d 0) off w = x := by
  have hsplit : d 0 = [] ++ (bootParts v).flatten ++ [] := by
    rw [hd, List.nil_append, List.append_nil]
  refine Bytes.field_part hsplit hi ?_ hx
  rw [List.length_nil, Nat.zero_add, List.length_flatten, List.map_take, lengths_boot]
  exact hoff

theorem geometry_eq (hv : Built tree v) (hs : Sizes v) : Fat.geometry v.disk =
    { bytesPerSector := 512, secPerClus := 8, reserved := 32, fats := 2, total := v.total,
      fatSize := v.fatSz, root := 2 } := by
  have hd := disk_boot hv hs
  have htotal := hs.total
  have hstart := hs.dataStart
  have hclusters := hs.clusters
  have hfat := hs.fatSz
  have hbytes : field (v.disk 0) 11 2 = 512 := boot_field hd (i := 2) rfl rfl (by decide)
  have hsec : field (v.disk 0) 13 1 = 8 := boot_field hd (i := 3) rfl rfl (by decide)
  have hreserved : field (v.disk 0) 14 2 = 32 := boot_field hd (i := 4) rfl rfl (by decide)
  have hfats : field (v.disk 0) 16 1 = 2 := boot_field hd (i := 5) rfl rfl (by decide)
  have hsectors : field (v.disk 0) 32 4 = v.total := boot_field hd (i := 13) rfl rfl (by omega)
  have hsize : field (v.disk 0) 36 4 = v.fatSz := boot_field hd (i := 14) rfl rfl (by omega)
  have hroot : field (v.disk 0) 44 4 = 2 := boot_field hd (i := 17) rfl rfl (by decide)
  rw [Fat.geometry, hbytes, hsec, hreserved, hfats, hsectors, hsize, hroot]

/-- In numbers, where the data area is. -/
theorem area_eq (hv : Built tree v) (hs : Sizes v) :
    (Fat.geometry v.disk).dataStart = v.dataStart ∧ (Fat.geometry v.disk).clusters = v.clusters := by
  have hstart := hs.dataStart
  have htotal := hs.total
  rw [geometry_eq hv hs]
  unfold Fat.Geometry.clusters Fat.Geometry.dataStart
  dsimp only
  omega

theorem valid_iff (hv : Built tree v) (hs : Sizes v) (c : Nat) :
    (Fat.geometry v.disk).Valid c ↔ 2 ≤ c ∧ c < v.clusters + 2 ∧ c < Fat.badMark := by
  rw [Fat.Geometry.Valid, (area_eq hv hs).2]

/-! ## Section 2: Sectors -/

theorem length_fatSector (v : SdCard) (s : Nat) : (v.fatSector s).length = 512 := by
  rw [SdCard.fatSector, List.length_flatMap]
  simp

theorem disk_fat (hv : Built tree v) (hs : Sizes v) {copy s : Nat} (hcopy : copy < 2)
    (h : s < v.fatSz) : v.disk (32 + copy * v.fatSz + s) = v.fatSector s := by
  have hstart := hs.dataStart
  have htotal := hs.total
  have hfat := hs.fatSz
  have hr : kReserved = 32 := rfl
  have hin : copy * v.fatSz + s < 2 * v.fatSz := by
    rcases (by omega : copy = 0 ∨ copy = 1) with rfl | rfl <;> omega
  have hmod : (32 + copy * v.fatSz + s - 32) % v.fatSz % 2 ^ 32 = s := by
    rw [show 32 + copy * v.fatSz + s - 32 = s + copy * v.fatSz by omega, Nat.add_mul_mod_self_right,
      Nat.mod_eq_of_lt h, Nat.mod_eq_of_lt (by omega)]
  rw [hv.disk_eq (by omega), SdCard.virtualSector, if_neg (by omega), if_neg (by omega), hr,
    if_neg (by omega), if_pos (by omega), hmod]

/-- Both FATs have the entry of a cluster where a reader looks for it. -/
theorem link_eq (hv : Built tree v) (hs : Sizes v) {c : Nat} (hc : c < v.clusters + 2) :
    Fat.link v.disk c = v.fatEntry c % 2 ^ 28 := by
  have hfat := hs.fatSz
  have hsector : v.disk (32 + c * 4 / 512) = v.fatSector (c / 128) := by
    have hzero := disk_fat hv hs Nat.two_pos (show c / 128 < v.fatSz by omega)
    rwa [Nat.zero_mul, Nat.add_zero, show 32 + c / 128 = 32 + c * 4 / 512 by omega] at hzero
  have hentry : v.fatEntry (c / 128 * 128 + c % 128) < 256 ^ 4 := by
    rw [Nat.div_add_mod']
    have hclusters := hs.clusters
    unfold SdCard.fatEntry
    split
    · decide
    · split
      · decide
      · split
        · decide
        · split <;> omega
  have htable := Bytes.field_table (fun k => v.fatEntry (c / 128 * 128 + k))
    (Nat.mod_lt c (by decide : 0 < 128)) hentry
  rw [Fat.link, geometry_eq hv hs]
  dsimp only
  rw [hsector, show c * 4 % 512 = c % 128 * 4 by omega, SdCard.fatSector, htable, Nat.div_add_mod']

theorem disk_data (hv : Built tree v) (hs : Sizes v) {c k : Nat} (hlo : 2 ≤ c)
    (hhi : c < v.clusters + 2) (hk : k < 8) {x : Extent} (hx : v.findExtent c = some x) :
    v.disk (v.dataStart + (c - 2) * 8 + k) =
      (node v.nodes x.node).sector ((c - x.first) * 4096 + k * 512) := by
  have hstart := hs.dataStart
  have htotal := hs.total
  have hclusters := hs.clusters
  have hr : kReserved = 32 := rfl
  have hsc : kSecPerClus = 8 := rfl
  have hkc : kClus = 4096 := rfl
  have hrel : v.dataStart + (c - 2) * 8 + k - v.dataStart = (c - 2) * 8 + k := by omega
  have hclus : (((c - 2) * 8 + k) / 8 + 2) % 2 ^ 32 = c := by omega
  have hsec : ((c - 2) * 8 + k) % 8 = k := by omega
  rw [hv.disk_eq (by omega), SdCard.virtualSector, if_neg (by omega), if_neg (by omega), hr,
    if_neg (by omega), if_neg (by omega), hrel, SdCard.dataSector, hsc, hclus, hx, hsec, hkc]

/-! ## Section 3: Nodes -/

/-- Byte `i` of the clusters of a node. -/
def Node.byteAt (n : Node) (i : Nat) : Byte :=
  if n.dir then n.bytes.getD i 0 else if i < n.size then n.host i else 0

theorem zeros_eq (n : Nat) : zeros n = (List.range n).map fun _ => (0 : Byte) := by
  rw [zeros, List.map_const', List.length_range]

theorem sector_eq {n : Node} {off : Nat} (h : n.dir = true → off + 512 ≤ n.bytes.length) :
    n.sector off = (List.range 512).map fun j => n.byteAt (off + j) := by
  unfold Node.sector Node.byteAt
  cases hdir : n.dir with
  | true =>
    have hroom := h hdir
    simp only [if_true]
    apply List.ext_getElem
    · rw [Patch.length_slice hroom, List.length_map, List.length_range]
    · intro j hj _
      rw [Patch.length_slice hroom] at hj
      have hget : n.bytes.getD (off + j) 0 = n.bytes[off + j] :=
        List.getD_eq_getElem _ _ (by omega)
      simp only [Patch.slice, List.getElem_take, List.getElem_drop, List.getElem_map,
        List.getElem_range, hget]
  | false =>
    simp only [Bool.false_eq_true, if_false]
    by_cases hend : n.size ≤ off
    · rw [if_pos hend, zeros_eq]
      apply List.map_congr_left
      intro j _
      rw [if_neg (by omega)]
    · -- the bytes of the file, and zeros behind its end
      rw [if_neg hend, zeros_eq]
      generalize hgot : min 512 (n.size - off) = got
      have hsplit : List.range 512 = List.range got ++ (List.range (512 - got)).map (got + ·) := by
        rw [← List.range_add, show got + (512 - got) = 512 by omega]
      rw [hsplit, List.map_append, List.map_map]
      apply congrArg₂ (· ++ ·)
      · apply List.map_congr_left
        intro j hj
        rw [List.mem_range] at hj
        rw [if_pos (by omega)]
      · apply List.map_congr_left
        intro j hj
        rw [List.mem_range] at hj
        show _ = if off + (got + j) < n.size then _ else _
        rw [if_neg (by omega)]

/-- A node with clusters has them for itself. -/
theorem extent_settled (hv : Built tree v) {j : Nat} {n m : Node} (h : Settled tree v j n m)
    (hcount : m.count ≠ 0) : 2 ≤ m.first ∧ m.first + m.count ≤ 2 + allocation tree ∧
      ∀ c, m.first ≤ c → c < m.first + m.count →
        v.findExtent c = some { first := m.first, count := m.count, node := j } := by
  obtain ⟨hmem, hlt⟩ := h.extent hcount
  have hstop : Extent.stop ⟨m.first, m.count, j⟩ = m.first + m.count := Nat.mod_eq_of_lt hlt
  obtain ⟨hlo, -, hhi⟩ := hv.packed.mem hmem
  rw [hstop] at hhi
  refine ⟨hlo, hhi, ?_⟩
  intro c hc hend
  rw [← hstop] at hend
  exact Extents.find_mem hv.packed hmem hc hend

/-- The clusters of a node are one chain. -/
theorem chain_settled (hv : Built tree v) (hs : Sizes v) (halloc : allocation tree ≤ 0x0ffffff5)
    {j : Nat} {n m : Node} (h : Settled tree v j n m) (hcount : m.count ≠ 0) :
    Fat.chainOf v.disk m.first = some (List.range' m.first m.count) := by
  obtain ⟨hlo, hhi, hfind⟩ := extent_settled hv h hcount
  have hclusters := hv.clusters
  have hbad : Fat.badMark = 0x0ffffff7 := rfl
  have hend : Fat.endMark = 0x0ffffff8 := rfl
  have hlink : ∀ c, m.first ≤ c → c < m.first + m.count →
      Fat.link v.disk c = if c + 1 < m.first + m.count then c + 1 else 0x0fffffff := by
    intro c hc hlt
    have hstop : Extent.stop ⟨m.first, m.count, j⟩ = m.first + m.count :=
      Nat.mod_eq_of_lt (h.extent hcount).2
    rw [link_eq hv hs (by omega), SdCard.fatEntry, if_neg (by omega), if_neg (by omega),
      hfind c hc hlt]
    dsimp only
    rw [hstop]
    split <;> omega
  rw [Fat.chainOf]
  apply Fat.chain_range (Nat.pos_of_ne_zero hcount)
  · rw [(area_eq hv hs).2]
    omega
  · intro c hc hlt
    rw [valid_iff hv hs, hbad]
    omega
  · intro c hc hlt
    rw [hlink c hc (by omega), if_pos hlt]
  · rw [hlink _ (by omega) (by omega), if_neg (by omega), hend]
    decide

/-- Along the chain of a node are its bytes. -/
theorem chainBytes_settled (hv : Built tree v) (hs : Sizes v) (halloc : allocation tree ≤ 0x0ffffff5)
    {j : Nat} {n m : Node} (hm : v.nodes[j]? = some m) (h : Settled tree v j n m)
    (hcount : m.count ≠ 0) :
    Fat.chainBytes v.disk m.first = some ((List.range (m.count * kClus)).map m.byteAt) := by
  obtain ⟨hlo, hhi, hfind⟩ := extent_settled hv h hcount
  have hclusters := hv.clusters
  have hgeo := geometry_eq hv hs
  have harea := (area_eq hv hs).1
  have hbytes := Fat.chainBytes_range m.byteAt (chain_settled hv hs halloc h hcount)
  rw [harea, hgeo] at hbytes
  dsimp only at hbytes
  apply hbytes
  intro i hi k hk
  have hfound := hfind (m.first + i) (by omega) (by omega)
  have hroom : m.dir = true → (m.first + i - m.first) * 4096 + k * 512 + 512 ≤ m.bytes.length := by
    intro hdir
    have hkc : kClus = 4096 := rfl
    rw [((h.bytes (h.dir.symm.trans hdir)).2), hkc]
    omega
  rw [disk_data hv hs (by omega) (by omega) hk hfound, node_eq hm, sector_eq hroom,
    show (m.first + i - m.first) * 4096 + k * 512 = (i * 8 + k) * 512 by omega]

/-- A file is read back. -/
theorem readFile_settled (hv : Built tree v) (hs : Sizes v) (halloc : allocation tree ≤ 0x0ffffff5)
    {j : Nat} {n m : Node} (hm : v.nodes[j]? = some m) (h : Settled tree v j n m)
    (hfile : n.dir = false) :
    Fat.readFile v.disk m.first m.size = some ((List.range m.size).map n.host) := by
  have hkc : kClus = 4096 := rfl
  have hcount := h.count
  rw [hkc] at hcount
  rw [Fat.readFile]
  by_cases hzero : m.count = 0
  · have hsize : m.size = 0 := by omega
    rw [if_pos (h.first hzero), if_pos hsize, hsize]
    rfl
  · obtain ⟨hlo, -, -⟩ := extent_settled hv h hzero
    have hle : m.size ≤ m.count * kClus := by
      rw [hkc]
      omega
    rw [if_neg (by omega), chainBytes_settled hv hs halloc hm h hzero, Option.bind_eq_bind,
      Option.bind_some, if_pos (by rwa [List.length_map, List.length_range]), ← List.map_take,
      List.take_range, Nat.min_eq_left hle]
    congr 1
    apply List.map_congr_left
    intro i hi
    rw [Node.byteAt, h.dir, hfile, if_neg Bool.false_ne_true, if_pos (List.mem_range.mp hi), h.host]

/-- A directory is read back. -/
theorem readDirAt_settled (hv : Built tree v) (hs : Sizes v) (halloc : allocation tree ≤ 0x0ffffff5)
    {j : Nat} {n m : Node} (hm : v.nodes[j]? = some m) (h : Settled tree v j n m)
    (hdir : n.dir = true) : Fat.readDirAt v.disk m.first = Fat.readDir m.bytes := by
  obtain ⟨hcount, hlen⟩ := h.bytes hdir
  have hbytes : (List.range (m.count * kClus)).map m.byteAt = m.bytes := by
    rw [← hlen]
    apply List.ext_getElem
    · rw [List.length_map, List.length_range]
    · intro i _ hi
      rw [List.getElem_map, List.getElem_range, Node.byteAt, h.dir, hdir, if_pos rfl,
        List.getD_eq_getElem _ _ hi]
  rw [Fat.readDirAt, chainBytes_settled hv hs halloc hm h hcount, hbytes]
  rfl

end Card

/-! ## Section 4: The host directory -/

/-- The record has the name of a file of the host. -/
def Named (name : FileName) (r : Fat.Rec) : Prop :=
  r.long = some (Utf.utf16 name.chars) ∨ r.long = none ∧ plain83 name.bytes = some r.sfn

/-- The records are those of a listing, with everything that is below; `up` is
    what `..` says in the directories. -/
def Shows (d : Fat.Disk) (up : Nat) : Listing → List Fat.Rec → Prop
  | .nil, rs => rs = []
  | .file name size host rest, rs =>
    if TooLarge size then Shows d up rest rs
    else ∃ r rs', rs = r :: rs' ∧ Named name r ∧ r.attr = 0x20 ∧ r.size = size ∧
      Fat.readFile d r.cluster r.size = some ((List.range size).map host) ∧ Shows d up rest rs'
  | .dir name sub rest, rs => ∃ r rs' below, rs = r :: rs' ∧ Named name r ∧ r.attr = 0x10 ∧
      Fat.readDirAt d r.cluster = some (dotRecs (some (r.cluster, up)) ++ below) ∧
      Shows d r.cluster sub below ∧ Shows d up rest rs'

/-- What `..` says in the directories of directory `idx`. -/
def upCluster (v : SdCard) (idx : Nat) : Nat := if 0 < idx then (node v.nodes idx).first else 0

theorem named_record {c : Kid} {e : Entry} (h : Names c.name.bytes e) : Named c.name (c.record e) := by
  rcases h with ⟨hplain, -⟩ | ⟨hplain, -⟩
  · right
    simp [Kid.record, recOf, hplain]
  · left
    simp [Kid.record, recOf, hplain]

section Card

variable {tree : Listing} {v : SdCard}

theorem first_lt {j : Nat} {n m : Node} (h : Settled tree v j n m) : m.first < 2 ^ 32 := by
  by_cases hzero : m.count = 0
  · rw [h.first hzero]
    decide
  · have hlt := (h.extent hzero).2
    omega

theorem shows_listing (hv : Built tree v) (hs : Sizes v) (halloc : allocation tree ≤ 0x0ffffff5)
    (l : Listing) {idx k : Nat} (hpos : 0 < k) (hat : At (allNodes tree) k (l.nodes idx k))
    {es : List Entry}
    (hes : List.Forall₂ Names ((l.children v.nodes k).map fun c => c.name.bytes) es) :
    Shows v.disk (upCluster v idx) l (List.zipWith Kid.record (l.children v.nodes k) es) := by
  induction l generalizing idx k es with
  | nil => rfl
  | file name size host rest ih =>
    rw [Listing.nodes] at hat
    rw [Listing.children] at hes ⊢
    rw [Shows]
    by_cases hlarge : TooLarge size
    · rw [if_pos hlarge] at hat hes ⊢
      rw [if_pos hlarge]
      exact ih hpos hat hes
    · rw [if_neg hlarge] at hat hes ⊢
      rw [if_neg hlarge]
      obtain ⟨m, hm, hset⟩ := hv.nodes k _ hat.head
      have hsize : m.size = size := hset.size rfl
      have hread := readFile_settled hv hs halloc hm hset rfl
      rw [hsize] at hread
      rw [List.map_cons] at hes
      cases hes with
      | @cons _ e _ es hname hes =>
        rw [node_eq hm, hsize] at hname ⊢
        have hmod : size % 2 ^ 32 = size := by
          rw [TooLarge] at hlarge
          exact Nat.mod_eq_of_lt (by omega)
        have hcluster : m.first % 2 ^ 32 = m.first := Nat.mod_eq_of_lt (first_lt hset)
        refine ⟨_, _, List.zipWith_cons_cons .., named_record hname, rfl, hmod, ?_, ?_⟩
        · show Fat.readFile v.disk (m.first % 2 ^ 32) (size % 2 ^ 32) = _
          rw [hcluster, hmod]
          exact hread
        · exact ih (Nat.succ_pos k) hat.tail hes
  | dir name sub rest ihsub ihrest =>
    rw [Listing.nodes] at hat
    rw [Listing.children] at hes ⊢
    rw [Shows]
    have hrest := hat.tail.right (sub.length_nodes k (k + 1))
    obtain ⟨m, hm, hset⟩ := hv.nodes k _ hat.head
    obtain ⟨es', hes', hdirs⟩ := hset.children sub rfl rfl hat.tail.left
    have hread := readDirAt_settled hv hs halloc hm hset rfl
    rw [List.map_cons] at hes
    cases hes with
    | @cons _ e _ es hname hes =>
      rw [node_eq hm] at hname ⊢
      have hcluster : m.first % 2 ^ 32 = m.first := Nat.mod_eq_of_lt (first_lt hset)
      have hup : upOf v.nodes k m = some (m.first, upCluster v idx) := by
        rw [upOf, if_neg (by omega), hset.parent]
        rfl
      have hself : upCluster v k = m.first := by
        rw [upCluster, if_pos hpos, node_eq hm]
      refine ⟨_, _, List.zipWith Kid.record (sub.children v.nodes (k + 1)) es',
        List.zipWith_cons_cons .., named_record hname, rfl, ?_, ?_, ?_⟩
      · show Fat.readDirAt v.disk (m.first % 2 ^ 32) = some (dotRecs (some (m.first % 2 ^ 32, _)) ++ _)
        rw [hcluster, hread, hdirs, hup]
      · show Shows v.disk (m.first % 2 ^ 32) sub _
        rw [hcluster, ← hself]
        exact ihsub (Nat.succ_pos k) hat.tail.left hes'
      · exact ihrest (by omega) hrest hes

/-! ## Section 5: The volume -/

theorem settled_at (hv : Built tree v) {j : Nat} {m : Node} (hm : v.nodes[j]? = some m) :
    ∃ n, (allNodes tree)[j]? = some n ∧ Settled tree v j n m := by
  obtain ⟨hlt, -⟩ := List.getElem?_eq_some_iff.mp hm
  rw [hv.length] at hlt
  obtain ⟨m', hm', hset⟩ := hv.nodes j _ (List.getElem?_eq_getElem hlt)
  obtain rfl := Option.some.inj (hm.symm.trans hm')
  exact ⟨_, List.getElem?_eq_getElem hlt, hset⟩

/-- An extent is that of its node. -/
theorem owner_settled (hv : Built tree v) {x : Extent} (hx : x ∈ v.extents) :
    ∃ n m, v.nodes[x.node]? = some m ∧ Settled tree v x.node n m ∧ m.count ≠ 0 ∧
      m.first = x.first ∧ m.count = x.count ∧ x.stop = x.first + x.count := by
  obtain ⟨m, hm, hcount, hfirst, hsame⟩ := hv.owner x hx
  obtain ⟨n, -, hset⟩ := settled_at hv hm
  have hlt := (hset.extent hcount).2
  refine ⟨n, m, hm, hset, hcount, hfirst, hsame, ?_⟩
  rw [Extent.stop, ← hfirst, ← hsame, Nat.mod_eq_of_lt hlt]

/-- No sector of the data area goes past the bytes of a directory. -/
theorem length_dataSector (hv : Built tree v) (rel : Nat) : (v.dataSector rel).length = 512 := by
  have hkc : kClus = 4096 := rfl
  have hsc : kSecPerClus = 8 := rfl
  unfold SdCard.dataSector
  dsimp only
  split
  · exact length_zeros 512
  · next x hx =>
    rw [hsc] at hx ⊢
    obtain ⟨hmem, hlo, hhi⟩ := Extents.find_some hv.packed hx
    obtain ⟨n, m, hm, hset, -, -, hsame, hstop⟩ := owner_settled hv hmem
    rw [node_eq hm, sector_eq, List.length_map, List.length_range]
    intro hdir
    rw [(hset.bytes (hset.dir.symm.trans hdir)).2, hsame, hkc]
    rw [hstop] at hhi
    omega

theorem isVolume (hv : Built tree v) (hs : Sizes v) : Fat.IsVolume v.disk := by
  have hd := disk_boot hv hs
  have hgeo := geometry_eq hv hs
  have hclusters := (area_eq hv hs).2
  have hbound := hs.clusters
  have hfat := hs.fatSz
  have hbad : Fat.badMark = 0x0ffffff7 := rfl
  have hlen : (bootParts v).flatten.length = 512 := by
    rw [List.length_flatten, lengths_boot]
    rfl
  constructor
  case signature => exact boot_field hd (i := 26) rfl rfl (by decide)
  case bytesPerSector => rw [hgeo]
  case secPerClus => exact ⟨3, by decide, by rw [hgeo]; rfl⟩
  case reserved =>
    rw [hgeo]
    exact Nat.succ_pos 31
  case fats =>
    rw [hgeo]
    exact Nat.two_pos
  case zeros =>
    exact ⟨boot_field hd (i := 6) rfl rfl (by decide), boot_field hd (i := 7) rfl rfl (by decide),
      boot_field hd (i := 9) rfl rfl (by decide), boot_field hd (i := 16) rfl rfl (by decide)⟩
  case clusters =>
    rw [hclusters]
    omega
  case room =>
    rw [hclusters, hgeo]
    exact hfat.1
  case root =>
    rw [valid_iff hv hs, hgeo, hbad]
    dsimp only
    omega
  case sectors =>
    intro lba hlba
    rw [hgeo] at hlba
    rw [hv.disk_eq hlba, SdCard.virtualSector]
    split
    · exact hlen
    · split
      · simp only [fsInfo, List.length_append, Bytes.length_le, length_zeros]
      · split
        · exact length_zeros 512
        · split
          · exact length_fatSector ..
          · exact length_dataSector hv _

/-- The card is a FAT32 volume that shows a host directory: the clusters of every
    node are one chain in the data area, and those of different nodes are
    different. -/
structure Presents (v : SdCard) (tree : Listing) : Prop where
  volume : Fat.IsVolume v.disk
  fats : Fat.SameFats v.disk
  count : ∀ m ∈ v.nodes, m.count = (m.size + 4095) / 4096
  chain : ∀ m ∈ v.nodes, m.count ≠ 0 →
    Fat.chainOf v.disk m.first = some (List.range' m.first m.count)
  inside : ∀ m ∈ v.nodes, m.count ≠ 0 → ∀ c ∈ List.range' m.first m.count,
    2 ≤ c ∧ c < (Fat.geometry v.disk).clusters + 2
  apart : ∀ (i j : Nat) (m m' : Node), v.nodes[i]? = some m → v.nodes[j]? = some m' → i ≠ j →
    ∀ c ∈ List.range' m.first m.count, c ∉ List.range' m'.first m'.count
  shows : ∃ recs, Fat.readDirAt v.disk (Fat.geometry v.disk).root = some recs ∧
    Shows v.disk 0 tree recs

/-- A number is in the extent of one node only. -/
theorem apart_settled (hv : Built tree v) {i j : Nat} {m m' : Node} (hm : v.nodes[i]? = some m)
    (hm' : v.nodes[j]? = some m') {c : Nat} (hc : c ∈ List.range' m.first m.count)
    (hc' : c ∈ List.range' m'.first m'.count) : i = j := by
  rw [List.mem_range'_1] at hc hc'
  obtain ⟨n, -, hset⟩ := settled_at hv hm
  obtain ⟨n', -, hset'⟩ := settled_at hv hm'
  have hfind := (extent_settled hv hset (by omega)).2.2 c hc.1 hc.2
  have hfind' := (extent_settled hv hset' (by omega)).2.2 c hc'.1 hc'.2
  exact congrArg Extent.node (Option.some.inj (hfind.symm.trans hfind'))

theorem presents (hv : Built tree v) (halloc : allocation tree ≤ 0x0ffffff5) : Presents v tree := by
  have hs := hv.sizes (by omega)
  have hgeo := geometry_eq hv hs
  have hmem : ∀ m ∈ v.nodes, ∃ j n, v.nodes[j]? = some m ∧ Settled tree v j n m := by
    intro m hm
    obtain ⟨j, hj⟩ := List.mem_iff_getElem?.mp hm
    obtain ⟨n, -, hset⟩ := settled_at hv hj
    exact ⟨j, n, hj, hset⟩
  have hchain : ∀ m ∈ v.nodes, m.count ≠ 0 →
      Fat.chainOf v.disk m.first = some (List.range' m.first m.count) := by
    intro m hm hcount
    obtain ⟨j, n, -, hset⟩ := hmem m hm
    exact chain_settled hv hs halloc hset hcount
  constructor
  case volume => exact isVolume hv hs
  case fats =>
    intro copy hcopy s hslt
    rw [hgeo] at hcopy hslt ⊢
    have hzero := disk_fat hv hs Nat.two_pos hslt
    rw [Nat.zero_mul, Nat.add_zero] at hzero
    exact (disk_fat hv hs hcopy hslt).trans hzero.symm
  case count =>
    intro m hm
    obtain ⟨j, n, -, hset⟩ := hmem m hm
    exact hset.count
  case chain => exact hchain
  case inside =>
    intro m hm hcount c hc
    have hvalid := Fat.chain_valid (hchain m hm hcount) c hc
    exact ⟨hvalid.1, hvalid.2.1⟩
  case apart =>
    intro i j m m' hm hm' hne c hc hc'
    exact hne (apart_settled hv hm hm' hc hc')
  case shows =>
    -- the root is the first node, at cluster 2
    have hroot : (allNodes tree)[0]? = some { dir := true, kids := tree.kids 1 } := by
      rw [allNodes_eq]
      rfl
    obtain ⟨m, hm, hset⟩ := hv.nodes 0 _ hroot
    obtain ⟨es, hes, hdirs⟩ := hset.children tree rfl rfl (at_tree tree)
    have hread := readDirAt_settled hv hs halloc hm hset rfl
    have hfirst : m.first = 2 := hv.root m hm (hset.bytes rfl).1
    refine ⟨_, ?_, shows_listing hv hs halloc tree Nat.one_pos (at_tree tree) hes⟩
    rw [hgeo, ← hfirst, hread, hdirs]
    rfl

/-- No cluster beyond the last number of FAT32 is on a chain. -/
theorem allocation_le (hv : Built tree v) (h : Presents v tree) : allocation tree ≤ 0x0ffffff5 := by
  by_contra hlarge
  have hin : (2 : Nat) ≤ Fat.badMark ∧ Fat.badMark < 2 + allocation tree := by
    have hbad : Fat.badMark = 0x0ffffff7 := rfl
    omega
  obtain ⟨x, hx, hlo, hhi⟩ := hv.packed.cover hin.1 hin.2
  obtain ⟨n, m, hm, -, hcount, hfirst, hsame, hstop⟩ := owner_settled hv hx
  have hchain := h.chain m (List.mem_of_getElem? hm) hcount
  have hvalid := Fat.chain_valid hchain Fat.badMark (by
    rw [List.mem_range'_1]
    omega)
  exact Nat.lt_irrefl _ hvalid.2.2

end Card

/-- **The virtual volume**: where the aliases fit and the cluster numbers are those
    of FAT32, the card is a FAT32 volume that shows the host directory. -/
theorem volume_read (tree : Listing) (hfit : AliasesFit (allNodes tree))
    (halloc : allocation tree ≤ 0x0ffffff5) :
    ∃ v, buildVirtual tree = some v ∧ Presents v tree := by
  obtain ⟨v, hbuild, hv⟩ := built hfit (by omega)
  exact ⟨v, hbuild, presents hv halloc⟩

/-- The files `A` and `é.txt`, and a directory `A` with an empty file `A`. -/
def smallTree : Listing :=
  .file accentedName 5000 (fun i => BitVec.ofNat 8 i)
    (.dir plainName (.file plainName 0 (fun _ => 0) .nil) .nil)

theorem volume_read_small :
    ∃ v, buildVirtual smallTree = some v ∧ Presents v smallTree := by
  apply volume_read
  · exact aliasesFit_of_narrow (by decide) ⟨by decide, trivial, trivial⟩
  · decide +kernel

/-- A name of two letters. -/
def letters (n : Nat) : FileName where
  chars := [Char.ofNat (0x41 + n / 16 % 16), Char.ofNat (0x41 + n % 16)]
  nonempty := by simp
  noNul := by
    have hall : ∀ i < 16, (Char.ofNat (0x41 + i)).toNat ≠ 0 := by decide
    intro c hc
    rcases List.mem_cons.mp hc with rfl | hc
    · exact hall _ (Nat.mod_lt _ (by decide))
    · rw [List.mem_singleton.mp hc]
      exact hall _ (Nat.mod_lt _ (by decide))
  length := by
    have hall : ∀ i < 16, ∀ j < 16,
        (Utf.utf16 [Char.ofNat (0x41 + i), Char.ofNat (0x41 + j)]).length ≤ 255 := by decide
    exact hall _ (Nat.mod_lt _ (by decide)) _ (Nat.mod_lt _ (by decide))

/-- `n` files and one more; all but the last one are as large as can be. -/
def largeFiles (last : Nat) : Nat → Listing
  | 0 => .file (letters 255) last (fun _ => 0) .nil
  | n + 1 => .file (letters (254 - n)) 0xffffffff (fun _ => 0) (largeFiles last n)

/-- 256 files in 2^28 - 1 clusters. -/
def fullTree : Listing := largeFiles ((2 ^ 20 - 4) * 4096) 255

theorem largeFiles_narrow (last n : Nat) :
    (largeFiles last n).entries = n + 1 ∧ (largeFiles last n).Narrow := by
  induction n with
  | zero => exact ⟨rfl, trivial⟩
  | succ n ih => exact ⟨(congrArg (1 + ·) ih.1).trans (Nat.add_comm 1 _), ih.2⟩

/-- FAT32 has no numbers for 2^28 - 1 clusters. -/
theorem volume_full :
    ¬ ∀ tree, AliasesFit (allNodes tree) → allocation tree < 2 ^ 28 →
      ∃ v, buildVirtual tree = some v ∧ Presents v tree := by
  intro hall
  have hfit : AliasesFit (allNodes fullTree) := by
    obtain ⟨hentries, hnarrow⟩ := largeFiles_narrow ((2 ^ 20 - 4) * 4096) 255
    exact aliasesFit_of_narrow (hentries.trans_lt (by decide)) hnarrow
  have halloc : allocation fullTree = 2 ^ 28 - 1 := by decide +kernel
  have hlt : allocation fullTree < 2 ^ 28 := by
    rw [halloc]
    decide
  obtain ⟨v, hbuild, hpresents⟩ := hall fullTree hfit hlt
  obtain ⟨v', hbuild', hv⟩ := built hfit hlt
  obtain rfl := Option.some.inj (hbuild.symm.trans hbuild')
  have hle := allocation_le hv hpresents
  rw [halloc] at hle
  exact absurd hle (by decide)

end Sd
