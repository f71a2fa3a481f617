import Kestrel64.Lib.Extents
import Kestrel64.Sd.LongNames

/-! # SD Card: The Virtual Volume

    The rest of `buildVirtual` of `core/sdcard.hpp` and the sectors: the nodes
    of a host directory get their clusters one behind the other, and a sector is
    made up when it is read.

    * A directory of the host is given as `scan` goes through it, sorted. The
      files of the host can be read, and do not change while the card is in use.
    * Node numbers do not reach the end of `int`, for which memory is too small.
    * A write out of bounds is `none`, as in the directories.
-/

namespace Sd

open Patch

def kReserved : Nat := 32
def kMinClusters : Nat := 65525 + 64

/-! ## Section 1: Nodes -/

/-- A directory of the host, entry by entry. `host i` is byte `i` of a file. -/
inductive Listing
  | nil
  | file (name : FileName) (size : Nat) (host : Nat → Byte) (rest : Listing)
  | dir (name : FileName) (sub rest : Listing)

structure Node where
  name : Bytes := []
  dir : Bool := false
  size : Nat := 0
  first : Nat := 0
  count : Nat := 0
  /-- `-1` is `none`. -/
  parent : Option Nat := none
  kids : List Nat := []
  bytes : Bytes := []
  host : Nat → Byte := fun _ => 0

structure Extent where
  first : Nat
  count : Nat
  node : Nat
deriving DecidableEq

/-- `first + count`. -/
def Extent.stop (x : Extent) : Nat := (x.first + x.count) % 2 ^ 32

def node (nodes : List Node) (k : Nat) : Node := nodes.getD k {}

def addKid (nodes : List Node) (idx k : Nat) : List Node :=
  nodes.modify idx fun n => { n with kids := n.kids ++ [k] }

/-- A file of 4 GiB and more does not fit in FAT32 and is left out. -/
def TooLarge (size : Nat) : Prop := 0xffffffff < size

instance (size : Nat) : Decidable (TooLarge size) := Nat.decLt ..

/-- `scan`, for the entries of directory `idx`. -/
def scan (nodes : List Node) (idx : Nat) : Listing → List Node
  | .nil => nodes
  | .file name size host rest =>
    if TooLarge size then scan nodes idx rest
    else
      let k := nodes.length
      let nodes := nodes ++ [{ name := name.bytes, size, host, parent := some idx }]
      scan (addKid nodes idx k) idx rest
  | .dir name sub rest =>
    let k := nodes.length
    let nodes := nodes ++ [{ name := name.bytes, dir := true, parent := some idx }]
    scan (scan (addKid nodes idx k) k sub) idx rest

/-! ## Section 2: Clusters -/

/-- The entries of a node, and its size. -/
def sized (nodes : List Node) (i : Nat) (n : Node) : Option (Nat × List Entry) :=
  if n.dir then do
    let es ← entriesOf (n.kids.map fun k => (node nodes k).name)
    some ((slotCount (i = 0) es + 1) * 32, es)
  else some (n.size, [])

/-- What the loop over the nodes leaves behind. -/
structure Layout where
  nodes : List (Node × List Entry)
  extents : List Extent
  next : Nat

/-- The loop that gives out clusters, from node `i` on. -/
def layoutFrom (all : List Node) : Nat → Nat → List Node → Option Layout
  | _, next, [] => some { nodes := [], extents := [], next }
  | i, next, n :: ns => do
    let (size, es) ← sized all i n
    let count := clusterCount n.dir size
    if count ≠ 0 then do
      let l ← layoutFrom all (i + 1) ((next + count) % 2 ^ 32) ns
      some { l with
        nodes := ({ n with size, count, first := next }, es) :: l.nodes
        extents := { first := next, count, node := i } :: l.extents }
    else do
      let l ← layoutFrom all (i + 1) next ns
      some { l with nodes := ({ n with size, count }, es) :: l.nodes }

/-! ## Section 3: Directories -/

/-- What a directory says about node `k`. -/
def childOf (nodes : List Node) (k : Nat) (e : Entry) : Child :=
  let c := node nodes k
  { entry := e, dir := c.dir, first := c.first, size := c.size }

/-- The clusters of `.` and `..`. -/
def upOf (nodes : List Node) (i : Nat) (n : Node) : Option (Nat × Nat) :=
  if i = 0 then none
  else
    some (n.first,
      match n.parent with
      | none => 0
      | some p => if 0 < p then (node nodes p).first else 0)

/-- The loop that writes the directories, from node `i` on. -/
def fillFrom (all : List Node) : Nat → List (Node × List Entry) → Option (List Node)
  | _, [] => some []
  | i, (n, es) :: ns =>
    if n.dir then do
      let bytes ← dirBytes n.count (upOf all i n) (List.zipWith (childOf all) n.kids es)
      let ns ← fillFrom all (i + 1) ns
      some ({ n with bytes } :: ns)
    else do
      let ns ← fillFrom all (i + 1) ns
      some (n :: ns)

/-! ## Section 4: The card -/

structure SdCard where
  nodes : List Node
  extents : List Extent
  fatSz : Nat
  clusters : Nat
  dataStart : Nat
  total : Nat
  overlay : Nat → Option Bytes

def buildVirtual (tree : Listing) : Option SdCard := do
  let nodes := scan [{ dir := true }] 0 tree
  let l ← layoutFrom nodes 0 2 nodes
  let clusters := max ((l.next + (2 ^ 32 - 2) + 1024) % 2 ^ 32) kMinClusters
  let fatSz := ((clusters + 2) * 4 + 511) % 2 ^ 32 / 512
  let dataStart := (kReserved + 2 * fatSz) % 2 ^ 32
  let nodes ← fillFrom (l.nodes.map Prod.fst) 0 l.nodes
  some {
    nodes, extents := l.extents, fatSz, clusters, dataStart
    total := dataStart + clusters * kSecPerClus
    overlay := fun _ => none }

def SdCard.findExtent (v : SdCard) (clus : Nat) : Option Extent :=
  Extents.find Extent.first Extent.stop v.extents clus

/-! ## Section 5: Sectors -/

def zeros (n : Nat) : Bytes := List.replicate n 0

/-- `KESTREL `, `KESTREL SD ` and `FAT32   `. -/
def oemName : Bytes := [0x4b, 0x45, 0x53, 0x54, 0x52, 0x45, 0x4c, 0x20]
def label : Bytes := [0x4b, 0x45, 0x53, 0x54, 0x52, 0x45, 0x4c, 0x20, 0x53, 0x44, 0x20]
def fsType : Bytes := [0x46, 0x41, 0x54, 0x33, 0x32, 0x20, 0x20, 0x20]

/-- The first sector, field after field, with zeros where nothing is put. -/
def bootParts (v : SdCard) : List Bytes :=
  [[0xeb, 0x58, 0x90], oemName, Bytes.le 2 512, Bytes.le 1 kSecPerClus, Bytes.le 2 kReserved,
    Bytes.le 1 2, Bytes.le 2 0, Bytes.le 2 0, Bytes.le 1 0xf8, Bytes.le 2 0, Bytes.le 2 63,
    Bytes.le 2 255, Bytes.le 4 0, Bytes.le 4 v.total, Bytes.le 4 v.fatSz, Bytes.le 2 0, Bytes.le 2 0,
    Bytes.le 4 2, Bytes.le 2 1, Bytes.le 2 6, zeros 12, [0x80, 0, 0x29], Bytes.le 4 0x4b363453,
    label, fsType, zeros 420, Bytes.le 2 0xaa55]

def fsInfo : Bytes :=
  Bytes.le 4 0x41615252 ++ zeros 480 ++ Bytes.le 4 0x61417272 ++ Bytes.le 4 0xffffffff ++
    Bytes.le 4 0xffffffff ++ zeros 12 ++ Bytes.le 4 0xaa550000

/-- The entry of a cluster in the FAT. -/
def SdCard.fatEntry (v : SdCard) (e : Nat) : Nat :=
  if e = 0 then 0x0ffffff8
  else if e = 1 then 0x0fffffff
  else
    match v.findExtent e with
    | none => 0
    | some x => if e + 1 < x.stop then e + 1 else 0x0fffffff

def SdCard.fatSector (v : SdCard) (s : Nat) : Bytes :=
  (List.range 128).flatMap fun k => Bytes.le 4 (v.fatEntry (s * 128 + k))

/-- The bytes of a node from `off` on. -/
def Node.sector (n : Node) (off : Nat) : Bytes :=
  if n.dir then slice n.bytes off 512
  else if n.size ≤ off then zeros 512
  else
    let got := min 512 (n.size - off)
    ((List.range got).map fun j => n.host (off + j)) ++ zeros (512 - got)

def SdCard.dataSector (v : SdCard) (rel : Nat) : Bytes :=
  let clus := (rel / kSecPerClus + 2) % 2 ^ 32
  match v.findExtent clus with
  | none => zeros 512
  | some x =>
    (node v.nodes x.node).sector ((clus - x.first) * kClus + rel % kSecPerClus * 512)

def SdCard.virtualSector (v : SdCard) (lba : Nat) : Bytes :=
  if lba = 0 ∨ lba = 6 then (bootParts v).flatten
  else if lba = 1 ∨ lba = 7 then fsInfo
  else if lba < kReserved then zeros 512
  else if lba < v.dataStart then v.fatSector ((lba - kReserved) % v.fatSz % 2 ^ 32)
  else v.dataSector (lba - v.dataStart)

/-- `read`; `none` is `false`. -/
def SdCard.read (v : SdCard) (lba : Nat) : Option Bytes :=
  if v.total ≤ lba then none
  else
    match v.overlay lba with
    | some b => some b
    | none => some (v.virtualSector lba)

def SdCard.write (v : SdCard) (lba : Nat) (src : Bytes) : Option SdCard :=
  if v.total ≤ lba then none
  else some { v with overlay := fun i => if i = lba then some src else v.overlay i }

end Sd
