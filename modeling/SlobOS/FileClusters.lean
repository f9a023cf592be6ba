import SlobOS.Proof.FileCells

/-!
# Reading along a chain of clusters

A file is read in chunks of the size of a cluster, counted from the offset of the read and not from the
start of the cluster. A chunk that does not start there runs over the end of its cluster, into the one
that follows on the disk.
-/

namespace SlobOS

namespace FatPrivate

section Definitions

variable (fatPrivate : FatPrivate) (disk : Disk)

def clusterPos (cluster : Int) : Int :=
  (fatPrivate.endingSectorPos + (cluster - 2) * fatPrivate.sectorsPerCluster.toNat) *
    slobosSectorSize

def clusterBytes (cluster : Nat) : List UInt8 :=
  disk.bytes (fatPrivate.clusterPos cluster).toNat fatPrivate.sizeOfClusterBytes

def fileContents (chain : List Nat) : List UInt8 := chain.flatMap (fatPrivate.clusterBytes disk)

/-- For every offset that an `int` can hold, the cluster of the chain is found. -/
def FindsChain (chain : List Nat) : Prop :=
  ∀ offset : Nat, offset < chain.length * fatPrivate.sizeOfClusterBytes → offset < 0x80000000 →
    fatPrivate.clusterForOffset disk (chain.headD 0) offset =
      chain.getD (offset / fatPrivate.sizeOfClusterBytes) 0

/-- The read succeeds and stores that part of the file. -/
def ReadsFile (chain : List Nat) (offset total : Nat) : Prop :=
  fatPrivate.fat16ReadInternal disk (chain.headD 0) offset total =
    some (0, ((fatPrivate.fileContents disk chain).drop offset).take total)

def chunkStart (offset i : Nat) : Nat :=
  offset + i / fatPrivate.sizeOfClusterBytes * fatPrivate.sizeOfClusterBytes

def placeInCluster (offset i : Nat) : Nat :=
  offset % fatPrivate.sizeOfClusterBytes + i % fatPrivate.sizeOfClusterBytes

def chunkClusterPos (chain : List Nat) (offset i : Nat) : Int :=
  fatPrivate.clusterPos
    (chain.getD (fatPrivate.chunkStart offset i / fatPrivate.sizeOfClusterBytes) 0)

/-- The offset of the chunk and the positions in its cluster and in the next one can be held in an
`int`. -/
def Addressable (chain : List Nat) (offset i : Nat) : Prop :=
  fatPrivate.chunkStart offset i < 0x80000000 ∧ 0 ≤ fatPrivate.chunkClusterPos chain offset i ∧
    fatPrivate.chunkClusterPos chain offset i + 2 * fatPrivate.sizeOfClusterBytes ≤ 0x80000000

/-- Behind the cluster of a chunk, and at the places that are reached with a position that an `int`
cannot hold, the disk has the bytes of the file. -/
structure OverrunsAgree (chain : List Nat) (offset total : Nat) : Prop where
  overrun : ∀ i < total, fatPrivate.Addressable chain offset i →
    fatPrivate.sizeOfClusterBytes ≤ fatPrivate.placeInCluster offset i →
      disk.byte ((fatPrivate.chunkClusterPos chain offset i).toNat +
        fatPrivate.placeInCluster offset i) =
          (fatPrivate.fileContents disk chain).getD (offset + i) 0
  beyond : ∀ i < total, ¬fatPrivate.Addressable chain offset i →
    disk.cell (fatPrivate.foundCell disk (chain.headD 0) offset i) =
      (fatPrivate.fileContents disk chain).getD (offset + i) 0

end Definitions

section Contents

theorem getElem?_flatMap_of_length {α β : Type} {f : α → List β} {size : Nat} (hpos : 0 < size)
    (hf : ∀ a, (f a).length = size) (as : List α) (i : Nat) :
    (as.flatMap f)[i]? = as[i / size]?.bind fun a => (f a)[i % size]? := by
  induction as generalizing i with
  | nil => rfl
  | cons a as ih =>
      rw [List.flatMap_cons]
      by_cases hi : i < size
      · rw [List.getElem?_append_left (by rw [hf]; exact hi), Nat.div_eq_of_lt hi,
          Nat.mod_eq_of_lt hi]
        rfl
      · rw [List.getElem?_append_right (by rw [hf]; omega), hf, ih, Nat.div_eq i size,
          if_pos ⟨hpos, by omega⟩, List.getElem?_cons_succ, ← Nat.mod_eq_sub_mod (by omega)]

variable {fatPrivate : FatPrivate} {disk : Disk} {chain : List Nat} {k : Nat}

theorem clusterBytes_length (cluster : Nat) :
    (fatPrivate.clusterBytes disk cluster).length = fatPrivate.sizeOfClusterBytes :=
  Disk.bytes_length _ _

theorem fileContents_length : (fatPrivate.fileContents disk chain).length =
    chain.length * fatPrivate.sizeOfClusterBytes := by
  induction chain with
  | nil => rw [fileContents, List.flatMap_nil, List.length_nil, List.length_nil, Nat.zero_mul]
  | cons cluster chain ih =>
      rw [fileContents] at ih ⊢
      rw [List.flatMap_cons, List.length_append, ih, clusterBytes_length, List.length_cons,
        Nat.succ_mul, Nat.add_comm]

theorem fileContents_getD (hk : k < chain.length * fatPrivate.sizeOfClusterBytes) :
    (fatPrivate.fileContents disk chain).getD k 0 =
      disk.byte ((fatPrivate.clusterPos (chain.getD (k / fatPrivate.sizeOfClusterBytes) 0)).toNat +
        k % fatPrivate.sizeOfClusterBytes) := by
  have hpos : 0 < fatPrivate.sizeOfClusterBytes := by
    by_contra hzero
    rw [Nat.eq_zero_of_not_pos hzero, Nat.mul_zero] at hk
    exact absurd hk (Nat.not_lt_zero k)
  have hcluster : k / fatPrivate.sizeOfClusterBytes < chain.length :=
    (Nat.div_lt_iff_lt_mul hpos).mpr hk
  have hmod := Nat.mod_lt k hpos
  rw [List.getD_eq_getElem?_getD, fileContents,
    getElem?_flatMap_of_length hpos clusterBytes_length,
    List.getElem?_eq_getElem hcluster, Option.bind_some, ← List.getD_eq_getElem?_getD,
    clusterBytes, Disk.bytes_getD hmod, List.getD_eq_getElem?_getD, List.getElem?_eq_getElem hcluster]
  rfl

end Contents

/-! ### The bytes that are found -/

section Chunks

variable {fatPrivate : FatPrivate} {disk : Disk} {chain : List Nat} {offset total i : Nat}

theorem chunkOffset_eq (offset i : Nat) :
    fatPrivate.chunkOffset offset i = toInt32 (fatPrivate.chunkStart offset i) := by
  rw [chunkOffset, stepOffset, chunkStart, Int.natCast_add]

theorem chunkStart_le (offset i : Nat) : fatPrivate.chunkStart offset i ≤ offset + i :=
  Nat.add_le_add_left (Nat.div_mul_le_self i _) offset

theorem chunkStart_div_mod (offset i : Nat) :
    fatPrivate.chunkStart offset i % fatPrivate.sizeOfClusterBytes =
        offset % fatPrivate.sizeOfClusterBytes ∧
      offset + i = fatPrivate.chunkStart offset i / fatPrivate.sizeOfClusterBytes *
        fatPrivate.sizeOfClusterBytes + fatPrivate.placeInCluster offset i := by
  have hmod : fatPrivate.chunkStart offset i % fatPrivate.sizeOfClusterBytes =
      offset % fatPrivate.sizeOfClusterBytes := by
    rw [chunkStart, Nat.add_mul_mod_self_right]
  refine ⟨hmod, ?_⟩
  have hstart := Nat.div_add_mod' (fatPrivate.chunkStart offset i) fatPrivate.sizeOfClusterBytes
  have hi := Nat.div_add_mod' i fatPrivate.sizeOfClusterBytes
  rw [hmod] at hstart
  rw [placeInCluster]
  rw [chunkStart] at hstart ⊢
  omega

theorem fat16GetCluster_negative {start offset : Int} (hoffset : offset < 0) :
    fatPrivate.clusterForOffset disk start offset = start := by
  have hahead : (offset.tdiv fatPrivate.sizeOfClusterBytes).toNat = 0 := by
    have hneg := @Int.tdiv_nonneg (-offset) fatPrivate.sizeOfClusterBytes (by omega) (by omega)
    rw [Int.neg_tdiv] at hneg
    omega
  rw [clusterForOffset, clusterFrom, hahead, fat16FollowClusters]

theorem chunkCluster_nonneg (hchain : fatPrivate.FindsChain disk chain) (hi : i < total)
    (hoffset : offset < 0x80000000) (htotal : total < 0x80000000)
    (hend : offset + total ≤ chain.length * fatPrivate.sizeOfClusterBytes) :
    0 ≤ fatPrivate.chunkCluster disk (chain.headD 0) offset i := by
  have hle := fatPrivate.chunkStart_le offset i
  rw [chunkCluster, chunkOffset_eq]
  by_cases hlt : fatPrivate.chunkStart offset i < 0x80000000
  · rw [toInt32_of_range (by omega) (by omega), hchain _ (by omega) hlt]
    omega
  · have hnegative : toInt32 (fatPrivate.chunkStart offset i) < 0 := by
      simp only [toInt32, addressSpace, Int.bmod]
      omega
    rw [fat16GetCluster_negative hnegative]
    omega

/-- Where the positions can be held in an `int`, the byte lies at its place behind the start of the
cluster. -/
theorem foundByte_eq (hpos : 0 < fatPrivate.sizeOfClusterBytes)
    (hchain : fatPrivate.FindsChain disk chain)
    (hstart : fatPrivate.chunkStart offset i < chain.length * fatPrivate.sizeOfClusterBytes)
    (haddressable : fatPrivate.Addressable chain offset i) :
    fatPrivate.foundByte disk (chain.headD 0) offset i =
      disk.byte ((fatPrivate.chunkClusterPos chain offset i).toNat +
        fatPrivate.placeInCluster offset i) := by
  obtain ⟨hint, hnonneg, hlt⟩ := haddressable
  have hmod := Nat.mod_lt offset hpos
  have hi := Nat.mod_lt i hpos
  have hoffset : fatPrivate.chunkOffset offset i = fatPrivate.chunkStart offset i := by
    rw [chunkOffset_eq, toInt32_of_range (by omega) (by omega)]
  have hcluster : fatPrivate.chunkCluster disk (chain.headD 0) offset i =
      chain.getD (fatPrivate.chunkStart offset i / fatPrivate.sizeOfClusterBytes) 0 := by
    rw [chunkCluster, hoffset, hchain _ hstart hint]
  have hposition : fatPrivate.startingPos (fatPrivate.chunkCluster disk (chain.headD 0) offset i)
      (fatPrivate.chunkOffset offset i) =
        ((fatPrivate.chunkClusterPos chain offset i).toNat +
          offset % fatPrivate.sizeOfClusterBytes : Nat) := by
    rw [hcluster, hoffset, startingPos, fat16ClusterToSector,
      Int.tmod_eq_emod_of_nonneg (by omega), ← Int.natCast_emod,
      (fatPrivate.chunkStart_div_mod offset i).1]
    rw [chunkClusterPos, clusterPos] at hnonneg hlt ⊢
    generalize fatPrivate.endingSectorPos + _ = sector at hnonneg hlt ⊢
    rw [slobosSectorSize] at hnonneg hlt ⊢
    rw [@toInt32_of_range sector (by omega) (by omega),
      toInt32_of_range (by omega) (by omega)]
    omega
  rw [foundByte, hposition, (diskstreamerRead_eq (by omega)).1, Disk.bytes_getD hi, placeInCluster,
    Nat.add_assoc]

theorem readsFile_iff_found (hchain : fatPrivate.FindsChain disk chain)
    (hoffset : offset < 0x80000000) (htotal : 0 < total) (hint : total < 0x80000000)
    (hend : offset + total ≤ chain.length * fatPrivate.sizeOfClusterBytes) :
    fatPrivate.ReadsFile disk chain offset total ↔
      ∀ i < total, fatPrivate.foundByte disk (chain.headD 0) offset i =
        (fatPrivate.fileContents disk chain).getD (offset + i) 0 := by
  have hpos : 0 < fatPrivate.sizeOfClusterBytes := by
    by_contra hzero
    rw [Nat.eq_zero_of_not_pos hzero] at hend
    omega
  have hstores := @fat16ReadInternalFromStream_stores fatPrivate disk (chain.headD 0) offset (total + 1)
    total hpos (toInt32_of_range (by omega) (by omega)) htotal (Nat.lt_succ_self total)
  obtain ⟨hres, hlength⟩ := hstores.complete fun i hi =>
    chunkCluster_nonneg hchain hi hoffset hint hend
  rw [ReadsFile, fat16ReadInternal, if_neg (by omega), Int.toNat_natCast]
  generalize fatPrivate.fat16ReadInternalFromStream disk _ _ _ _ = result at hstores hres hlength ⊢
  obtain ⟨res, bytes⟩ := result
  simp only at hres hlength
  subst hres
  have hcontents := @fileContents_length fatPrivate disk chain
  have hbyte : ∀ i < total, bytes[i]? =
      some (fatPrivate.foundByte disk (chain.headD 0) offset i) := by
    intro i hi
    obtain ⟨v, hv⟩ : ∃ v, bytes[i]? = some v :=
      ⟨bytes.get ⟨i, by omega⟩, List.getElem?_eq_getElem (by omega)⟩
    rw [hv, (hstores.sound i v hv).2]
  have hfile : ∀ i < total, (((fatPrivate.fileContents disk chain).drop offset).take total)[i]? =
      some ((fatPrivate.fileContents disk chain).getD (offset + i) 0) := by
    intro i hi
    rw [List.getElem?_take_of_lt hi, List.getElem?_drop, List.getD_eq_getElem?_getD,
      List.getElem?_eq_getElem (by omega)]
    rfl
  constructor
  · intro h i hi
    have hbytes : bytes = ((fatPrivate.fileContents disk chain).drop offset).take total :=
      (Prod.mk.inj (Option.some.inj h)).2
    apply Option.some.inj
    rw [← hbyte i hi, ← hfile i hi, hbytes]
  · intro h
    congr 2
    apply List.ext_getElem?
    intro i
    by_cases hi : i < total
    · rw [hbyte i hi, hfile i hi, h i hi]
    · rw [List.getElem?_eq_none (by omega), List.getElem?_eq_none]
      rw [List.length_take]
      omega

/-- A part of the file is read exactly when the bytes fetched from behind the clusters of the chunks
are those of the file. -/
theorem readsFile_iff (hchain : fatPrivate.FindsChain disk chain)
    (hoffset : offset < 0x80000000) (htotal : 0 < total) (hint : total < 0x80000000)
    (hend : offset + total ≤ chain.length * fatPrivate.sizeOfClusterBytes) :
    fatPrivate.ReadsFile disk chain offset total ↔
      fatPrivate.OverrunsAgree disk chain offset total := by
  have hpos : 0 < fatPrivate.sizeOfClusterBytes := by
    by_contra hzero
    rw [Nat.eq_zero_of_not_pos hzero] at hend
    omega
  have hstart : ∀ i < total, fatPrivate.chunkStart offset i <
      chain.length * fatPrivate.sizeOfClusterBytes := fun i hi => by
    have hle := fatPrivate.chunkStart_le offset i
    omega
  rw [readsFile_iff_found hchain hoffset htotal hint hend]
  constructor
  · intro h
    constructor
    case overrun =>
      intro i hi haddressable _
      rw [← foundByte_eq hpos hchain (hstart i hi) haddressable]
      exact h i hi
    case beyond => exact fun i hi _ => foundByte_cell hpos ▸ h i hi
  · intro h i hi
    by_cases haddressable : fatPrivate.Addressable chain offset i
    · rw [foundByte_eq hpos hchain (hstart i hi) haddressable]
      by_cases hplace : fatPrivate.sizeOfClusterBytes ≤ fatPrivate.placeInCluster offset i
      · exact h.overrun i hi haddressable hplace
      · -- The byte lies in the cluster that its chunk starts in.
        obtain ⟨-, hsum⟩ := fatPrivate.chunkStart_div_mod offset i
        have hlt := Nat.lt_of_not_le hplace
        have hdiv : (offset + i) / fatPrivate.sizeOfClusterBytes =
            fatPrivate.chunkStart offset i / fatPrivate.sizeOfClusterBytes := by
          rw [hsum, Nat.mul_comm, Nat.mul_add_div hpos, Nat.div_eq_of_lt hlt, Nat.add_zero]
        have hmod : (offset + i) % fatPrivate.sizeOfClusterBytes =
            fatPrivate.placeInCluster offset i := by
          rw [hsum, Nat.mul_comm, Nat.mul_add_mod, Nat.mod_eq_of_lt hlt]
        rw [fileContents_getD (by omega), hdiv, hmod, chunkClusterPos]
    · exact (foundByte_cell hpos).trans (h.beyond i hi haddressable)

end Chunks

def smallFatPrivate : FatPrivate where
  sectorsPerCluster := 1
  reservedSectors := 1
  endingSectorPos := 3

def splitDisk : Disk := smallDisk fun lba i => if lba = 4 ∧ i = 0 then 4 else 0

theorem splitDisk_findsChain : smallFatPrivate.FindsChain splitDisk [2, 4] := by
  intro offset hoffset _
  have hsize : smallFatPrivate.sizeOfClusterBytes = 512 := rfl
  have hahead : ((offset : Int).tdiv smallFatPrivate.sizeOfClusterBytes).toNat = offset / 512 := by
    rw [hsize, Int.tdiv_eq_ediv_of_nonneg (by omega), ← Int.natCast_ediv, Int.toNat_natCast]
  have hentry : smallFatPrivate.fat16GetFatEntry splitDisk 2 = 4 := by
    rw [fat16GetFatEntry_eq]
    decide
  rw [clusterForOffset, clusterFrom, hahead, hsize]
  rw [hsize, List.length_cons, List.length_singleton] at hoffset
  have hlink : offset / 512 = 0 ∨ offset / 512 = 1 := by omega
  cases hlink with
  | inl hzero =>
      rw [hzero]
      rfl
  | inr hone =>
      rw [hone, fat16FollowClusters]
      change (let entry := smallFatPrivate.fat16GetFatEntry splitDisk 2; _) = _
      rw [hentry]
      rfl

theorem readsFile_iff_split : smallFatPrivate.ReadsFile splitDisk [2, 4] 0 1024 ↔
    smallFatPrivate.OverrunsAgree splitDisk [2, 4] 0 1024 :=
  readsFile_iff splitDisk_findsChain (by decide) (by decide) (by decide) (by decide)

/-- From the second byte of the file on, the end of the first chunk is read from the wrong cluster. -/
theorem not_readsFile : ¬∀ (fatPrivate : FatPrivate) disk chain offset total,
    fatPrivate.FindsChain disk chain → offset < 0x80000000 → 0 < total → total < 0x80000000 →
      offset + total ≤ chain.length * fatPrivate.sizeOfClusterBytes →
        fatPrivate.ReadsFile disk chain offset total := by
  intro hall
  have hreads := hall _ _ _ 1 512 splitDisk_findsChain (by decide) (by decide) (by decide) (by decide)
  have hfound := (readsFile_iff_found splitDisk_findsChain (by decide) (by decide) (by decide)
    (by decide)).mp hreads 511 (by decide)
  rw [foundByte_eq (by decide) splitDisk_findsChain (by decide) ⟨by decide, by decide⟩,
    fileContents_getD (by decide)] at hfound
  exact absurd hfound (by decide)

end FatPrivate

end SlobOS
