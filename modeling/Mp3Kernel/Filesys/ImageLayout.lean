import Mp3Kernel.Lib.Layout
import Mp3Kernel.Filesys.Lookup
import Mp3Kernel.Filesys.ReadContents
import Mathlib.Data.List.Nodup

/-!
The file system as it lies in memory: the boot block with the directory, one
block for each inode, and the data blocks behind them. `mounted` is what the
pointers of filesys.c read, and an image that was laid out from a list of files
gives every file back under its name.
-/
namespace Mp3Kernel.ImageLayout
open Mp3Kernel.Memory Mp3Kernel.Layout Mp3Kernel.Filesys Mp3Kernel.ReadContents Mp3Kernel.Lookup

/-! ### What the pointers read -/

/-- The address of an inode, of 4096 bytes behind the boot block, or nothing for
    a null pointer. -/
def inode_addr (m : Mem) (file_sys inode : Nat) : Option Nat :=
  if (load32 m (file_sys + 4)).toNat ≤ inode then none else some (file_sys + 4096 + inode * 4096)

def get_datablocks (m : Mem) (file_sys : Nat) : Nat :=
  (inode_addr m file_sys 0).getD 0 + (load32 m (file_sys + 4)).toNat * 4096

/-- An entry of 64 bytes; the first one lies behind three words and 52 reserved
    bytes. -/
def dentry_addr (file_sys i : Nat) : Nat := file_sys + 64 + i * 64

def dentry_at (m : Mem) (p : Nat) : Dentry where
  file_name := fun j => m (p + j)
  file_type := (load32 m (p + 32)).toNat
  inode_num := (load32 m (p + 36)).toNat

def inode_at (m : Mem) (p : Nat) : Inode where
  len := (load32 m p).toNat
  dblocks := fun j => (load32 m (p + 4 + j * 4)).toNat

/-- The file system that starts at `file_sys`. -/
def mounted (m : Mem) (file_sys : Nat) : FileSys where
  num_dentries := (load32 m file_sys).toNat
  num_inodes := (load32 m (file_sys + 4)).toNat
  num_blocks := (load32 m (file_sys + 8)).toNat
  dentries := fun i => dentry_at m (dentry_addr file_sys i)
  inodes := fun n => inode_at m (file_sys + 4096 + n * 4096)
  data := fun d j => m (get_datablocks m file_sys + d * 4096 + j)

/-! ### An image of some files -/

/-- A file, before it is laid out. -/
structure File where
  name : List Byte
  type : Word
  contents : List Byte

/-- A name filled up with NULs. -/
def padded (name : List Byte) (j : Nat) : Byte := name.getD j 0

/-- The blocks of a file, the last one filled up. -/
def blocksOf (f : File) : Nat := (f.contents.length + 4095) / 4096

def dataOf (f : File) : List Byte := f.contents ++ List.replicate (blocksOf f * 4096 - f.contents.length) 0

/-- The first block of file `k`. -/
def firstBlock (files : List File) (k : Nat) : Nat := offset dataOf files k / 4096

def totalBlocks (files : List File) : Nat := (files.flatMap dataOf).length / 4096

def noFile : File := ⟨[],0,[]⟩

def dentryByte (files : List File) (i j : Nat) : Byte :=
  let f := files.getD i noFile
  if j < 32 then padded f.name j
  else if j < 36 then wordByte f.type (j - 32)
  else if j < 40 then wordByte (BitVec.ofNat 32 i) (j - 36)
  else 0

def bootByte (files : List File) (j : Nat) : Byte :=
  if j < 4 then wordByte (BitVec.ofNat 32 files.length) j
  else if j < 8 then wordByte (BitVec.ofNat 32 files.length) (j - 4)
  else if j < 12 then wordByte (BitVec.ofNat 32 (totalBlocks files)) (j - 8)
  else if j < 64 then 0
  else strided 64 (dentryByte files) (j - 64)

/-- The blocks of a file are consecutive, and the rest of its block list is 0. -/
def blockNumber (files : List File) (k j : Nat) : Nat :=
  if j < blocksOf (files.getD k noFile) then firstBlock files k + j else 0

def inodeByte (files : List File) (k j : Nat) : Byte :=
  if j < 4 then wordByte (BitVec.ofNat 32 (files.getD k noFile).contents.length) j
  else strided 4 (fun b => wordByte (BitVec.ofNat 32 (blockNumber files k b))) (j - 4)

def dataByte (files : List File) (d j : Nat) : Byte := (files.flatMap dataOf).getD (d * 4096 + j) 0

/-- Byte `o` of the image. -/
def imageByte (files : List File) : Nat → Byte :=
  strided 4096 (fun block j =>
    if block = 0 then bootByte files j
    else if block ≤ files.length then inodeByte files (block - 1) j
    else dataByte files (block - 1 - files.length) j)

/-- The files have room in the image, and names that tell them apart. -/
structure Fits (files : List File) : Prop where
  count : files.length ≤ 63
  short : ∀ f ∈ files, f.name.length ≤ 32 ∧ 0 ∉ f.name
  distinct : (files.map File.name).Nodup
  size : ∀ f ∈ files, f.contents.length ≤ 1022 * 4096

/-- Memory holds the image. -/
def Holds (m : Mem) (file_sys : Nat) (files : List File) : Prop :=
  ∀ o, o < 4096 * (1 + files.length + totalBlocks files) → m (file_sys + o) = imageByte files o

/-! ### The parts of the image -/

variable {m : Mem} {file_sys : Nat} {files : List File} {k : Nat}

theorem holds_block (holds : Holds m file_sys files) (block : Nat) {j : Nat} (inside : j < 4096)
    (stored : block < 1 + files.length + totalBlocks files) :
    m (file_sys + (block * 4096 + j)) =
      if block = 0 then bootByte files j
      else if block ≤ files.length then inodeByte files (block - 1) j
      else dataByte files (block - 1 - files.length) j := by
  have below : block * 4096 + j < 4096 * (1 + files.length + totalBlocks files) := by
    have step : (block + 1) * 4096 ≤ (1 + files.length + totalBlocks files) * 4096 := Nat.mul_le_mul_right _ stored
    omega
  rw [holds _ below,imageByte,strided_at _ _ inside]

theorem holds_boot (holds : Holds m file_sys files) {j : Nat} (inside : j < 4096) :
    m (file_sys + j) = bootByte files j := by
  have here := holds_block holds 0 inside (by omega)
  rwa [if_pos rfl,Nat.zero_mul,Nat.zero_add] at here

theorem holds_dentry (holds : Holds m file_sys files) (count : files.length ≤ 63) (inside : k < files.length) {j : Nat}
    (within : j < 64) : m (dentry_addr file_sys k + j) = dentryByte files k j := by
  rw [dentry_addr,show file_sys + 64 + k * 64 + j = file_sys + (64 + (k * 64 + j)) by omega,
    holds_boot holds (by omega),bootByte,if_neg (by omega),if_neg (by omega),if_neg (by omega),if_neg (by omega),
    show 64 + (k * 64 + j) - 64 = k * 64 + j by omega,strided_at _ _ within]

theorem holds_inode (holds : Holds m file_sys files) (inside : k < files.length) {j : Nat} (within : j < 4096) :
    m (file_sys + 4096 + k * 4096 + j) = inodeByte files k j := by
  have here := holds_block holds (k + 1) within (by omega)
  rw [if_neg (by omega),if_pos (by omega),Nat.add_sub_cancel] at here
  rw [← here]
  congr 1
  omega

theorem holds_data (holds : Holds m file_sys files) {d j : Nat} (stored : d < totalBlocks files) (within : j < 4096) :
    m (file_sys + 4096 + files.length * 4096 + d * 4096 + j) = dataByte files d j := by
  have here := holds_block holds (d + 1 + files.length) within (by omega)
  rw [if_neg (by omega),if_neg (by omega),show d + 1 + files.length - 1 - files.length = d by omega] at here
  rw [← here]
  congr 1
  omega

/-- A word of a part of the image. -/
theorem load32_part {base i : Nat} (part : Nat → Byte) {w : Word} (holds : ∀ j, j < 4 → m (base + (i + j)) = part (i + j))
    (bytes : ∀ j, j < 4 → part (i + j) = wordByte w j) : load32 m (base + i) = w := by
  refine load32_wordByte (fun j below => ?_)
  rw [Nat.add_assoc,holds j below,bytes j below]

theorem mounted_counts (holds : Holds m file_sys files) :
    load32 m file_sys = BitVec.ofNat 32 files.length ∧ load32 m (file_sys + 4) = BitVec.ofNat 32 files.length ∧
      load32 m (file_sys + 8) = BitVec.ofNat 32 (totalBlocks files) := by
  refine ⟨?_,?_,?_⟩
  · refine load32_part (i := 0) (bootByte files) (fun j below => holds_boot holds (by omega)) ?_
    intro j below
    rw [bootByte,if_pos (by omega),Nat.zero_add]
  · refine load32_part (bootByte files) (fun j below => holds_boot holds (by omega)) ?_
    intro j below
    rw [bootByte,if_neg (by omega),if_pos (by omega),Nat.add_sub_cancel_left]
  · refine load32_part (bootByte files) (fun j below => holds_boot holds (by omega)) ?_
    intro j below
    rw [bootByte,if_neg (by omega),if_neg (by omega),if_pos (by omega),Nat.add_sub_cancel_left]

theorem mounted_dentry (holds : Holds m file_sys files) (count : files.length ≤ 63) (inside : k < files.length) :
    (∀ j < 32, ((mounted m file_sys).dentries k).file_name j = padded files[k].name j) ∧
      ((mounted m file_sys).dentries k).file_type = files[k].type.toNat ∧
      ((mounted m file_sys).dentries k).inode_num = k := by
  have file : files.getD k noFile = files[k] := (List.getElem_eq_getD noFile).symm
  have bytes {j : Nat} (within : j < 64) := holds_dentry holds count inside within
  refine ⟨?_,?_,?_⟩
  · intro j below
    change m (dentry_addr file_sys k + j) = _
    rw [bytes (by omega),dentryByte,if_pos below,file]
  · have word : load32 m (dentry_addr file_sys k + 32) = files[k].type := by
      refine load32_part (dentryByte files k) (fun j below => bytes (by omega)) ?_
      intro j below
      rw [dentryByte,if_neg (by omega),if_pos (by omega),Nat.add_sub_cancel_left,file]
    exact congrArg BitVec.toNat word
  · have word : load32 m (dentry_addr file_sys k + 36) = BitVec.ofNat 32 k := by
      refine load32_part (dentryByte files k) (fun j below => bytes (by omega)) ?_
      intro j below
      rw [dentryByte,if_neg (by omega),if_neg (by omega),if_pos (by omega),Nat.add_sub_cancel_left]
    have value : (BitVec.ofNat 32 k).toNat = k := by
      rw [BitVec.toNat_ofNat]
      omega
    exact (congrArg BitVec.toNat word).trans value

theorem mounted_inode (holds : Holds m file_sys files) (inside : k < files.length) :
    ((mounted m file_sys).inodes k).len = files[k].contents.length % 4294967296 ∧
      ∀ j < 1023, ((mounted m file_sys).inodes k).dblocks j = blockNumber files k j % 4294967296 := by
  have file : files.getD k noFile = files[k] := (List.getElem_eq_getD noFile).symm
  have bytes {j : Nat} (within : j < 4096) := holds_inode holds inside within
  refine ⟨?_,?_⟩
  · have word : load32 m (file_sys + 4096 + k * 4096 + 0) = BitVec.ofNat 32 files[k].contents.length := by
      refine load32_part (inodeByte files k) (fun j below => bytes (by omega)) ?_
      intro j below
      rw [inodeByte,if_pos (by omega),file,Nat.zero_add]
    exact (congrArg BitVec.toNat word).trans (BitVec.toNat_ofNat ..)
  · intro b below
    have word : load32 m (file_sys + 4096 + k * 4096 + (4 + b * 4)) =
        BitVec.ofNat 32 (blockNumber files k b) := by
      refine load32_part (inodeByte files k) (fun j below => bytes (by omega)) ?_
      intro j within
      rw [inodeByte,if_neg (by omega),show 4 + b * 4 + j - 4 = b * 4 + j by omega,strided_at _ _ within]
    rw [← Nat.add_assoc] at word
    exact (congrArg BitVec.toNat word).trans (BitVec.toNat_ofNat ..)

/-! ### Where the contents lie -/

theorem dataOf_length (f : File) : (dataOf f).length = blocksOf f * 4096 := by
  rw [dataOf,List.length_append,List.length_replicate,blocksOf]
  omega

theorem dataOf_dvd : ∀ f ∈ files, 4096 ∣ (dataOf f).length := by
  intro f _
  rw [dataOf_length]
  exact Nat.dvd_mul_left ..

theorem firstBlock_offset (files : List File) (k : Nat) : firstBlock files k * 4096 = offset dataOf files k :=
  Nat.div_mul_cancel (offset_dvd dataOf_dvd k)

theorem totalBlocks_length (files : List File) : totalBlocks files * 4096 = (files.flatMap dataOf).length :=
  Nat.div_mul_cancel (flatMap_dvd dataOf_dvd)

/-- The blocks of a file lie in the data area. -/
theorem blocks_inside (inside : k < files.length) : firstBlock files k + blocksOf files[k] ≤ totalBlocks files := by
  have last := offset_end (f := dataOf) inside
  rw [← firstBlock_offset,← totalBlocks_length,dataOf_length] at last
  omega

theorem totalBlocks_small (fits : Fits files) : totalBlocks files < 65536 := by
  have short : ∀ f ∈ files, (dataOf f).length ≤ 1022 * 4096 := by
    intro f listed
    have size := fits.size f listed
    rw [dataOf_length,blocksOf]
    omega
  have total := flatMap_length_le short
  rw [← totalBlocks_length] at total
  have count := fits.count
  have few : files.length * (1022 * 4096) ≤ 63 * (1022 * 4096) := Nat.mul_le_mul_right _ count
  omega

theorem data_contents (inside : k < files.length) {i : Nat} (within : i < files[k].contents.length) :
    dataByte files (firstBlock files k + i / 4096) (i % 4096) = files[k].contents[i] := by
  have place : (firstBlock files k + i / 4096) * 4096 + i % 4096 = offset dataOf files k + i := by
    rw [← firstBlock_offset]
    omega
  have stored : i < (dataOf files[k]).length := by
    rw [dataOf,List.length_append]
    omega
  rw [dataByte,place,List.getD_eq_getElem?_getD,flatMap_at inside stored]
  simp only [dataOf]
  rw [List.getElem?_append_left within,List.getElem?_eq_getElem within,Option.getD_some]

/-! ### What the kernel finds -/

/-- The counts are those of the list. -/
theorem mounted_sizes (fits : Fits files) (holds : Holds m file_sys files) :
    (mounted m file_sys).num_dentries = files.length ∧ (mounted m file_sys).num_inodes = files.length ∧
      (mounted m file_sys).num_blocks = totalBlocks files := by
  obtain ⟨dentries,inodes,blocks⟩ := mounted_counts holds
  have count := fits.count
  have total := totalBlocks_small fits
  have small {n : Nat} (below : n < 4294967296) : (BitVec.ofNat 32 n).toNat = n := by
    rw [BitVec.toNat_ofNat]
    omega
  refine ⟨?_,?_,?_⟩
  · exact (congrArg BitVec.toNat dentries).trans (small (by omega))
  · exact (congrArg BitVec.toNat inodes).trans (small (by omega))
  · exact (congrArg BitVec.toNat blocks).trans (small (by omega))

theorem mounted_blocks (fits : Fits files) (holds : Holds m file_sys files) (inside : k < files.length) :
    ((mounted m file_sys).inodes k).len = files[k].contents.length ∧
      (∀ j < blocksOf files[k], ((mounted m file_sys).inodes k).dblocks j = firstBlock files k + j) ∧
      ∀ j < 1023, blocksOf files[k] ≤ j → ((mounted m file_sys).inodes k).dblocks j = 0 := by
  obtain ⟨len,dblocks⟩ := mounted_inode holds inside
  have size := fits.size _ (List.getElem_mem inside)
  have total := totalBlocks_small fits
  have last := blocks_inside inside
  have few : blocksOf files[k] ≤ 1022 := by
    rw [blocksOf]
    omega
  have file : files.getD k noFile = files[k] := (List.getElem_eq_getD noFile).symm
  refine ⟨by omega,?_,?_⟩
  · intro j below
    rw [dblocks j (by omega),blockNumber,file,if_pos below]
    omega
  · intro j low above
    rw [dblocks j low,blockNumber,file,if_neg (by omega)]

theorem mounted_wellFormed (fits : Fits files) (holds : Holds m file_sys files) : WellFormed (mounted m file_sys) where
  blocks := by
    obtain ⟨-,inodes,blocks⟩ := mounted_sizes fits holds
    intro n known j below
    rw [inodes] at known
    obtain ⟨len,dblocks,-⟩ := mounted_blocks fits holds known
    rw [len] at below
    have last := blocks_inside known
    rw [dblocks j below,blocks]
    have here : j < blocksOf files[n] := below
    omega
  size := by
    obtain ⟨-,inodes,-⟩ := mounted_sizes fits holds
    intro n known
    rw [inodes] at known
    rw [(mounted_blocks fits holds known).1]
    exact fits.size _ (List.getElem_mem known)

/-- The bytes of an inode are the contents of its file. -/
theorem mounted_contents (fits : Fits files) (holds : Holds m file_sys files) (inside : k < files.length) {i : Nat}
    (within : i < files[k].contents.length) :
    file_byte (mounted m file_sys) ((mounted m file_sys).inodes k) i = files[k].contents[i] := by
  obtain ⟨-,dblocks,-⟩ := mounted_blocks fits holds inside
  have block : i / 4096 < blocksOf files[k] := by
    rw [blocksOf]
    omega
  have last := blocks_inside inside
  have known : get_datablocks m file_sys = file_sys + 4096 + files.length * 4096 := by
    have inodes : (load32 m (file_sys + 4)).toNat = files.length := (mounted_sizes fits holds).2.1
    rw [get_datablocks,inode_addr,inodes,if_neg (by omega)]
    simp
  rw [file_byte,file_cell]
  simp only [dblocks _ block]
  change m (get_datablocks m file_sys + (firstBlock files k + i / 4096) * 4096 + i % 4096) = _
  rw [known,holds_data holds (by omega) (by omega),data_contents inside within]

theorem padded_past {name : List Byte} {j : Nat} (past : name.length ≤ j) : padded name j = 0 := by
  simp [padded,past]

theorem padded_inside {name : List Byte} {j : Nat} (inside : j < name.length) : padded name j = name[j] := by
  simp [padded,inside]

/-- Names without NULs are told apart by their 32 bytes. -/
theorem padded_injective {a b : List Byte} (shortA : a.length ≤ 32) (shortB : b.length ≤ 32) (plainA : 0 ∉ a)
    (plainB : 0 ∉ b) (same : ∀ j < 32, padded a j = padded b j) : a = b := by
  have shorter {a b : List Byte} (shortA : a.length ≤ 32) (plainA : 0 ∉ a) (same : ∀ j < 32, padded a j = padded b j) :
      a.length ≤ b.length := by
    by_contra longer
    have inside : b.length < a.length := by omega
    have next := same b.length (by omega)
    rw [padded_past (le_refl _),padded_inside inside] at next
    exact plainA (next ▸ List.getElem_mem inside)
  have length := le_antisymm (shorter shortA plainA same) (shorter shortB plainB (fun j below => (same j below).symm))
  refine List.ext_getElem length (fun j left right => ?_)
  have here := same j (by omega)
  rwa [padded_inside left,padded_inside right] at here

/-- The entry of a file is the only one with its name. -/
theorem mounted_named (fits : Fits files) (holds : Holds m file_sys files) (inside : k < files.length) (i : Nat) :
    Named (mounted m file_sys) (padded files[k].name) i ↔ i = k := by
  obtain ⟨dentries,-,-⟩ := mounted_sizes fits holds
  constructor
  · rintro ⟨known,bytes⟩
    rw [dentries] at known
    have names := (mounted_dentry holds fits.count known).1
    have shortI := fits.short _ (List.getElem_mem known)
    have shortK := fits.short _ (List.getElem_mem inside)
    have same : files[i].name = files[k].name :=
      padded_injective shortI.1 shortK.1 shortI.2 shortK.2 (fun j below => (names j below).symm.trans (bytes j below))
    have boundI : i < (files.map File.name).length := by simpa using known
    have boundK : k < (files.map File.name).length := by simpa using inside
    have both : (files.map File.name)[i] = (files.map File.name)[k] := by simpa using same
    exact (List.Nodup.getElem_inj_iff fits.distinct).mp both
  · rintro rfl
    exact ⟨by rw [dentries]; exact inside,fun j below => (mounted_dentry holds fits.count inside).1 j below⟩

/-- A name that no file has is not found. -/
theorem absent_name_fails (fits : Fits files) (holds : Holds m file_sys files) {fname : Nat → Byte} (plain : fname 0 ≠ 46)
    (absent : ∀ f ∈ files, ∃ j < 32, padded f.name j ≠ fname j) (dentry : Dentry) :
    read_dentry_by_name (mounted m file_sys) fname dentry = (-1,dentry) := by
  refine by_name_absent dentry plain ?_
  rintro i ⟨known,bytes⟩
  rw [(mounted_sizes fits holds).1] at known
  obtain ⟨j,below,differs⟩ := absent _ (List.getElem_mem known)
  exact differs (((mounted_dentry holds fits.count known).1 j below).symm.trans (bytes j below))

end Mp3Kernel.ImageLayout
