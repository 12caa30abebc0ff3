import Tyleros.Alloc.Model
import Mathlib.Data.List.Basic

/-!
# The FAT12 file system

`kernel/filesystem.cpp` and `kernel/filesystem.h`: mounting a floppy, resolving a
path in the root directory and reading a file.

A disk is the sequence of its bytes, and reading sectors copies them. Memory that
was allocated holds arbitrary bytes until it is written; the root directory is
indexed without bound, since the search may run past the entries that were
loaded. The buffer of a file is in the pages that `alloc` maps for it: a write
behind them goes to the bytes that happen to be mapped there, which nothing here
reads, and behind those it faults.
-/

namespace Tyleros.Fat

abbrev Disk := Nat → UInt8

def BYTES_PER_SECTOR : Nat := 512

/-- A little-endian `uint16_t` in memory or on disk. -/
def readU16 (bytes : Nat → UInt8) (pos : Nat) : UInt16 :=
  UInt16.ofNat ((bytes pos).toNat + 256 * (bytes (pos + 1)).toNat)

/-- A little-endian `uint32_t`. -/
def readU32 (bytes : Nat → UInt8) (pos : Nat) : UInt32 :=
  UInt32.ofNat ((readU16 bytes pos).toNat + 65536 * (readU16 bytes (pos + 2)).toNat)

/-- The fields of `bios_parameter_block` that are used. -/
structure Bpb where
  bytesPerSector : UInt16
  sectorsPerCluster : UInt8
  numOfReservedSectors : UInt16
  numOfFats : UInt8
  numOfDirectoryEntries : UInt16
  sectorsPerFat : UInt16
  deriving DecidableEq

/-- `bios_parameter_block` at its offsets in the first sector. -/
def Bpb.ofDisk (disk : Disk) : Bpb where
  bytesPerSector := readU16 disk 11
  sectorsPerCluster := disk 13
  numOfReservedSectors := readU16 disk 14
  numOfFats := disk 16
  numOfDirectoryEntries := readU16 disk 17
  sectorsPerFat := readU16 disk 22

/-- The fields of `directory_entry` that are used; `name` is the 11 bytes of
`short_file_full_name`. -/
structure DirectoryEntry where
  name : List UInt8
  attributes : UInt8
  clusterNumLo : UInt16
  size : UInt32
  deriving DecidableEq

/-- `directory_entry::DIRECTORY`. -/
def DIRECTORY : UInt8 := 0x10

def DirectoryEntry.ofBytes (bytes : Nat → UInt8) (pos : Nat) : DirectoryEntry where
  name := (List.range 11).map fun i => bytes (pos + i)
  attributes := bytes (pos + 11)
  clusterNumLo := readU16 bytes (pos + 26)
  size := readU32 bytes (pos + 28)

/-- `sizeof(directory_entry)`. -/
def DIRECTORY_ENTRY_SIZE : Nat := 32

/-- The variables of `filesystem.cpp` after `init`: the parameter block and the
entries from `root_dir` on. -/
structure FileSystem where
  bpb : Bpb
  rootDir : Nat → DirectoryEntry

/-- `read_boot_param_block()` and `read_root_directory()`; `heap` is what the
memory from `root_dir` on held before. -/
def mount (disk : Disk) (heap : Nat → UInt8) : Except Stop FileSystem := do
  let bpb := Bpb.ofDisk disk
  kassert (bpb.bytesPerSector.toNat == BYTES_PER_SECTOR) "unsupported number of bytes per sector!"
  let fatSectors := bpb.sectorsPerFat.toNat * bpb.numOfFats.toNat
  let rootDirectorySector := bpb.numOfReservedSectors.toNat + fatSectors
  let rootDirectorySize := DIRECTORY_ENTRY_SIZE * bpb.numOfDirectoryEntries.toNat
  let rootDirectorySectorCount := rootDirectorySize / BYTES_PER_SECTOR
  let bytes := fun x => if x < rootDirectorySectorCount * BYTES_PER_SECTOR then
    disk (rootDirectorySector * BYTES_PER_SECTOR + x) else heap x
  return ⟨bpb, fun i => DirectoryEntry.ofBytes bytes (DIRECTORY_ENTRY_SIZE * i)⟩

/-! ## `resolve_path` -/

/-- The character at an offset of a path; the path ends in a null byte. -/
def charAt (path : List UInt8) (i : Nat) : UInt8 := path.getD i 0

/-- `toupper`. -/
def toupper (ch : UInt8) : UInt8 := if 0x61 ≤ ch ∧ ch ≤ 0x7A then ch - 0x20 else ch

/-- `strchr` from an offset of the path on. -/
def strchr (path : List UInt8) (rest : Nat) (ch : UInt8) : Option Nat :=
  (List.range' rest (path.length - rest)).find? fun i => charAt path i == ch

/-- `strncmp(a, b, n) == 0` for two arrays of `n` characters. -/
def strncmpEq : List UInt8 → List UInt8 → Bool
  | a :: as, b :: bs => a == b && (a == 0 || strncmpEq as bs)
  | _, _ => true

/-- Fill the next `count` characters of the fragment, with blanks where `stop`
holds of `rest`. -/
def readChars (path : List UInt8) (stop : Nat → Bool) : Nat → Nat → List UInt8 × Nat
  | 0, rest => ([], rest)
  | count + 1, rest =>
    if stop rest then
      let (chars, rest) := readChars path stop count rest
      (0x20 :: chars, rest)
    else
      let (chars, rest') := readChars path stop count (rest + 1)
      (toupper (charAt path rest) :: chars, rest')

/-- The lambda `read_next_fragment`: the fragment and the new `rest`. -/
def readNextFragment (path : List UInt8) (rest : Nat) : Except Stop (List UInt8 × Nat) := do
  let dirSep := strchr path rest 0x2F
  let fileExtSep := strchr path rest 0x2E
  let stop := dirSep.getD path.length
  let (name, rest) := readChars path (fun r => fileExtSep.any (· ≤ r) || stop ≤ r) 8 rest
  kassert (fileExtSep.all fun sep => charAt path rest == 0x2E && rest == sep)
    "did we skip over the dot?"
  let rest := if fileExtSep.isSome then rest + 1 else rest
  let (extension, rest) := readChars path (fun r => stop ≤ r) 3 rest
  return (name ++ extension, rest)

/-- The loop of `resolve_path`. `directory` is the index of the entry that
`directory` points to. -/
def searchDirectory (fs : FileSystem) (path : List UInt8) :
    Nat → Nat → Nat → List UInt8 → Nat → Except Stop (Option DirectoryEntry)
  | 0, _, _, _, _ => .error .hang
  | fuel + 1, directory, i, fragment, rest =>
    if i < fs.bpb.numOfDirectoryEntries.toNat then
      let entry := fs.rootDir (directory + i)
      if strncmpEq entry.name fragment then
        if charAt path rest == 0 then do
          kassert (entry.attributes &&& DIRECTORY == 0) "file should not be a directory!"
          return some entry
        else do
          kassert (entry.attributes &&& DIRECTORY != 0) "path fragment not directory!"
          let (fragment, rest) ← readNextFragment path rest
          searchDirectory fs path fuel (directory + i) 1 fragment rest
      else searchDirectory fs path fuel directory (i + 1) fragment rest
    else .ok none

/-- `resolve_path(path)` for a path that is not null. Every directory that is
entered lies behind the last one, so a search leaves the address space long before
the fuel is used up. -/
def resolvePath (fs : FileSystem) (path : List UInt8) : Except Stop (Option DirectoryEntry) := do
  kassert (charAt path 0 == 0x2F) "path null or not rooted!"
  let (fragment, rest) ← readNextFragment path 1
  searchDirectory fs path (2 ^ 96) 0 0 fragment rest

/-! ## `read_file` -/

/-- `first_data_sector`. The number of FAT sectors and the size of the root
directory are `uint16_t`. -/
def firstDataSector (bpb : Bpb) : Nat :=
  let numOfFatSectors := bpb.sectorsPerFat.toNat * bpb.numOfFats.toNat % 2 ^ 16
  let sizeOfRootDir := bpb.numOfDirectoryEntries.toNat * DIRECTORY_ENTRY_SIZE % 2 ^ 16
  let numOfRootDirSectors := divCeil sizeOfRootDir BYTES_PER_SECTOR
  bpb.numOfReservedSectors.toNat + numOfFatSectors + numOfRootDirSectors

/-- `next_data_sector`, a `uint16_t`. -/
def nextDataSector (bpb : Bpb) (cluster : Nat) : Nat :=
  ((((cluster : Int) - 2) * bpb.sectorsPerCluster.toNat + firstDataSector bpb) % 2 ^ 16).toNat

/-- The locals of `read_file` and the two sectors of the FAT in `fat`. -/
structure Reader where
  offset : Nat
  cluster : Nat
  loadedFatSector : Nat
  fat : Nat → UInt8
  buffer : Nat → UInt8

/-- `read_floppy_or_fail(dest + offset, sector, count)`. -/
def readFloppy (disk : Disk) (dest : Nat → UInt8) (offset sector count : Nat) : Nat → UInt8 :=
  fun x => if offset ≤ x ∧ x < offset + count * BYTES_PER_SECTOR then
    disk (sector * BYTES_PER_SECTOR + (x - offset)) else dest x

/-- The body of the loop of `read_file`. -/
def Reader.step (bpb : Bpb) (disk : Disk) (r : Reader) : Reader :=
  let fatOffset := r.cluster + r.cluster / 2
  let fatSector := bpb.numOfReservedSectors.toNat + fatOffset / BYTES_PER_SECTOR
  let entryOffset := fatOffset % BYTES_PER_SECTOR
  let fat := if fatSector ≠ r.loadedFatSector then readFloppy disk r.fat 0 fatSector 2 else r.fat
  let fatValue := (readU16 fat entryOffset).toNat
  { offset := r.offset + BYTES_PER_SECTOR
    cluster := if r.cluster % 2 = 1 then fatValue / 16 else fatValue % 0x1000
    loadedFatSector := fatSector
    fat
    buffer := readFloppy disk r.buffer r.offset (nextDataSector bpb r.cluster) 1 }

/-- The mapped bytes from the pointer on that `alloc::array_of<char>(size)` returns:
the pages of the block without its header, and `behind` bytes of the next blocks. -/
def bufferRoom (size behind : Nat) : Nat :=
  Alloc.sizeWithHeader size 1 - Alloc.paddedHeaderSize 1 + behind

/-- The copy of a sector to `buffer + offset`. The buffer of an empty file is null,
where nothing is mapped. -/
def copySector (size behind offset : Nat) : Except Stop Unit :=
  if size = 0 then .error (.fault "write through a null pointer")
  else if bufferRoom size behind < offset + BYTES_PER_SECTOR then .error (.fault "page fault")
  else .ok ()

/-- The loop of `read_file`, for at most `fuel` clusters. -/
def readClusters (bpb : Bpb) (disk : Disk) (size behind : Nat) :
    Nat → Reader → Except Stop Reader
  | 0, r => if r.cluster < 0xFF8 then .error .hang else .ok r
  | fuel + 1, r =>
    if r.cluster < 0xFF8 then do
      copySector size behind r.offset
      readClusters bpb disk size behind fuel (r.step bpb disk)
    else .ok r

/-- The clusters after which the loop has ended or left the mapped bytes. -/
def maxClusters (size behind : Nat) : Nat := bufferRoom size behind / BYTES_PER_SECTOR + 1

/-- `read_file(path)`: the bytes from the returned pointer on, `none` for null.
`fat` and `memory` are what the FAT window and the new buffer held before, `behind`
is the number of bytes that are mapped directly behind its pages. -/
def readFile (fs : FileSystem) (disk : Disk) (fat memory : Nat → UInt8) (behind : Nat)
    (path : List UInt8) : Except Stop (Option (Nat → UInt8)) := do
  match ← resolvePath fs path with
  | none => return none
  | some fileEntry =>
    let size := fileEntry.size.toNat
    let r ← readClusters fs.bpb disk size behind (maxClusters size behind)
      ⟨0, fileEntry.clusterNumLo.toNat, 0, fat, memory⟩
    return if fileEntry.size = 0 then none else some r.buffer

end Tyleros.Fat
