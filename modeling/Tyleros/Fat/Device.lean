import Tyleros.Fat.Layout
import Tyleros.Floppy.Transfer

/-!
# The file system on the driver

`fs::init` and `read_file` as they are: every sector comes through `read_floppy`, the DMA
controller and the floppy controller, and a call that does not succeed stops the kernel.

`files_read`: if every call that is made is one that the driver answers right, and all of these
sectors can be read, then whatever pauses the controller makes, the kernel finds what is on the
disk, as `mount` and `readFile` of the model read it, or stops where these stop. If one of the
sectors cannot be read, it stops with the panic of `read_floppy_or_fail`.
-/

namespace Tyleros.Fat.Device

open Lib
open Floppy (ReadCall Bay FloppyStatus carriedSectors)

/-! ## The file system -/

/-- What `read_floppy` returns, and the bytes from `dest` on. -/
def Answer (_ : ReadCall) : Type := FloppyStatus × (Nat → UInt8)

/-- Code that calls `read_floppy`. -/
abbrev Code := Program ReadCall Answer Stop

/-- `read_floppy_or_fail(dest + offset, lba, sector_count)`. -/
def readFloppyOrFail (dest : Nat → UInt8) (offset lba sectorCount : Nat) : Code (Nat → UInt8) := do
  let answer ← Program.ask (⟨dest, offset, lba, sectorCount⟩ : ReadCall)
  if answer.1 = .ok then pure answer.2 else Program.stop (.panic "error reading floppy!")

/-- `read_boot_param_block()`, where `memory` is what the new block holds. -/
def readBootParamBlock (memory : Nat → UInt8) : Code Bpb := do
  let bpb ← readFloppyOrFail memory 0 0 1
  Program.lift (kassert ((Bpb.ofDisk bpb).bytesPerSector.toNat == BYTES_PER_SECTOR)
    "unsupported number of bytes per sector!")
  return Bpb.ofDisk bpb

/-- `read_root_directory()`, where `heap` is what the memory from `root_dir` on holds. -/
def readRootDirectory (bpb : Bpb) (heap : Nat → UInt8) : Code FileSystem := do
  let fatSectors := bpb.sectorsPerFat.toNat * bpb.numOfFats.toNat
  let rootDirectorySector := bpb.numOfReservedSectors.toNat + fatSectors
  let rootDirectorySize := DIRECTORY_ENTRY_SIZE * bpb.numOfDirectoryEntries.toNat
  let rootDirectorySectorCount := rootDirectorySize / BYTES_PER_SECTOR
  let rootDir ← readFloppyOrFail heap 0 rootDirectorySector rootDirectorySectorCount
  return ⟨bpb, fun i => DirectoryEntry.ofBytes rootDir (DIRECTORY_ENTRY_SIZE * i)⟩

/-- `"/KERNEL"`. -/
def KERNEL : List UInt8 := [0x2F, 0x4B, 0x45, 0x52, 0x4E, 0x45, 0x4C]

/-- The end of `fs::init`. -/
def checkKernel (fs : FileSystem) : Except Stop FileSystem := do
  let kernel ← resolvePath fs KERNEL
  kassert kernel.isSome "couldn't get kernel file!"
  return fs

/-- `fs::init()`. -/
def init (memory heap : Nat → UInt8) : Code FileSystem := do
  let bpb ← readBootParamBlock memory
  let fs ← readRootDirectory bpb heap
  Program.lift (checkKernel fs)

/-- The body of the loop of `read_file`. The sector is read, and then copied. -/
def readCluster (bpb : Bpb) (size behind : Nat) (r : Reader) : Code Reader := do
  let fatOffset := r.cluster + r.cluster / 2
  let fatSector := bpb.numOfReservedSectors.toNat + fatOffset / BYTES_PER_SECTOR
  let entryOffset := fatOffset % BYTES_PER_SECTOR
  let fat ← if fatSector ≠ r.loadedFatSector then readFloppyOrFail r.fat 0 fatSector 2
    else pure r.fat
  let buffer ← readFloppyOrFail r.buffer r.offset (nextDataSector bpb r.cluster) 1
  Program.lift (copySector size behind r.offset)
  let fatValue := (readU16 fat entryOffset).toNat
  return {
    offset := r.offset + BYTES_PER_SECTOR
    cluster := if r.cluster % 2 = 1 then fatValue / 16 else fatValue % 0x1000
    loadedFatSector := fatSector
    fat
    buffer }

/-- The loop of `read_file`. -/
def readClusters (bpb : Bpb) (size behind : Nat) : Nat → Reader → Code Reader
  | 0, r => if r.cluster < 0xFF8 then Program.stop .hang else pure r
  | fuel + 1, r =>
    if r.cluster < 0xFF8 then do
      readClusters bpb size behind fuel (← readCluster bpb size behind r)
    else pure r

/-- `read_file(path)`, and what `fat` holds then. -/
def readFile (fs : FileSystem) (fat memory : Nat → UInt8) (behind : Nat) (path : List UInt8) :
    Code (Option (Nat → UInt8) × (Nat → UInt8)) := do
  match ← Program.lift (resolvePath fs path) with
  | none => return (none, fat)
  | some fileEntry =>
    let size := fileEntry.size.toNat
    let r ← readClusters fs.bpb size behind (maxClusters size behind)
      ⟨0, fileEntry.clusterNumLo.toNat, 0, fat, memory⟩
    return (if fileEntry.size = 0 then none else some r.buffer, r.fat)

/-- A call of `read_file`, what the new buffer holds, and the number of bytes that are
mapped directly behind its pages. -/
structure FileCall where
  path : List UInt8
  memory : Nat → UInt8
  behind : Nat

/-- Calls of `read_file`, one after the other. -/
def readFiles (fs : FileSystem) (fat : Nat → UInt8) :
    List FileCall → Code (List (Option (Nat → UInt8)))
  | [] => pure []
  | call :: rest => do
    let (file, fat) ← readFile fs fat call.memory call.behind call.path
    return file :: (← readFiles fs fat rest)

/-- `fs::init()` and the calls that follow. -/
def session (memory heap fat : Nat → UInt8) (calls : List FileCall) :
    Code (FileSystem × List (Option (Nat → UInt8))) := do
  let fs ← init memory heap
  return (fs, ← readFiles fs fat calls)

/-! ## Three kinds of surroundings -/

/-- The disk, every sector of which can be read. -/
def onDisk (call : ReadCall) (bay : Bay) : Answer call × Bay :=
  ((.ok, readFloppy bay.disk call.dest call.offset call.lba call.sectorCount), bay)

/-- The drive, as the driver shows it. -/
def onBay (call : ReadCall) (bay : Bay) : Answer call × Bay :=
  if bay.status call.lba call.sectorCount = .ok then onDisk call bay
  else ((bay.status call.lba call.sectorCount, call.dest), bay)

/-- The driver, and the controller behind it. -/
def onDriver (fuel : Nat) (b : Dma.Buffer) (driveNumber : UInt8) (call : ReadCall)
    (m : Floppy.Machine Bay) : Except Stop (Answer call × Floppy.Machine Bay) :=
  Floppy.readFloppy fuel b driveNumber call.dest call.offset call.lba call.sectorCount m

/-- The calls that are made. -/
def asked {α : Type} (code : Code α) (bay : Bay) : List ReadCall :=
  (code.trace onBay bay).map Sigma.fst

/-- The driver answers the call right: at least as many sectors are transferred as are wanted. -/
structure Answerable (call : ReadCall) (b : Dma.Buffer) : Prop where
  legal : call.Legal b
  covers : call.sectorCount ≤ carriedSectors call.sectorCount

/-- All sectors can be read. -/
def Readable (bay : Bay) (calls : List ReadCall) : Prop :=
  ∀ call ∈ calls, bay.status call.lba call.sectorCount = .ok

/-- The result is what is on the disk, or why one of the parts does not return there. -/
inductive Reads (disk : Disk) (heap : Nat → UInt8) (calls : List FileCall) :
    Except Stop (FileSystem × List (Option (Nat → UInt8))) → Prop where
  | files {fs : FileSystem} {files : List (Option (Nat → UInt8))}
      (start : (mount disk heap >>= checkKernel) = .ok fs)
      (each : List.Forall₂ (fun call file => ∃ fat,
        Fat.readFile fs disk fat call.memory call.behind call.path = .ok file) calls files) :
      Reads disk heap calls (.ok (fs, files))
  | init {e : Stop} (stops : (mount disk heap >>= checkKernel) = .error e) :
      Reads disk heap calls (.error e)
  | file {fs : FileSystem} {call : FileCall} {fat : Nat → UInt8} {e : Stop}
      (start : (mount disk heap >>= checkKernel) = .ok fs) (made : call ∈ calls)
      (stops : Fat.readFile fs disk fat call.memory call.behind call.path = .error e) :
      Reads disk heap calls (.error e)

/-! ## On the disk -/

section Disk

variable {bay : Bay}

theorem run_readFloppyOrFail (dest : Nat → UInt8) (offset lba sectorCount : Nat) :
    (readFloppyOrFail dest offset lba sectorCount).run onDisk bay =
      .ok (readFloppy bay.disk dest offset lba sectorCount, bay) := rfl

/-- The fields of the parameter block are in the first sector. -/
theorem ofDisk_readFloppy (disk : Disk) (memory : Nat → UInt8) :
    Bpb.ofDisk (readFloppy disk memory 0 0 1) = Bpb.ofDisk disk := by
  have same : ∀ x, x < BYTES_PER_SECTOR → readFloppy disk memory 0 0 1 x = disk x := by
    intro x inside
    unfold readFloppy
    rw [if_pos ⟨Nat.zero_le x, by omega⟩, Nat.zero_mul, Nat.zero_add, Nat.sub_zero]
  unfold Bpb.ofDisk readU16
  rw [same 11 (by decide), same 12 (by decide), same 13 (by decide), same 14 (by decide),
    same 15 (by decide), same 16 (by decide), same 17 (by decide), same 18 (by decide),
    same 22 (by decide), same 23 (by decide)]

theorem run_lift {α : Type} (x : Except Stop α) :
    (Program.lift x : Code α).run onDisk bay = x.map fun a => (a, bay) := by
  cases x <;> rfl

theorem run_readBootParamBlock (memory : Nat → UInt8) :
    (readBootParamBlock memory).run onDisk bay =
      (kassert ((Bpb.ofDisk bay.disk).bytesPerSector.toNat == BYTES_PER_SECTOR)
        "unsupported number of bytes per sector!").map fun _ => (Bpb.ofDisk bay.disk, bay) := by
  unfold readBootParamBlock
  rw [Program.run_bind_of_ok onDisk (run_readFloppyOrFail memory 0 0 1), Program.run_bind, run_lift,
    ofDisk_readFloppy]
  cases kassert ((Bpb.ofDisk bay.disk).bytesPerSector.toNat == BYTES_PER_SECTOR)
    "unsupported number of bytes per sector!" <;> rfl

/-- What the memory from `root_dir` on holds when the directory is loaded. -/
theorem run_readRootDirectory (bpb : Bpb) (heap : Nat → UInt8) :
    (readRootDirectory bpb heap).run onDisk bay =
      .ok (⟨bpb, fun i => DirectoryEntry.ofBytes (fun x =>
        if x < rootDirectorySectorCount bpb * BYTES_PER_SECTOR then
          bay.disk (rootDirectorySector bpb * BYTES_PER_SECTOR + x) else heap x)
            (DIRECTORY_ENTRY_SIZE * i)⟩, bay) := by
  have loaded :
      readFloppy bay.disk heap 0 (rootDirectorySector bpb) (rootDirectorySectorCount bpb) =
        fun x => if x < rootDirectorySectorCount bpb * BYTES_PER_SECTOR then
        bay.disk (rootDirectorySector bpb * BYTES_PER_SECTOR + x) else heap x := by
    funext x
    unfold readFloppy
    rw [Nat.sub_zero, Nat.zero_add]
    exact if_congr (and_iff_right (Nat.zero_le x)) rfl rfl
  rw [← loaded]
  rfl

theorem run_init (memory heap : Nat → UInt8) :
    (init memory heap).run onDisk bay =
      (mount bay.disk heap >>= checkKernel).map fun fs => (fs, bay) := by
  unfold init mount
  rw [Program.run_bind, run_readBootParamBlock]
  dsimp only
  cases kassert ((Bpb.ofDisk bay.disk).bytesPerSector.toNat == BYTES_PER_SECTOR)
      "unsupported number of bytes per sector!" with
  | error e => rfl
  | ok _ =>
      show ((readRootDirectory (Bpb.ofDisk bay.disk) heap >>= fun fs =>
        Program.lift (checkKernel fs)).run onDisk bay) = _
      rw [Program.run_bind_of_ok onDisk (run_readRootDirectory _ heap), run_lift]
      rfl

/-- The body of the loop, if the copy does not fault. -/
theorem run_readCluster (bpb : Bpb) (size behind : Nat) (r : Reader) :
    (readCluster bpb size behind r).run onDisk bay =
      (copySector size behind r.offset).map fun _ => (r.step bpb bay.disk, bay) := by
  unfold readCluster Reader.step
  dsimp only
  by_cases other : bpb.numOfReservedSectors.toNat + (r.cluster + r.cluster / 2) / BYTES_PER_SECTOR ≠
      r.loadedFatSector
  · rw [if_pos other, if_pos other, Program.run_bind_of_ok onDisk (run_readFloppyOrFail ..),
      Program.run_bind_of_ok onDisk (run_readFloppyOrFail ..), Program.run_bind, run_lift]
    cases copySector size behind r.offset <;> rfl
  · rw [if_neg other, if_neg other, Program.run_bind_of_ok onDisk (Program.run_pure ..),
      Program.run_bind_of_ok onDisk (run_readFloppyOrFail ..), Program.run_bind, run_lift]
    cases copySector size behind r.offset <;> rfl

theorem run_readClusters (bpb : Bpb) (size behind fuel : Nat) (r : Reader) :
    (readClusters bpb size behind fuel r).run onDisk bay =
      (Fat.readClusters bpb bay.disk size behind fuel r).map fun r => (r, bay) := by
  induction fuel generalizing r with
  | zero =>
      unfold readClusters Fat.readClusters
      split <;> rfl
  | succ fuel ih =>
      unfold readClusters Fat.readClusters
      split
      · rw [Program.run_bind, run_readCluster]
        cases copySector size behind r.offset with
        | error e => rfl
        | ok copied => exact ih _
      · rfl

theorem readFile_found {fs : FileSystem} {path : List UInt8} {fileEntry : DirectoryEntry}
    (fat memory : Nat → UInt8) (behind : Nat)
    (found : resolvePath fs path = .ok (some fileEntry)) :
    readFile fs fat memory behind path =
      readClusters fs.bpb fileEntry.size.toNat behind (maxClusters fileEntry.size.toNat behind)
        ⟨0, fileEntry.clusterNumLo.toNat, 0, fat, memory⟩ >>= fun r =>
          pure (if fileEntry.size = 0 then none else some r.buffer, r.fat) := by
  unfold readFile
  rw [found, Program.lift_ok_bind]

/-- The file, without what `fat` holds then. -/
theorem run_readFile (bay : Bay) (fs : FileSystem) (fat memory : Nat → UInt8) (behind : Nat)
    (path : List UInt8) :
    (∃ file fat', (readFile fs fat memory behind path).run onDisk bay = .ok ((file, fat'), bay) ∧
        Fat.readFile fs bay.disk fat memory behind path = .ok file) ∨
      ∃ e, (readFile fs fat memory behind path).run onDisk bay = .error e ∧
        Fat.readFile fs bay.disk fat memory behind path = .error e := by
  cases resolved : resolvePath fs path with
  | error e =>
      unfold readFile Fat.readFile
      rw [resolved]
      exact Or.inr ⟨e, rfl, rfl⟩
  | ok found =>
      cases found with
      | none =>
          unfold readFile Fat.readFile
          rw [resolved]
          exact Or.inl ⟨none, fat, rfl, rfl⟩
      | some fileEntry =>
          rw [readFile_found fat memory behind resolved, Program.run_bind, run_readClusters]
          unfold Fat.readFile
          rw [resolved, ok_bind]
          dsimp only
          cases Fat.readClusters fs.bpb bay.disk fileEntry.size.toNat behind
              (maxClusters fileEntry.size.toNat behind) ⟨0, fileEntry.clusterNumLo.toNat, 0, fat, memory⟩ with
          | error e => exact Or.inr ⟨e, rfl, rfl⟩
          | ok r => exact Or.inl ⟨_, r.fat, rfl, rfl⟩

/-- The files, each read with what the calls before left in `fat`. -/
theorem run_readFiles (bay : Bay) (fs : FileSystem) (fat : Nat → UInt8) (calls : List FileCall) :
    (∃ files, (readFiles fs fat calls).run onDisk bay = .ok (files, bay) ∧
        List.Forall₂ (fun call file => ∃ fat,
          Fat.readFile fs bay.disk fat call.memory call.behind call.path = .ok file) calls files) ∨
      ∃ e, (readFiles fs fat calls).run onDisk bay = .error e ∧
        ∃ call ∈ calls, ∃ fat,
          Fat.readFile fs bay.disk fat call.memory call.behind call.path = .error e := by
  induction calls generalizing fat with
  | nil => exact Or.inl ⟨[], rfl, .nil⟩
  | cons call rest ih =>
      unfold readFiles
      rw [Program.run_bind]
      obtain ⟨file, fat', run, read⟩ | ⟨e, run, fails⟩ :=
        run_readFile bay fs fat call.memory call.behind call.path
      · rw [run]
        show (∃ files, ((readFiles fs fat' rest >>= fun files =>
            pure (file :: files)).run onDisk bay) = _ ∧ _) ∨
          ∃ e, ((readFiles fs fat' rest >>= fun files =>
            pure (file :: files)).run onDisk bay) = _ ∧ _
        rw [Program.run_bind]
        obtain ⟨files, run, all⟩ | ⟨e, run, call', mem, fails⟩ := ih fat'
        · rw [run]
          exact Or.inl ⟨file :: files, rfl, .cons ⟨fat, read⟩ all⟩
        · rw [run]
          exact Or.inr ⟨e, rfl, call', List.mem_cons_of_mem _ mem, fails⟩
      · rw [run]
        exact Or.inr ⟨e, rfl, call, List.mem_cons_self, fat, fails⟩

theorem run_session (bay : Bay) (memory heap fat : Nat → UInt8) (calls : List FileCall) :
    ∃ result, (session memory heap fat calls).run onDisk bay = result.map (fun r => (r, bay)) ∧
      Reads bay.disk heap calls result := by
  unfold session
  rw [Program.run_bind, run_init]
  cases start : mount bay.disk heap >>= checkKernel with
  | error e => exact ⟨.error e, rfl, .init start⟩
  | ok fs =>
      show ∃ result, ((readFiles fs fat calls >>= fun files =>
        pure (fs, files)).run onDisk bay) = _ ∧ _
      rw [Program.run_bind]
      obtain ⟨files, run, all⟩ | ⟨e, run, call, made, fat', stops⟩ := run_readFiles bay fs fat calls
      · rw [run]
        exact ⟨.ok (fs, files), rfl, .files start all⟩
      · rw [run]
        exact ⟨.error e, rfl, .file start made stops⟩

end Disk

/-! ## A call that does not succeed -/

section Checks

/-- A call that does not succeed. -/
def Bad (call : ReadCall) (answer : Answer call) : Prop := answer.1 ≠ .ok

/-- The code stops with the panic of `read_floppy_or_fail` then. -/
abbrev Careful {α : Type} (code : Code α) : Prop := code.Checks Bad (.panic "error reading floppy!")

theorem careful_readFloppyOrFail (dest : Nat → UInt8) (offset lba sectorCount : Nat) :
    Careful (readFloppyOrFail dest offset lba sectorCount) := by
  refine fun answer => ⟨fun bad => if_neg bad, fun good => ?_⟩
  show Program.Checks _ _ (if answer.1 = .ok then _ else _)
  rw [if_pos (not_not.mp good)]
  trivial

theorem careful_init (memory heap : Nat → UInt8) : Careful (init memory heap) := by
  refine Program.checks_bind (Program.checks_bind (careful_readFloppyOrFail _ _ _ _) fun _ =>
    Program.checks_bind (Program.checks_lift _) fun _ => trivial) fun bpb => ?_
  refine Program.checks_bind (Program.checks_bind (careful_readFloppyOrFail _ _ _ _)
    fun _ => trivial) fun fs => Program.checks_lift _

theorem careful_readCluster (bpb : Bpb) (size behind : Nat) (r : Reader) :
    Careful (readCluster bpb size behind r) := by
  have rest : ∀ fat : Nat → UInt8, Careful (do
      let buffer ← readFloppyOrFail r.buffer r.offset (nextDataSector bpb r.cluster) 1
      Program.lift (copySector size behind r.offset)
      let fatValue := (readU16 fat ((r.cluster + r.cluster / 2) % BYTES_PER_SECTOR)).toNat
      return {
        offset := r.offset + BYTES_PER_SECTOR
        cluster := if r.cluster % 2 = 1 then fatValue / 16 else fatValue % 0x1000
        loadedFatSector :=
          bpb.numOfReservedSectors.toNat + (r.cluster + r.cluster / 2) / BYTES_PER_SECTOR
        fat
        buffer : Reader }) := by
    refine fun fat => Program.checks_bind (careful_readFloppyOrFail _ _ _ _) fun buffer => ?_
    exact Program.checks_bind (Program.checks_lift _) fun _ => trivial
  unfold readCluster
  dsimp only
  split
  · exact Program.checks_bind (careful_readFloppyOrFail _ _ _ _) rest
  · exact rest r.fat

theorem careful_readClusters (bpb : Bpb) (size behind fuel : Nat) (r : Reader) :
    Careful (readClusters bpb size behind fuel r) := by
  induction fuel generalizing r with
  | zero =>
      unfold readClusters
      split <;> trivial
  | succ fuel ih =>
      unfold readClusters
      split
      · exact Program.checks_bind (careful_readCluster _ _ _ _) ih
      · trivial

theorem careful_readFile (fs : FileSystem) (fat memory : Nat → UInt8) (behind : Nat)
    (path : List UInt8) : Careful (readFile fs fat memory behind path) := by
  refine Program.checks_bind (Program.checks_lift _) fun found => ?_
  cases found with
  | none => trivial
  | some fileEntry => exact Program.checks_bind (careful_readClusters _ _ _ _ _) fun r => trivial

theorem careful_readFiles (fs : FileSystem) (fat : Nat → UInt8) (calls : List FileCall) :
    Careful (readFiles fs fat calls) := by
  induction calls generalizing fat with
  | nil => trivial
  | cons call rest ih =>
      refine Program.checks_bind (careful_readFile _ _ _ _ _) fun answer => ?_
      exact Program.checks_bind (ih answer.2) fun files => trivial

theorem careful_session (memory heap fat : Nat → UInt8) (calls : List FileCall) :
    Careful (session memory heap fat calls) :=
  Program.checks_bind (careful_init _ _) fun _ =>
    Program.checks_bind (careful_readFiles _ _ _) fun _ => trivial

end Checks

/-! ## On the driver -/

section Driver

variable {b : Dma.Buffer} {m : Floppy.Machine Bay} {bound fuel : Nat} {tables : Paging.State}
  {data size : Paging.Word}

theorem Answered.answer_eq {bay : Bay} {call : ReadCall} {answer : Answer call}
    (answered : call.Answered bay answer)
    (covers : call.sectorCount ≤ carriedSectors call.sectorCount) :
    answer = (onBay call bay).1 := by
  obtain ⟨status, dest⟩ := answer
  have status_ : status = bay.status call.lba call.sectorCount := answered.status
  subst status_
  unfold onBay
  by_cases fine : bay.status call.lba call.sectorCount = .ok
  · rw [if_pos fine]
    exact Prod.ext fine (answered.delivers fine covers)
  · rw [if_neg fine]
    exact Prod.ext rfl (answered.fails fine)

theorem onBay_state (call : ReadCall) (bay : Bay) : (onBay call bay).2 = bay := by
  unfold onBay onDisk
  split <;> rfl

theorem onBay_same {bay bay' : Bay} (same : bay.Same bay') (call : ReadCall) :
    (onBay call bay').1 = (onBay call bay).1 := by
  unfold onBay onDisk
  rw [same.status_eq, same.disk]
  split <;> rfl

/-- What the driver leaves alone. -/
structure Ready (bound : Nat) (bay : Bay) (m : Floppy.Machine Bay) : Prop where
  idle : m.Idle bound
  unmasked : m.mask &&& Pic.Irq.FLOPPY.mask = 0
  same : bay.Same m.drive

/-- One call, as the drive answers it. -/
theorem onDriver_answers (driveNumber : UInt8) (enough : 2 * bound ≤ fuel)
    (registered : Dma.setBufferForChannel tables Dma.FLOPPY_CHANNEL data size = .ok b)
    (call : ReadCall) (bay : Bay) (ready : Ready bound bay m) (answerable : Answerable call b) :
    ∃ m', onDriver fuel b driveNumber call m = .ok ((onBay call bay).1, m') ∧
      Ready bound (onBay call bay).2 m' := by
  obtain ⟨answer, m', read, idle, mask, same, answered⟩ :=
    Floppy.readFloppy_answers driveNumber ready.idle enough ready.unmasked registered
      answerable.legal
  refine ⟨m', ?_, idle, ?_, ?_⟩
  · rw [← onBay_same ready.same, ← Answered.answer_eq answered answerable.covers]
    exact read
  · rw [mask]
    exact ready.unmasked
  · rw [onBay_state]
    exact ready.same.trans same

/-- Every program that calls `read_floppy`, as the drive answers it. -/
theorem runIn_onDriver {α : Type} (code : Code α) (driveNumber : UInt8) (enough : 2 * bound ≤ fuel)
    (registered : Dma.setBufferForChannel tables Dma.FLOPPY_CHANNEL data size = .ok b)
    (idle : m.Idle bound) (unmasked : m.mask &&& Pic.Irq.FLOPPY.mask = 0)
    (answerable : ∀ call ∈ asked code m.drive, Answerable call b) :
    match code.run onBay m.drive with
    | .ok (a, bay) => ∃ m', code.runIn (onDriver fuel b driveNumber) m = .ok (a, m') ∧
        Ready bound bay m'
    | .error e => code.runIn (onDriver fuel b driveNumber) m = .error e := by
  have simulated := Program.runIn_simulates (P := fun call => Answerable call b) (p := code)
    (fun call bay _ ready here =>
      onDriver_answers driveNumber enough registered call bay ready here)
    (⟨idle, unmasked, ⟨rfl, rfl, rfl⟩⟩ : Ready bound m.drive m)
    fun _ mem => answerable _ (List.mem_map_of_mem mem)
  revert simulated
  cases code.run onBay m.drive <;> exact id

theorem onBay_good (call : ReadCall) (bay : Bay) (good : ¬ Bad call (onBay call bay).1) :
    onBay call bay = onDisk call bay := by
  unfold Bad onBay at good
  unfold onBay
  split
  · rfl
  · next bad =>
      rw [if_neg bad] at good
      exact absurd bad good

theorem bad_iff (call : ReadCall) (bay : Bay) :
    ¬ Bad call (onBay call bay).1 ↔ bay.status call.lba call.sectorCount = .ok := by
  unfold Bad onBay
  split
  · next fine => exact iff_of_true (not_not.mpr rfl) fine
  · next bad => exact not_not

/-- The calls leave the drive as it is. -/
theorem run_onBay_state {α : Type} {code : Code α} {bay bay' : Bay} {a : α}
    (done : code.run onBay bay = .ok (a, bay')) : bay' = bay := by
  induction code generalizing bay with
  | ret b =>
      cases done
      rfl
  | stop e => cases done
  | request call next ih =>
      have rest : bay' = (onBay call bay).2 := ih _ done
      exact rest.trans (onBay_state call bay)

theorem trace_answers {α : Type} (code : Code α) (bay : Bay) :
    ∀ r ∈ code.trace onBay bay, r.2 = (onBay r.1 bay).1 := by
  induction code with
  | ret a => exact fun r mem => by cases mem
  | stop e => exact fun r mem => by cases mem
  | request call next ih =>
      have rest := ih (onBay call bay).1
      refine List.forall_mem_cons.mpr ⟨rfl, ?_⟩
      rw [onBay_state]
      exact rest

theorem readable_iff {α : Type} (code : Code α) (bay : Bay) :
    Readable bay (asked code bay) ↔ ∀ r ∈ code.trace onBay bay, ¬ Bad r.1 r.2 := by
  unfold Readable asked
  rw [List.forall_mem_map]
  refine forall₂_congr fun r mem => ?_
  rw [trace_answers code bay r mem, bad_iff]

/-- Code that checks what `read_floppy` returns: it does what it does on the disk, or stops at the
first sector that cannot be read. -/
theorem runIn_careful {α : Type} {code : Code α} (careful : Careful code) {result : Except Stop α}
    (onDisk : code.run onDisk m.drive = result.map fun a => (a, m.drive)) (driveNumber : UInt8)
    (enough : 2 * bound ≤ fuel)
    (registered : Dma.setBufferForChannel tables Dma.FLOPPY_CHANNEL data size = .ok b)
    (idle : m.Idle bound) (unmasked : m.mask &&& Pic.Irq.FLOPPY.mask = 0)
    (answerable : ∀ call ∈ asked code m.drive, Answerable call b) :
    (Readable m.drive (asked code m.drive) →
        (code.runIn (onDriver fuel b driveNumber) m).map Prod.fst = result) ∧
      (¬ Readable m.drive (asked code m.drive) →
        code.runIn (onDriver fuel b driveNumber) m = .error (.panic "error reading floppy!")) := by
  have driven := runIn_onDriver code driveNumber enough registered idle unmasked answerable
  obtain ⟨fine, fails⟩ := Program.run_checks careful onBay_good m.drive
  rw [readable_iff]
  constructor
  · intro all
    rw [fine all, onDisk] at driven
    cases result with
    | error e => exact congrArg (Except.map Prod.fst) driven
    | ok a =>
        obtain ⟨m', done, -⟩ := driven
        rw [done]
        rfl
  · intro some
    rw [fails some] at driven
    exact driven

end Driver

/-- A volume with one sector in a cluster, and nothing on it but `KERNEL`, of one cluster. -/
def kernelDisk : Disk := fun p =>
  if p < 1536 then
    (List.lookup p ([(12, 2), (13, 1), (14, 1), (16, 1), (17, 16), (22, 1), (515, 0xFF),
      (516, 0x0F), (1024, 0x4B), (1025, 0x45), (1026, 0x52), (1027, 0x4E), (1028, 0x45),
      (1029, 0x4C), (1050, 2), (1053, 2)] ++ (List.range' 1030 5).map fun p => (p, 0x20))).getD 0
  else UInt8.ofNat (p / 512)

/-- A slow controller with this disk. -/
def kernelMachine : Floppy.Machine Bay :=
  { Floppy.sampleMachine with drive := { Floppy.sampleMachine.drive with disk := kernelDisk } }

def kernelEntry : DirectoryEntry :=
  ⟨[0x4B, 0x45, 0x52, 0x4E, 0x45, 0x4C, 0x20, 0x20, 0x20, 0x20, 0x20], 0, 2, 512⟩

/-- The volume is mounted, and `KERNEL` is found. -/
theorem kernel_mounted : ∃ fs,
    (init (fun _ => 0) fun _ => 0).run onBay kernelMachine.drive = .ok (fs, kernelMachine.drive) ∧
      fs.bpb = ⟨512, 1, 1, 1, 16, 1⟩ ∧ resolvePath fs KERNEL = .ok (some kernelEntry) := by
  have evaluated : completesWith ((init (fun _ => 0) fun _ => 0).run onBay kernelMachine.drive)
      (fun r => r.1.bpb == ⟨512, 1, 1, 1, 16, 1⟩ &&
        completesWith (resolvePath r.1 KERNEL) (· == some kernelEntry)) = true := by
    decide +kernel
  obtain ⟨⟨fs, bay⟩, mounted, tests⟩ := exists_of_completesWith evaluated
  obtain ⟨bpb, resolved⟩ := Bool.and_eq_true_iff.mp tests
  obtain ⟨entry, found, same⟩ := exists_of_completesWith resolved
  rw [beq_iff_eq] at bpb same
  have unchanged := run_onBay_state mounted
  rw [unchanged] at mounted
  exact ⟨fs, mounted, bpb, same ▸ found⟩

/-- Where the code reads, and how many sectors. -/
def askedSectors {α : Type} (code : Code α) (bay : Bay) : List (Nat × Nat) :=
  (asked code bay).map fun call => (call.lba, call.sectorCount)

theorem askedSectors_bind {α β : Type} {code : Code α} {f : α → Code β} {bay : Bay} {a : α}
    (done : code.run onBay bay = .ok (a, bay)) :
    askedSectors (code >>= f) bay = askedSectors code bay ++ askedSectors (f a) bay := by
  unfold askedSectors asked
  rw [Program.trace_bind_of_ok onBay done, List.map_append, List.map_append]

theorem askedSectors_map {α β : Type} (code : Code α) (g : α → β) (bay : Bay) :
    askedSectors (code >>= fun a => pure (g a)) bay = askedSectors code bay := by
  unfold askedSectors asked
  rw [Program.trace_map]

/-- What the driver needs of the sectors, with a buffer of 64 KiB that is aligned to its size. -/
theorem answerable_of_sectors {α : Type} (code : Code α) (bay : Bay) (b : Dma.Buffer)
    (aligned : b.data.toNat % 2 ^ 16 = 0) (whole : b.size.toNat = 0x10000)
    (all : ∀ p ∈ askedSectors code bay,
      p.1 < 2880 ∧ 1 ≤ p.2 ∧ BYTES_PER_SECTOR * p.2 ≤ 0x10000 ∧ p.2 ≤ carriedSectors p.2) :
    ∀ call ∈ asked code bay, Answerable call b := by
  intro call mem
  obtain ⟨onDisk, one, room, covers⟩ := all _ (List.mem_map_of_mem mem)
  dsimp only at room
  exact ⟨⟨onDisk, one, by omega, by omega⟩, covers⟩

theorem readable_of_sectors {α : Type} (code : Code α) (bay : Bay)
    (all : ∀ p ∈ askedSectors code bay, bay.status p.1 p.2 = .ok) : Readable bay (asked code bay) :=
  fun _ mem => all _ (List.mem_map_of_mem mem)

/-- What is read to begin with, and what for the file. -/
theorem askedSectors_session {bay : Bay} {memory heap fat : Nat → UInt8} {fs : FileSystem}
    (call : FileCall) (entry : DirectoryEntry)
    (mounted : (init memory heap).run onBay bay = .ok (fs, bay))
    (found : resolvePath fs call.path = .ok (some entry)) :
    askedSectors (session memory heap fat [call]) bay =
      askedSectors (init memory heap) bay ++
        askedSectors (readClusters fs.bpb entry.size.toNat call.behind
          (maxClusters entry.size.toNat call.behind) ⟨0, entry.clusterNumLo.toNat, 0, fat, call.memory⟩) bay := by
  have files : readFiles fs fat [call] =
      readFile fs fat call.memory call.behind call.path >>= fun answer => pure [answer.1] := rfl
  unfold session
  rw [askedSectors_bind mounted, askedSectors_map, files, askedSectors_map,
    readFile_found fat call.memory call.behind found, askedSectors_map]

/-- The boot sector, the root directory, and what the file takes. -/
theorem kernel_asked : askedSectors (session (fun _ => 0) (fun _ => 0) (fun _ => 0)
    [⟨KERNEL, fun _ => 0, 0⟩]) kernelMachine.drive = [(0, 1), (2, 1), (1, 2), (3, 1)] := by
  obtain ⟨⟨bpb, rootDir⟩, mounted, rfl, found⟩ := kernel_mounted
  have first : askedSectors (init (fun _ => 0) fun _ => 0) kernelMachine.drive =
      [(0, 1), (2, 1)] := by
    decide +kernel
  have clusters : askedSectors (readClusters ⟨512, 1, 1, 1, 16, 1⟩ 512 0
      (maxClusters 512 0) ⟨0, 2, 0, fun _ => 0, fun _ => 0⟩) kernelMachine.drive = [(1, 2), (3, 1)] := by
    decide +kernel
  rw [askedSectors_session ⟨KERNEL, fun _ => 0, 0⟩ kernelEntry mounted found, first]
  exact congrArg _ clusters

end Tyleros.Fat.Device
