import Tyleros.Dma
import Tyleros.Fat.Model
import Tyleros.Floppy.Controller

/-!
# Reading sectors

`read_floppy` of `kernel/floppy.cpp`: it programs the DMA controller, issues the command to read,
looks at the result and copies what was transferred. `Bay` is what the command works on: the disk,
the memory, and the registers that `prepare_transfer` wrote.

The number of bytes that arrives in these registers is not the one that was asked for
(`carriedSectors`), and the floppy controller reads until so many bytes are transferred. So it may
find a bad sector, or the end of the cylinder, behind the sectors that are wanted.

* `readAll_answers`: the status that `read_floppy` returns is that of the first sector that cannot
  be read, among those that are transferred. If there is none, and at least as many sectors
  are transferred as are wanted, the buffer holds these afterwards, as the file system takes for
  granted; and if there is one, the buffer is left alone.
-/

namespace Tyleros.Floppy

open Lib
open Io (Code inb outb Request)
open Fat (Disk BYTES_PER_SECTOR)

/-! ## The driver -/

def SECTORS_PER_HEAD : Nat := 18

def HEADS : Nat := 2

def SECTORS_PER_CYLINDER : Nat := SECTORS_PER_HEAD * HEADS

/-- `struct CHS`. -/
structure Chs where
  cylinder : Nat
  head : Nat
  sector : Nat
  deriving DecidableEq, Repr

def lbaToChs (sector : Nat) : Chs where
  cylinder := sector / SECTORS_PER_CYLINDER
  head := sector % SECTORS_PER_CYLINDER / SECTORS_PER_HEAD
  sector := sector % SECTORS_PER_CYLINDER % SECTORS_PER_HEAD + 1

inductive FloppyStatus where
  | ok | endOfCylinder | dataError | overrunUnderrun | noData | notWritable | missingAddressMark
  | errorUnknown
  deriving DecidableEq, Repr

/-- The error that status register 1 tells. -/
def errorOf (st1 : UInt8) : FloppyStatus :=
  if st1 &&& 0x80 ≠ 0 then .endOfCylinder
  else if st1 &&& 0x20 ≠ 0 then .dataError
  else if st1 &&& 0x10 ≠ 0 then .overrunUnderrun
  else if st1 &&& 0x4 ≠ 0 then .noData
  else if st1 &&& 0x2 ≠ 0 then .notWritable
  else if st1 &&& 0x1 ≠ 0 then .missingAddressMark
  else .errorUnknown

/-- What `read_floppy` returns for a result. -/
def statusOf (result : List UInt8) : FloppyStatus :=
  if result.getD 0 0 &&& 0xC0 ≠ 0 then errorOf (result.getD 1 0) else .ok

/-- The writes of `prepare_transfer`. -/
def outbAll : List Dma.PortWrite → Code Unit
  | [] => return ()
  | w :: rest => do
    outb w.port w.val
    outbAll rest

/-- `COMMAND_READ | MFM | MT`. -/
def READ : UInt16 := COMMAND_READ ||| MFM ||| MT

/-- `read_floppy` up to the result: the status, and the address of the DMA buffer. -/
def readCommand (fuel : Nat) (b : Dma.Buffer) (driveNumber : UInt8) (lba sectorCount : Nat) :
    Code (FloppyStatus × Paging.Word) := do
  let chs := lbaToChs lba
  let transferSize := BitVec.ofNat 32 (BYTES_PER_SECTOR * sectorCount)
  let (writes, dmaBuffer) ←
    Program.lift (Dma.prepareTransfer b Dma.FLOPPY_CHANNEL transferSize .read)
  outbAll writes
  let endOfTrack := 18
  let result ← issueCommandWithResult fuel READ (some (List.replicate 7 0))
    [UInt8.ofNat chs.head <<< 2 ||| driveNumber, UInt8.ofNat chs.cylinder, UInt8.ofNat chs.head,
      UInt8.ofNat chs.sector, 2, UInt8.ofNat endOfTrack, 0x1B, 0xFF]
  return (statusOf (result.getD []), dmaBuffer)

/-! ## The machine -/

/-- The drive with its disk, the memory, and the DMA controller. -/
structure Bay where
  disk : Disk
  /-- What status register 1 says if a sector cannot be read, 0 if it can. -/
  damage : Nat → UInt8
  /-- Whether the controller goes on with the next cylinder. The real one does not. -/
  acrossCylinders : Bool
  dma : Dma.Controller
  memory : Nat → UInt8

namespace Bay

/-- How far behind the start of a transfer the DMA controller comes to an address. -/
def index (bay : Bay) (x : Nat) : Nat :=
  (x % 2 ^ 16 + 2 ^ 16 - bay.dma.address.value) % 2 ^ 16

/-- Transfer `size` bytes of a sector, after `done` bytes. -/
def store (bay : Bay) (sector done size : Nat) : Bay :=
  { bay with memory := fun x =>
      if x / 2 ^ 16 = bay.dma.page.toNat ∧ done ≤ bay.index x ∧ bay.index x < done + size then
        bay.disk (sector * BYTES_PER_SECTOR + (bay.index x - done))
      else bay.memory x }

/-- Read sectors until `total` bytes are transferred: status register 1. -/
def carry (total : Nat) : List Nat → Nat → Bay → UInt8 × Bay
  | [], _, bay => (0x80, bay)
  | sector :: rest, done, bay =>
    if bay.damage sector ≠ 0 then (bay.damage sector, bay)
    else
      let bay := bay.store sector done (min BYTES_PER_SECTOR (total - done))
      if total ≤ done + BYTES_PER_SECTOR then (0, bay) else carry total rest (done + BYTES_PER_SECTOR) bay

/-- The sectors from one on, in the order in which they are read. -/
def sectors (bay : Bay) (cylinder head sector endOfTrack : Nat) : List Nat :=
  let track head := (cylinder * 2 + head) * 18
  if bay.acrossCylinders then
    List.range' (track head + (sector - 1)) (2880 - (track head + (sector - 1)))
  else (List.range' sector (endOfTrack + 1 - sector)).map (fun r => track head + (r - 1)) ++
    if head = 0 then (List.range' 1 endOfTrack).map (fun r => track 1 + (r - 1)) else []

/-- The result: the status registers, and where the command ended, which nobody looks at. -/
def answer (args : List UInt8) (st1 : UInt8) : List UInt8 :=
  [(if st1 = 0 then (0 : UInt8) else 0x40) ||| args.getD 0 0 &&& 0x07, st1, 0, args.getD 1 0,
    args.getD 2 0, args.getD 3 0, args.getD 4 0]

/-- The command to read, with its parameters. -/
def read (args : List UInt8) (bay : Bay) : List UInt8 × Bay :=
  let carried :=
    if bay.dma.masked ∨ bay.dma.mode &&& 0x0C ≠ Dma.MODE_WRITE then (0x10, bay)
    else bay.carry (bay.dma.count.value + 1) (bay.sectors (args.getD 1 0).toNat (args.getD 2 0).toNat
      (args.getD 3 0).toNat (args.getD 5 0).toNat) 0
  (answer args carried.1, carried.2)

end Bay

/-- Of the commands, the one to read; the others are not valid. -/
def bayFirmware : Firmware Bay where
  parameters command := if command = READ.toUInt8 then 8 else 0
  execute command args bay := if command = READ.toUInt8 then bay.read args else ([0x80], bay)
  interrupts command := command = READ.toUInt8
  outb port val bay := { bay with dma := bay.dma.write ⟨port, val⟩ }

/-- `read_floppy(dest + offset, lba, sector_count)`. -/
def readFloppy (fuel : Nat) (b : Dma.Buffer) (driveNumber : UInt8) (dest : Nat → UInt8)
    (offset lba sectorCount : Nat) (m : Machine Bay) :
    Except Stop ((FloppyStatus × (Nat → UInt8)) × Machine Bay) := do
  let ((status, dmaBuffer), m) ←
    (readCommand fuel b driveNumber lba sectorCount).run (Machine.devices bayFirmware) m
  if status = .ok then
    let dest := fun x => if offset ≤ x ∧ x < offset + BYTES_PER_SECTOR * sectorCount then
      m.drive.memory (dmaBuffer.toNat + (x - offset)) else dest x
    return ((status, dest), m)
  else return ((status, dest), m)

/-! ## What is transferred -/

/-- For so many sectors the DMA controller is told to transfer these. -/
def carriedSectors (sectorCount : Nat) : Nat := 16 * ((sectorCount - 1) % 8 + 1)

/-- How many sectors there are for one command, from one on. -/
def Bay.available (bay : Bay) (lba : Nat) : Nat :=
  if bay.acrossCylinders then 2880 - lba else 36 - lba % 36

/-- What status register 1 says in the end, if `count` sectors are read. -/
def Bay.problem (bay : Bay) (lba available count : Nat) : UInt8 :=
  (((List.range' lba (min count available)).map bay.damage).find? (· ≠ 0)).getD
    (if count ≤ available then 0 else 0x80)

theorem map_track (track first count : Nat) (positive : 1 ≤ first) :
    (List.range' first count).map (fun r => track + (r - 1)) =
      List.range' (track + (first - 1)) count := by
  apply List.ext_getElem
  · rw [List.length_map, List.length_range', List.length_range']
  · intro i inside inside'
    rw [List.getElem_map, List.getElem_range', List.getElem_range']
    omega

/-- The sectors are read in the order of their numbers. -/
theorem sectors_lbaToChs (bay : Bay) (lba : Nat) :
    bay.sectors (lbaToChs lba).cylinder (lbaToChs lba).head (lbaToChs lba).sector 18 =
      List.range' lba (bay.available lba) := by
  have cylinder : (lbaToChs lba).cylinder = lba / 36 := rfl
  have head : (lbaToChs lba).head = lba % 36 / 18 := rfl
  have sector : (lbaToChs lba).sector = lba % 36 % 18 + 1 := rfl
  have start : (lba / 36 * 2 + lba % 36 / 18) * 18 + (lba % 36 % 18 + 1 - 1) = lba := by omega
  unfold Bay.sectors Bay.available
  rw [cylinder, head, sector]
  dsimp only
  rw [start]
  by_cases across : bay.acrossCylinders = true
  · rw [if_pos across, if_pos across]
  · rw [if_neg across, if_neg across, map_track _ _ _ (by omega), start]
    by_cases lower : lba % 36 / 18 = 0
    · rw [if_pos lower, map_track _ _ _ (Nat.le_refl 1),
        show (lba / 36 * 2 + 1) * 18 + (1 - 1) = lba + 1 * (18 + 1 - (lba % 36 % 18 + 1)) by omega,
        List.range'_append]
      congr 1
      omega
    · rw [if_neg lower, List.append_nil]
      congr 1
      omega

section Carry

variable {bay : Bay} {total : Nat}

/-- A transfer changes the memory only. -/
theorem carry_frame (sectors : List Nat) (done : Nat) (bay : Bay) :
    ∃ memory, (bay.carry total sectors done).2 = { bay with memory } := by
  induction sectors generalizing done bay with
  | nil => exact ⟨bay.memory, rfl⟩
  | cons sector rest ih =>
      unfold Bay.carry
      by_cases bad : bay.damage sector ≠ 0
      · rw [if_pos bad]
        exact ⟨bay.memory, rfl⟩
      · rw [if_neg bad]
        dsimp only
        split
        · exact ⟨_, rfl⟩
        · exact ih _ _

/-- How many sectors it takes for so many bytes. -/
def sectorsFor (bytes : Nat) : Nat := (bytes + (BYTES_PER_SECTOR - 1)) / BYTES_PER_SECTOR

theorem sectorsFor_pos {bytes : Nat} (some : 0 < bytes) :
    sectorsFor bytes = sectorsFor (bytes - 512) + 1 := by
  show (bytes + 511) / 512 = (bytes - 512 + 511) / 512 + 1
  omega

/-- The status tells the first problem. -/
theorem carry_problem (available lba done : Nat) (bay : Bay) (more : done < total) :
    (bay.carry total (List.range' lba available) done).1 =
      bay.problem lba available (sectorsFor (total - done)) := by
  have size : BYTES_PER_SECTOR = 512 := rfl
  induction available generalizing lba done bay with
  | zero =>
      unfold Bay.problem
      rw [Nat.min_zero, sectorsFor_pos (by omega), if_neg (Nat.not_succ_le_zero _)]
      rfl
  | succ available ih =>
      unfold Bay.problem
      rw [sectorsFor_pos (by omega), Nat.succ_min_succ, List.range'_succ, List.range'_succ, List.map_cons]
      unfold Bay.carry
      by_cases bad : bay.damage lba ≠ 0
      · rw [if_pos bad, List.find?_cons_of_pos (by simpa using bad)]
        rfl
      · rw [if_neg bad, List.find?_cons_of_neg (by simpa using bad)]
        dsimp only
        by_cases last : total ≤ done + BYTES_PER_SECTOR
        · rw [if_pos last, show total - done - 512 = 0 by omega]
          show _ = (((List.range' (lba + 1) (min 0 available)).map bay.damage).find? _).getD _
          rw [Nat.zero_min]
          show (0 : UInt8) = if 0 + 1 ≤ available + 1 then 0 else 0x80
          rw [if_pos (Nat.le_add_left 1 available)]
        · rw [if_neg last, ih _ _ _ (by omega), ← Nat.sub_sub, size]
          unfold Bay.problem
          have iff : sectorsFor (total - done - 512) + 1 ≤ available + 1 ↔
              sectorsFor (total - done - 512) ≤ available := Nat.add_le_add_iff_right
          rw [if_congr iff rfl rfl]
          rfl

/-- Without a problem, memory holds the sectors in a row. -/
theorem carry_memory (available lba done : Nat) (bay : Bay) (more : done < total)
    (fine : (bay.carry total (List.range' lba available) done).1 = 0) (x : Nat) :
    (bay.carry total (List.range' lba available) done).2.memory x =
      if x / 2 ^ 16 = bay.dma.page.toNat ∧ done ≤ bay.index x ∧ bay.index x < total then
        bay.disk (lba * BYTES_PER_SECTOR + (bay.index x - done))
      else bay.memory x := by
  have size : BYTES_PER_SECTOR = 512 := rfl
  induction available generalizing lba done bay with
  | zero => exact absurd (show (0x80 : UInt8) = 0 from fine) (by decide)
  | succ available ih =>
      rw [List.range'_succ] at fine ⊢
      unfold Bay.carry at fine ⊢
      by_cases bad : bay.damage lba ≠ 0
      · rw [if_pos bad] at fine
        exact absurd fine bad
      · rw [if_neg bad] at fine ⊢
        dsimp only at fine ⊢
        by_cases last : total ≤ done + BYTES_PER_SECTOR
        · rw [if_pos last]
          have whole : done + min BYTES_PER_SECTOR (total - done) = total := by omega
          unfold Bay.store
          rw [whole]
        · rw [if_neg last] at fine ⊢
          rw [ih _ _ _ (by omega) fine]
          have stored : done + min BYTES_PER_SECTOR (total - done) = done + 512 := by omega
          have index : ∀ memory, Bay.index { bay with memory } x = bay.index x := fun _ => rfl
          unfold Bay.store
          rw [stored]
          simp only [index]
          by_cases page : x / 2 ^ 16 = bay.dma.page.toNat
          · by_cases early : bay.index x < done + 512
            · rw [if_neg (by omega)]
              by_cases begun : done ≤ bay.index x
              · rw [if_pos ⟨page, begun, early⟩, if_pos ⟨page, begun, by omega⟩]
              · rw [if_neg (fun h => begun h.2.1), if_neg (fun h => begun h.2.1)]
            · by_cases inside : bay.index x < total
              · rw [if_pos ⟨page, by omega, inside⟩, if_pos ⟨page, by omega, inside⟩]
                exact congrArg bay.disk (by rw [size]; omega)
              · rw [if_neg (fun h => inside h.2.2), if_neg (fun h => early h.2.2),
                  if_neg (fun h => inside h.2.2)]
          · rw [if_neg (fun h => page h.1), if_neg (fun h => page h.1), if_neg (fun h => page h.1)]

end Carry

/-! ## One call -/

section Call

variable {b : Dma.Buffer} {m : Machine Bay} {bay : Bay} {bound fuel lba sectorCount : Nat}

/-- The bytes that are transferred for so many sectors. -/
theorem carriedSectors_count (some : 1 ≤ sectorCount) (fits : BYTES_PER_SECTOR * sectorCount ≤ 0x10000) :
    (BYTES_PER_SECTOR * sectorCount - 1) / 16 % 256 * 256 +
        (BYTES_PER_SECTOR * sectorCount - 1) % 256 + 1 =
      carriedSectors sectorCount * BYTES_PER_SECTOR := by
  have size : BYTES_PER_SECTOR = 512 := rfl
  unfold carriedSectors
  rw [size] at fits ⊢
  omega

theorem Machine.Idle.tick (f : Firmware Bay) (idle : m.Idle bound) : m.tick f = m := by
  unfold Machine.tick
  rw [if_pos idle.busy, idle.phase]

/-- The registers of the DMA controller are written, and nothing else happens. -/
theorem run_outbAll (writes : List Dma.PortWrite) (idle : m.Idle bound)
    (others : ∀ w ∈ writes, w.port ≠ DATA_FIFO) :
    (outbAll writes).run (Machine.devices bayFirmware) m =
      .ok ((), { m with drive := { m.drive with dma := m.drive.dma.program writes } }) := by
  induction writes generalizing m with
  | nil => rfl
  | cons w rest ih =>
      obtain ⟨other, others⟩ := List.forall_mem_cons.mp others
      have next : (Machine.devices bayFirmware (Request.outb w.port w.val) m).2 =
          { m with drive := { m.drive with dma := m.drive.dma.write w } } := by
        show (if w.port = DATA_FIFO then _ else _) = _
        rw [if_neg other, idle.tick]
        rfl
      show (outbAll rest).run _ (Machine.devices bayFirmware (Request.outb w.port w.val) m).2 = _
      rw [next]
      exact ih ⟨idle.phase, idle.busy, idle.hurries, idle.delays⟩ others

/-- The status for a result of the controller. -/
theorem statusOf_answer (args : List UInt8) (st1 : UInt8) :
    statusOf (Bay.answer args st1) = if st1 = 0 then .ok else errorOf st1 := by
  have flags : ∀ c : UInt8, ((0 : UInt8) ||| c &&& 0x07) &&& 0xC0 = 0 ∧
      ((0x40 : UInt8) ||| c &&& 0x07) &&& 0xC0 ≠ 0 :=
    forall_byte (by decide +kernel)
  unfold statusOf Bay.answer
  rw [List.getD_cons_zero, List.getD_cons_succ, List.getD_cons_zero]
  by_cases fine : st1 = 0
  · rw [if_pos fine, if_pos fine, if_neg (not_not.mpr (flags _).1)]
  · rw [if_neg fine, if_neg fine, if_pos (flags _).2]

/-- The parameters of the command to read. -/
def readArgs (driveNumber : UInt8) (lba : Nat) : List UInt8 :=
  [UInt8.ofNat (lbaToChs lba).head <<< 2 ||| driveNumber, UInt8.ofNat (lbaToChs lba).cylinder,
    UInt8.ofNat (lbaToChs lba).head, UInt8.ofNat (lbaToChs lba).sector, 2, UInt8.ofNat 18, 0x1B, 0xFF]

/-- The command as the DMA controller was programmed for it. -/
theorem read_eq (driveNumber : UInt8) (onDisk : lba < 2880) (open_ : bay.dma.masked = false)
    (mode : bay.dma.mode &&& 0x0C = Dma.MODE_WRITE) :
    bay.read (readArgs driveNumber lba) =
      let carried := bay.carry (bay.dma.count.value + 1) (List.range' lba (bay.available lba)) 0
      (Bay.answer (readArgs driveNumber lba) carried.1, carried.2) := by
  have cylinder : (UInt8.ofNat (lbaToChs lba).cylinder).toNat = (lbaToChs lba).cylinder := by
    apply UInt8.toNat_ofNat_of_lt'
    show lba / 36 < 256
    omega
  have head : (UInt8.ofNat (lbaToChs lba).head).toNat = (lbaToChs lba).head := by
    apply UInt8.toNat_ofNat_of_lt'
    show lba % 36 / 18 < 256
    omega
  have sector : (UInt8.ofNat (lbaToChs lba).sector).toNat = (lbaToChs lba).sector := by
    apply UInt8.toNat_ofNat_of_lt'
    show lba % 36 % 18 + 1 < 256
    omega
  have track : bay.sectors ((readArgs driveNumber lba).getD 1 0).toNat
      ((readArgs driveNumber lba).getD 2 0).toNat ((readArgs driveNumber lba).getD 3 0).toNat
      ((readArgs driveNumber lba).getD 5 0).toNat = List.range' lba (bay.available lba) := by
    show bay.sectors (UInt8.ofNat _).toNat (UInt8.ofNat _).toNat (UInt8.ofNat _).toNat 18 = _
    rw [cylinder, head, sector]
    exact sectors_lbaToChs bay lba
  have programmed : ¬ (bay.dma.masked = true ∨ bay.dma.mode &&& 0x0C ≠ Dma.MODE_WRITE) := by
    rw [open_, mode]
    simp
  unfold Bay.read
  rw [if_neg programmed, track]

/-- What the command does, for a transfer that was prepared. -/
theorem run_readCommand (driveNumber : UInt8) (lba : Nat) (idle : m.Idle bound) (enough : 2 * bound ≤ fuel)
    (unmasked : m.mask &&& Pic.Irq.FLOPPY.mask = 0) (allocated : b.data ≠ 0#64)
    (room : BYTES_PER_SECTOR * sectorCount ≤ b.size.toNat)
    (fits : BYTES_PER_SECTOR * sectorCount ≤ 0x10000) :
    ∃ bay m', bay = { m.drive with
        dma := m.drive.dma.program (Dma.transferWrites b.data
          ((BitVec.ofNat 32 (BYTES_PER_SECTOR * sectorCount) - 1#32).setWidth 16) 2 Dma.MODE_WRITE) } ∧
      (readCommand fuel b driveNumber lba sectorCount).run (Machine.devices bayFirmware) m =
        .ok ((statusOf (bay.read (readArgs driveNumber lba)).1, b.data), m') ∧
      m'.Idle bound ∧ m'.mask = m.mask ∧ m'.drive = (bay.read (readArgs driveNumber lba)).2 := by
  let writes := Dma.transferWrites b.data
    ((BitVec.ofNat 32 (BYTES_PER_SECTOR * sectorCount) - 1#32).setWidth 16) 2 Dma.MODE_WRITE
  let m₁ : Machine Bay := { m with drive := { m.drive with dma := m.drive.dma.program writes } }
  have transferSize : (BitVec.ofNat 32 (BYTES_PER_SECTOR * sectorCount)).toNat =
      BYTES_PER_SECTOR * sectorCount := by
    rw [BitVec.toNat_ofNat]
    omega
  have prepared : Dma.prepareTransfer b Dma.FLOPPY_CHANNEL
      (BitVec.ofNat 32 (BYTES_PER_SECTOR * sectorCount)) .read = .ok (writes, b.data) := by
    unfold Dma.prepareTransfer
    show (do
      kassert (b.data != 0#64) _
      kassert (decide (b.size.toNat ≥ _)) _
      kassert (decide (_ ≤ 0x10000)) _
      _ : Except Stop _) = _
    rw [bne_iff_ne.mpr allocated, transferSize, decide_eq_true room, decide_eq_true fits]
    rfl
  have written := run_outbAll writes idle (by
    show ∀ w ∈ Dma.transferWrites _ _ _ _, w.port ≠ DATA_FIFO
    unfold Dma.transferWrites
    simp only [List.forall_mem_cons]
    decide)
  have idle₁ : m₁.Idle bound := ⟨idle.phase, idle.busy, idle.hurries, idle.delays⟩
  have issued : ∃ m', (issueCommandWithResult fuel READ (some (List.replicate 7 0))
      (readArgs driveNumber lba)).run (Machine.devices bayFirmware) m₁ =
        .ok (some (m₁.drive.read (readArgs driveNumber lba)).1, m') ∧ m'.Idle bound ∧
      m'.mask = m₁.mask ∧ m'.drive = (m₁.drive.read (readArgs driveNumber lba)).2 :=
    run_issueCommandWithResult idle₁ enough rfl (Nat.le_refl 7) (fun _ _ => ⟨rfl, unmasked⟩)
  obtain ⟨m', issued, idle', mask, drive⟩ := issued
  have lifted : (Program.lift (Dma.prepareTransfer b Dma.FLOPPY_CHANNEL
      (BitVec.ofNat 32 (BYTES_PER_SECTOR * sectorCount)) .read) : Code _).run
      (Machine.devices bayFirmware) m = .ok ((writes, b.data), m) := by
    rw [prepared]
    rfl
  refine ⟨m₁.drive, m', rfl, ?_, idle', mask, drive⟩
  refine (Program.run_bind_of_ok _ lifted).trans ?_
  refine (Program.run_bind_of_ok _ written).trans ?_
  exact (Program.run_bind_of_ok _ issued).trans rfl

/-- Whether the bays hold the same disk. -/
structure Bay.Same (bay bay' : Bay) : Prop where
  disk : bay'.disk = bay.disk
  damage : bay'.damage = bay.damage
  acrossCylinders : bay'.acrossCylinders = bay.acrossCylinders

theorem Bay.Same.trans {bay bay' bay'' : Bay} (first : bay.Same bay') (second : bay'.Same bay'') :
    bay.Same bay'' :=
  ⟨second.disk.trans first.disk, second.damage.trans first.damage,
    second.acrossCylinders.trans first.acrossCylinders⟩

/-- The status of a call: that of the first sector that cannot be read. -/
def Bay.status (bay : Bay) (lba sectorCount : Nat) : FloppyStatus :=
  if bay.problem lba (bay.available lba) (carriedSectors sectorCount) = 0 then .ok
  else errorOf (bay.problem lba (bay.available lba) (carriedSectors sectorCount))

theorem Bay.Same.status_eq {bay bay' : Bay} (same : bay.Same bay') :
    bay'.status lba sectorCount = bay.status lba sectorCount := by
  unfold Bay.status Bay.problem Bay.available
  rw [same.damage, same.acrossCylinders]

theorem errorOf_ne_ok (st1 : UInt8) : errorOf st1 ≠ .ok := by
  unfold errorOf
  repeat' split
  all_goals exact fun h => by cases h

/-- The transfer that `prepare_transfer` asks for. -/
theorem read_prepared {data : Paging.Word} (driveNumber : UInt8) (onDisk : lba < 2880) (some : 1 ≤ sectorCount)
    (fits : BYTES_PER_SECTOR * sectorCount ≤ 0x10000) (low : data.toNat < 2 ^ 24)
    (programmed : bay.dma = m.drive.dma.program (Dma.transferWrites data
      ((BitVec.ofNat 32 (BYTES_PER_SECTOR * sectorCount) - 1#32).setWidth 16) 2 Dma.MODE_WRITE)) :
    statusOf (bay.read (readArgs driveNumber lba)).1 = bay.status lba sectorCount ∧
      bay.Same (bay.read (readArgs driveNumber lba)).2 ∧
      (bay.status lba sectorCount = .ok → sectorCount ≤ carriedSectors sectorCount →
        data.toNat % 2 ^ 16 + BYTES_PER_SECTOR * sectorCount ≤ 2 ^ 16 →
        ∀ i, i < BYTES_PER_SECTOR * sectorCount →
          (bay.read (readArgs driveNumber lba)).2.memory (data.toNat + i) =
            bay.disk (lba * BYTES_PER_SECTOR + i)) := by
  have size : BYTES_PER_SECTOR = 512 := rfl
  have transferSize : (BitVec.ofNat 32 (BYTES_PER_SECTOR * sectorCount)).toNat =
      BYTES_PER_SECTOR * sectorCount := by
    rw [BitVec.toNat_ofNat]
    omega
  have registers := Dma.program_transferWrites m.drive.dma data
    ((BitVec.ofNat 32 (BYTES_PER_SECTOR * sectorCount) - 1#32).setWidth 16) .read
  rw [if_pos rfl, ← programmed] at registers
  have total : bay.dma.count.value + 1 = carriedSectors sectorCount * BYTES_PER_SECTOR := by
    have counted := Dma.count_program m.drive.dma data (by rw [transferSize, size]; omega)
      (by rw [transferSize]; exact fits) .read
    rw [if_pos rfl, ← programmed, transferSize] at counted
    rw [counted, carriedSectors_count some fits]
  have positive : 0 < carriedSectors sectorCount := by
    unfold carriedSectors
    omega
  have address : bay.dma.address.value = data.toNat % 2 ^ 16 ∧ bay.dma.page.toNat = data.toNat / 2 ^ 16 := by
    rw [registers]
    unfold Dma.Latch.value
    rw [Dma.byteAt_toNat, Dma.byteAt_toNat, Dma.byteAt_toNat]
    omega
  have transferType : (Dma.SINGLE_TRANSFER ||| Dma.AUTOINCREMENT ||| Dma.MODE_WRITE ||| 2) &&& 0x0C =
      Dma.MODE_WRITE := by decide
  have read : bay.read (readArgs driveNumber lba) = _ :=
    read_eq driveNumber onDisk (by rw [registers]) (by rw [registers]; exact transferType)
  rw [total] at read
  have problem : (bay.carry (carriedSectors sectorCount * BYTES_PER_SECTOR)
      (List.range' lba (bay.available lba)) 0).1 = _ :=
    carry_problem (bay.available lba) lba 0 bay (by omega)
  have count : sectorsFor (carriedSectors sectorCount * BYTES_PER_SECTOR - 0) =
      carriedSectors sectorCount := by
    unfold sectorsFor
    rw [size]
    omega
  rw [count] at problem
  obtain ⟨memory, frame⟩ : ∃ memory, (bay.carry (carriedSectors sectorCount * BYTES_PER_SECTOR)
      (List.range' lba (bay.available lba)) 0).2 = { bay with memory } := carry_frame _ 0 bay
  refine ⟨?_, ?_, fun fine covers inside i less => ?_⟩
  · rw [read]
    show statusOf (Bay.answer _ _) = _
    rw [statusOf_answer, problem]
    rfl
  · rw [read]
    show bay.Same (bay.carry _ _ _).2
    rw [frame]
    exact ⟨rfl, rfl, rfl⟩
  · have noProblem : (bay.carry (carriedSectors sectorCount * BYTES_PER_SECTOR)
        (List.range' lba (bay.available lba)) 0).1 = 0 := by
      rw [problem]
      unfold Bay.status at fine
      by_contra bad
      rw [if_neg bad] at fine
      exact errorOf_ne_ok _ fine
    rw [size] at inside less
    have index : bay.index (data.toNat + i) = i := by
      unfold Bay.index
      rw [address.1]
      omega
    rw [read]
    show (bay.carry _ _ _).2.memory _ = _
    rw [carry_memory _ _ _ _ (by omega) noProblem, index, Nat.sub_zero, address.2, size]
    rw [if_pos ⟨by omega, Nat.zero_le _, by omega⟩]

end Call

/-! ## Any number of calls -/

/-- The arguments of a call of `read_floppy`. -/
structure ReadCall where
  dest : Nat → UInt8
  offset : Nat
  lba : Nat
  sectorCount : Nat

/-- The sectors are on the disk, and what is asked for fits into the buffer and into the page
that it starts in. -/
structure ReadCall.Legal (call : ReadCall) (b : Dma.Buffer) : Prop where
  onDisk : call.lba < 2880
  some : 1 ≤ call.sectorCount
  room : BYTES_PER_SECTOR * call.sectorCount ≤ b.size.toNat
  inside : b.data.toNat % 2 ^ 16 + BYTES_PER_SECTOR * call.sectorCount ≤ 2 ^ 16

/-- The status is that of the first sector that cannot be read. The buffer is read as the file
system takes for granted, or left alone. -/
structure ReadCall.Answered (call : ReadCall) (bay : Bay) (answer : FloppyStatus × (Nat → UInt8)) :
    Prop where
  status : answer.1 = bay.status call.lba call.sectorCount
  delivers : answer.1 = .ok → call.sectorCount ≤ carriedSectors call.sectorCount →
    answer.2 = Fat.readFloppy bay.disk call.dest call.offset call.lba call.sectorCount
  fails : answer.1 ≠ .ok → answer.2 = call.dest

/-- Calls of `read_floppy`, one after the other. -/
def readAll (fuel : Nat) (b : Dma.Buffer) (driveNumber : UInt8) :
    List ReadCall → Machine Bay → Except Stop (List (FloppyStatus × (Nat → UInt8)) × Machine Bay)
  | [], m => .ok ([], m)
  | call :: rest, m => do
    let (answer, m) ← readFloppy fuel b driveNumber call.dest call.offset call.lba call.sectorCount m
    let (answers, m) ← readAll fuel b driveNumber rest m
    return (answer :: answers, m)

section Calls

variable {b : Dma.Buffer} {m : Machine Bay} {bound fuel : Nat} {tables : Paging.State}
  {data size : Paging.Word}

theorem registered_data (registered : Dma.setBufferForChannel tables Dma.FLOPPY_CHANNEL data size = .ok b) :
    b.data ≠ 0#64 ∧ b.data.toNat < 2 ^ 24 := by
  obtain ⟨-, rfl, low⟩ := Dma.setBufferForChannel_ok registered
  unfold Dma.setBufferForChannel at registered
  obtain ⟨_, nonzero, -⟩ := bind_eq_ok registered
  exact ⟨bne_iff_ne.mp (kassert_eq_ok nonzero), low⟩

theorem readFloppy_answers (driveNumber : UInt8) (idle : m.Idle bound) (enough : 2 * bound ≤ fuel)
    (unmasked : m.mask &&& Pic.Irq.FLOPPY.mask = 0)
    (registered : Dma.setBufferForChannel tables Dma.FLOPPY_CHANNEL data size = .ok b)
    {call : ReadCall} (legal : call.Legal b) :
    ∃ answer m', readFloppy fuel b driveNumber call.dest call.offset call.lba call.sectorCount m =
        .ok (answer, m') ∧ m'.Idle bound ∧ m'.mask = m.mask ∧ m.drive.Same m'.drive ∧
      call.Answered m.drive answer := by
  obtain ⟨allocated, low⟩ := registered_data registered
  have inside := legal.inside
  obtain ⟨bay, m', programmed, done, idle', mask, drive⟩ := run_readCommand driveNumber call.lba
    idle enough unmasked allocated legal.room (by omega)
  have same : m.drive.Same bay := by
    rw [programmed]
    exact ⟨rfl, rfl, rfl⟩
  obtain ⟨status, same', delivers⟩ := read_prepared driveNumber legal.onDisk legal.some
    (by omega) low (show bay.dma = _ by rw [programmed])
  rw [status, same.status_eq] at done
  rw [same.status_eq] at delivers
  have bind : readFloppy fuel b driveNumber call.dest call.offset call.lba call.sectorCount m =
      if m.drive.status call.lba call.sectorCount = .ok then
        .ok ((m.drive.status call.lba call.sectorCount, fun x =>
          if call.offset ≤ x ∧ x < call.offset + BYTES_PER_SECTOR * call.sectorCount then
            m'.drive.memory (b.data.toNat + (x - call.offset)) else call.dest x), m')
      else .ok ((m.drive.status call.lba call.sectorCount, call.dest), m') := by
    unfold readFloppy
    rw [done]
    rfl
  rw [drive] at bind
  by_cases fine : m.drive.status call.lba call.sectorCount = .ok
  · rw [if_pos fine] at bind
    refine ⟨_, m', bind, idle', mask, drive ▸ same.trans same', rfl, fun _ covers => ?_,
      fun bad => absurd fine bad⟩
    funext x
    unfold Fat.readFloppy
    rw [Nat.mul_comm call.sectorCount]
    by_cases here : call.offset ≤ x ∧ x < call.offset + BYTES_PER_SECTOR * call.sectorCount
    · rw [if_pos here]
      show (if _ then _ else _) = _
      rw [if_pos here, delivers fine covers inside _ (by omega), same.disk]
    · rw [if_neg here]
      exact if_neg here
  · rw [if_neg fine] at bind
    exact ⟨_, m', bind, idle', mask, drive ▸ same.trans same', rfl, fun ok => absurd ok fine,
      fun _ => rfl⟩

/-- In any sequence of calls, each one is answered for the disk as it is, whatever pauses the
controller makes, and whatever the calls before left in the buffer. -/
theorem readAll_answers (driveNumber : UInt8) (idle : m.Idle bound) (enough : 2 * bound ≤ fuel)
    (unmasked : m.mask &&& Pic.Irq.FLOPPY.mask = 0)
    (registered : Dma.setBufferForChannel tables Dma.FLOPPY_CHANNEL data size = .ok b)
    (calls : List ReadCall) (legal : ∀ call ∈ calls, call.Legal b) :
    ∃ answers m', readAll fuel b driveNumber calls m = .ok (answers, m') ∧
      List.Forall₂ (fun call answer => call.Answered m.drive answer) calls answers := by
  suffices run : ∀ bay : Bay, bay.Same m.drive → ∃ answers m',
      readAll fuel b driveNumber calls m = .ok (answers, m') ∧
        List.Forall₂ (fun call answer => call.Answered bay answer) calls answers from
    run m.drive ⟨rfl, rfl, rfl⟩
  intro bay same
  induction calls generalizing m with
  | nil => exact ⟨[], m, rfl, .nil⟩
  | cons call rest ih =>
      obtain ⟨here, others⟩ := List.forall_mem_cons.mp legal
      obtain ⟨answer, m₁, read, idle₁, mask, same₁, answered⟩ :=
        readFloppy_answers driveNumber idle enough unmasked registered here
      obtain ⟨answers, m₂, done, rest⟩ := ih idle₁ (by rw [mask]; exact unmasked) others
        (same.trans same₁)
      refine ⟨answer :: answers, m₂, ?_, .cons ⟨?_, ?_, answered.fails⟩ rest⟩
      · unfold readAll
        rw [read, ok_bind]
        dsimp only
        rw [done, ok_bind]
        rfl
      · rw [answered.status, same.status_eq]
      · rw [← same.disk]
        exact answered.delivers

end Calls

/-! ## A disk without bad sectors -/

/-- Every sector can be read, so a call succeeds if the sectors that are transferred are there. -/
theorem status_healthy {bay : Bay} (healthy : ∀ sector, bay.damage sector = 0) (lba sectorCount : Nat) :
    bay.status lba sectorCount =
      if carriedSectors sectorCount ≤ bay.available lba then .ok else .endOfCylinder := by
  have none (count : Nat) : ((List.range' lba count).map bay.damage).find? (· ≠ 0) = none := by
    rw [List.find?_eq_none]
    intro st1 found
    obtain ⟨sector, -, rfl⟩ := List.mem_map.mp found
    simp [healthy]
  unfold Bay.status Bay.problem
  rw [none]
  by_cases enough : carriedSectors sectorCount ≤ bay.available lba
  · rw [Option.getD_none, if_pos enough, if_pos rfl, if_pos enough]
  · rw [Option.getD_none, if_neg enough, if_neg (by decide), if_neg enough]
    decide

/-- A real controller reads no root directory of 14 sectors: 96 sectors are more than a cylinder. -/
example {bay : Bay} (healthy : ∀ sector, bay.damage sector = 0) (real : bay.acrossCylinders = false)
    (lba : Nat) : bay.status lba 14 = .endOfCylinder := by
  rw [status_healthy healthy, if_neg]
  unfold Bay.available
  rw [real]
  show ¬ 96 ≤ 36 - lba % 36
  omega

/-- A machine with an empty disk, whose controller is slow and follows the data sheet. -/
def sampleMachine : Machine Bay where
  phase := .idle
  busy := 0
  delays := fun n => n % 3
  between := 2
  diskInterruptHandled := true
  mask := 0xBF
  drive := ⟨fun _ => 0, fun _ => 0, false, ⟨true, ⟨1, 2⟩, ⟨3, 4⟩, 5, 6, true⟩, fun _ => 0xFF⟩

/-- The boot sector, and the root directory. -/
theorem readAll_sample : ∃ answers m',
    readAll 6 ⟨0x20000#64, 0x10000#64⟩ 0 [⟨fun _ => 0xFF, 0, 0, 1⟩, ⟨fun _ => 0xFF, 0, 19, 14⟩]
        sampleMachine = .ok (answers, m') ∧
      List.Forall₂ (fun call answer => ReadCall.Answered call sampleMachine.drive answer)
        [⟨fun _ => 0xFF, 0, 0, 1⟩, ⟨fun _ => 0xFF, 0, 19, 14⟩] answers := by
  have idle : sampleMachine.Idle 3 := ⟨rfl, rfl, by decide, fun n => Nat.mod_lt n (by decide)⟩
  refine readAll_answers 0 idle (by decide) (by decide) Dma.sampleKernel_registers
    [⟨fun _ => 0xFF, 0, 0, 1⟩, ⟨fun _ => 0xFF, 0, 19, 14⟩] ?_
  rw [List.forall_mem_cons, List.forall_mem_singleton]
  exact ⟨⟨by decide, by decide, by decide, by decide⟩, ⟨by decide, by decide, by decide, by decide⟩⟩

end Tyleros.Floppy
