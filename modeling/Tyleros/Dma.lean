import Tyleros.Paging.RoundTrip

/-!
# Programming the DMA controller

`kernel/dma.cpp`: the floppy driver registers one buffer for channel 2, and
`prepare_transfer` writes the address of the buffer and the number of bytes, less one, to
the ports of the 8237 and to its page register.

`Controller` is what the ports do: the address and the count are sent a byte at a time,
and a flip-flop that a port of its own resets says which byte comes next. It counts the
address up in 16 bits, so a transfer cannot leave the 64 KiB its page register stands for.

`prepareTransfer_writes` gives the bytes that are written, `carries_iff` which transfers
the controller then carries out: the high byte of the count is taken four bits too low, and
nothing looks at the end of the 64 KiB.
-/

namespace Tyleros.Dma

open Paging (Word)

/-! ## The driver's side -/

/-- `io::outb(port, val)`. -/
structure PortWrite where
  port : UInt16
  val : UInt8
  deriving DecidableEq, Repr

def START_ADDRESS_CHANNEL_2 : UInt16 := 0x04

def COUNT_CHANNEL_2 : UInt16 := 0x05

def SINGLE_CHANNEL_MASK : UInt16 := 0x0A

def MODE_REGISTER : UInt16 := 0x0B

def FLIP_FLOP_RESET : UInt16 := 0x0C

def PAGE_ADDRESS_CHANNEL_2 : UInt16 := 0x81

def MASK_ON : UInt8 := (1 : UInt8) <<< 2

def SINGLE_TRANSFER : UInt8 := (1 : UInt8) <<< 6

def AUTOINCREMENT : UInt8 := (1 : UInt8) <<< 4

def MODE_READ : UInt8 := (2 : UInt8) <<< 2

def MODE_WRITE : UInt8 := (1 : UInt8) <<< 2

def FLOPPY_CHANNEL : Nat := 2

/-- `dma::buffer`. -/
structure Buffer where
  data : Word
  size : Word

/-- `dma::mode`. -/
inductive Mode where
  | read
  | write
  deriving DecidableEq, Repr

/-- `set_buffer_for_channel`: the new `floppy_dma_buffer`. -/
def setBufferForChannel (tables : Paging.State) (channel : Nat) (data size : Word) :
    Except Stop Buffer := do
  kassert (data != 0#64) "Can't set null buffer!"
  let physical ← Paging.getPhysicalAddress data tables
  kassert (data == physical && data.toNat < 1 <<< 24)
    "Buffer address must be identity mapped in the bottom 24 bits of physical memory (DMA doesn't understand fancy virtual addresses)"
  if channel = FLOPPY_CHANNEL then return ⟨data, size⟩
  else .error (.panic "Invalid DMA channel %d")

/-- `buffer_for_channel`, where `none` is the null pointer. -/
def bufferForChannel (floppyDmaBuffer : Buffer) (channel : Nat) : Option Buffer :=
  if channel = 2 then some floppyDmaBuffer else none

/-- The byte `(v >> shift) & 0xFF`. -/
def byteAt (v : Word) (shift : Nat) : UInt8 := ⟨((v >>> shift) &&& 0xFF#64).setWidth 8⟩

/-- The sequence of `io::outb` in `prepare_transfer`. -/
def transferWrites (data : Word) (transferCount : BitVec 16) (channel readOrWrite : UInt8) :
    List PortWrite :=
  [⟨SINGLE_CHANNEL_MASK, MASK_ON ||| channel⟩,
    ⟨FLIP_FLOP_RESET, 0xFF⟩,
    ⟨START_ADDRESS_CHANNEL_2, byteAt data 0⟩,
    ⟨START_ADDRESS_CHANNEL_2, byteAt data 8⟩,
    ⟨FLIP_FLOP_RESET, 0xFF⟩,
    ⟨COUNT_CHANNEL_2, byteAt (transferCount.setWidth 64) 0⟩,
    ⟨COUNT_CHANNEL_2, byteAt (transferCount.setWidth 64) 4⟩,
    ⟨PAGE_ADDRESS_CHANNEL_2, byteAt data 16⟩,
    ⟨MODE_REGISTER, SINGLE_TRANSFER ||| AUTOINCREMENT ||| readOrWrite ||| channel⟩,
    ⟨SINGLE_CHANNEL_MASK, channel⟩]

/-- `prepare_transfer`: what it writes to the ports, and the address it returns. -/
def prepareTransfer (floppyDmaBuffer : Buffer) (channel : Nat) (transferSize : BitVec 32)
    (mode : Mode) : Except Stop (List PortWrite × Word) :=
  match bufferForChannel floppyDmaBuffer channel with
  | none => .error (.assertion "floppy DMA buffer is not allocated?")
  | some buffer => do
    kassert (buffer.data != 0#64) "floppy DMA buffer is not allocated?"
    kassert (buffer.size.toNat ≥ transferSize.toNat) "dma buffer not large enough for transfer!"
    kassert (transferSize.toNat ≤ 0x10000) "transfer size - 1 needs to fit into 16 bits"
    -- if a device is reading, the controller is writing
    let readOrWrite := if mode = .read then MODE_WRITE else MODE_READ
    let transferCount := (transferSize - 1#32).setWidth 16
    return (transferWrites buffer.data transferCount (UInt8.ofNat channel) readOrWrite, buffer.data)

/-! ## The controller's side -/

/-- A 16-bit register that is written a byte at a time. -/
structure Latch where
  low : UInt8
  high : UInt8
  deriving DecidableEq, Repr

def Latch.value (l : Latch) : Nat := l.high.toNat * 2 ^ 8 + l.low.toNat

/-- Load the byte that the flip-flop points at. -/
def Latch.load (l : Latch) (highNext : Bool) (val : UInt8) : Latch :=
  if highNext then { l with high := val } else { l with low := val }

/-- The registers of channel 2. -/
structure Controller where
  /-- The flip-flop: the next byte of an address or a count is the high one. -/
  highNext : Bool
  address : Latch
  count : Latch
  page : UInt8
  mode : UInt8
  masked : Bool
  deriving DecidableEq, Repr

namespace Controller

def write (c : Controller) (w : PortWrite) : Controller :=
  if w.port = START_ADDRESS_CHANNEL_2 then
    { c with address := c.address.load c.highNext w.val, highNext := !c.highNext }
  else if w.port = COUNT_CHANNEL_2 then
    { c with count := c.count.load c.highNext w.val, highNext := !c.highNext }
  else if w.port = FLIP_FLOP_RESET then { c with highNext := false }
  else if w.port = PAGE_ADDRESS_CHANNEL_2 then { c with page := w.val }
  else if w.port = MODE_REGISTER then
    -- the two lowest bits select the channel
    if w.val &&& 3 = 2 then { c with mode := w.val } else c
  else if w.port = SINGLE_CHANNEL_MASK then
    if w.val &&& 3 = 2 then { c with masked := w.val &&& MASK_ON != 0 } else c
  else c

def program (c : Controller) (writes : List PortWrite) : Controller := writes.foldl write c

/-- The 24-bit address the transfer starts at. -/
def startAddress (c : Controller) : Nat := c.page.toNat * 2 ^ 16 + c.address.value

/-- The controller carries `size` bytes from `address` on: it starts there, it counts one
byte more than it is told, and the addresses stay in the 64 KiB of the page register. -/
structure Carries (c : Controller) (address size : Nat) : Prop where
  starts : c.startAddress = address
  counts : c.count.value = size - 1
  inside : address / 2 ^ 16 = (address + size - 1) / 2 ^ 16

end Controller

/-! ## What is programmed -/

theorem byteAt_toNat (v : Word) (shift : Nat) : (byteAt v shift).toNat = v.toNat / 2 ^ shift % 256 := by
  unfold byteAt
  show (((v >>> shift) &&& 0xFF#64).setWidth 8).toNat = _
  rw [BitVec.toNat_setWidth, BitVec.toNat_and, BitVec.toNat_ushiftRight, Nat.shiftRight_eq_div_pow]
  rw [show (0xFF#64).toNat = 2 ^ 8 - 1 from rfl, Nat.and_two_pow_sub_one_eq_mod]
  omega

theorem setBufferForChannel_ok {tables : Paging.State} {channel : Nat} {data size : Word} {b : Buffer}
    (registered : setBufferForChannel tables channel data size = .ok b) :
    channel = FLOPPY_CHANNEL ∧ b = ⟨data, size⟩ ∧ data.toNat < 2 ^ 24 := by
  unfold setBufferForChannel at registered
  obtain ⟨_, _, registered⟩ := bind_eq_ok registered
  obtain ⟨physical, _, registered⟩ := bind_eq_ok registered
  obtain ⟨_, low, registered⟩ := bind_eq_ok registered
  have low := kassert_eq_ok low
  rw [Bool.and_eq_true, decide_eq_true_eq] at low
  split at registered
  · next floppy => exact ⟨floppy, (Except.ok.inj registered).symm, low.2⟩
  · cases registered

/-- What `prepare_transfer` writes when it returns. -/
theorem prepareTransfer_writes {b : Buffer} {channel : Nat} {size : BitVec 32} {mode : Mode}
    {writes : List PortWrite} {address : Word}
    (prepared : prepareTransfer b channel size mode = .ok (writes, address)) :
    size.toNat ≤ 0x10000 ∧ address = b.data ∧
      writes = transferWrites b.data ((size - 1#32).setWidth 16) 2
        (if mode = .read then MODE_WRITE else MODE_READ) := by
  unfold prepareTransfer bufferForChannel at prepared
  split at prepared
  · cases prepared
  · next buffer here =>
      obtain ⟨two, same⟩ := Option.ite_none_right_eq_some.mp here
      obtain rfl := Option.some.inj same
      obtain ⟨_, _, prepared⟩ := bind_eq_ok prepared
      obtain ⟨_, _, prepared⟩ := bind_eq_ok prepared
      obtain ⟨_, fits, prepared⟩ := bind_eq_ok prepared
      have result := Except.ok.inj prepared
      have fits := kassert_eq_ok fits
      rw [decide_eq_true_eq] at fits
      subst two
      exact ⟨fits, (congrArg Prod.snd result).symm, (congrArg Prod.fst result).symm⟩

/-- The registers behind the writes, whatever they were and however the flip-flop stood. -/
theorem program_transferWrites (c : Controller) (data : Word) (transferCount : BitVec 16)
    (mode : Mode) :
    c.program (transferWrites data transferCount 2 (if mode = .read then MODE_WRITE else MODE_READ)) =
      { highNext := false
        address := ⟨byteAt data 0, byteAt data 8⟩
        count := ⟨byteAt (transferCount.setWidth 64) 0, byteAt (transferCount.setWidth 64) 4⟩
        page := byteAt data 16
        mode := SINGLE_TRANSFER ||| AUTOINCREMENT ||| (if mode = .read then MODE_WRITE else MODE_READ) ||| 2
        masked := false } := by
  cases mode <;> rfl

/-! ## Which transfers are carried out -/

/-- The count that is sent, for a size of 1 to 0x10000. -/
theorem transferCount_toNat {size : BitVec 32} (positive : 1 ≤ size.toNat)
    (fits : size.toNat ≤ 0x10000) :
    (((size - 1#32).setWidth 16).setWidth 64).toNat = size.toNat - 1 := by
  have less : (size - 1#32).toNat = size.toNat - 1 := by
    rw [BitVec.toNat_sub_of_le (show 1#32 ≤ size from positive)]
    rfl
  rw [BitVec.toNat_setWidth, BitVec.toNat_setWidth, less]
  omega

/-- The address arrives whole. -/
theorem startAddress_program (c : Controller) (data : Word) (low : data.toNat < 2 ^ 24)
    (transferCount : BitVec 16) (mode : Mode) :
    (c.program (transferWrites data transferCount 2
      (if mode = .read then MODE_WRITE else MODE_READ))).startAddress = data.toNat := by
  rw [program_transferWrites]
  unfold Controller.startAddress Latch.value
  dsimp only
  rw [byteAt_toNat, byteAt_toNat, byteAt_toNat]
  omega

/-- Of the count, the upper byte is bits 4 to 11. -/
theorem count_program (c : Controller) (data : Word) {size : BitVec 32} (positive : 1 ≤ size.toNat)
    (fits : size.toNat ≤ 0x10000) (mode : Mode) :
    (c.program (transferWrites data ((size - 1#32).setWidth 16) 2
      (if mode = .read then MODE_WRITE else MODE_READ))).count.value =
      (size.toNat - 1) / 16 % 256 * 256 + (size.toNat - 1) % 256 := by
  rw [program_transferWrites]
  unfold Latch.value
  dsimp only
  rw [byteAt_toNat, byteAt_toNat, transferCount_toNat positive fits]
  omega

/-- A prepared transfer is carried out as it was asked for exactly if the three upper
hexadecimal digits of `transfer_size - 1` are the same and the transfer ends inside the
64 KiB that the buffer starts in. -/
theorem carries_iff {tables : Paging.State} {channel : Nat} {data size : Word} {b : Buffer}
    (registered : setBufferForChannel tables channel data size = .ok b)
    {transferSize : BitVec 32} (positive : 1 ≤ transferSize.toNat) {mode : Mode}
    {writes : List PortWrite} {address : Word}
    (prepared : prepareTransfer b channel transferSize mode = .ok (writes, address))
    (c : Controller) :
    (c.program writes).Carries data.toNat transferSize.toNat ↔
      (transferSize.toNat - 1) / 2 ^ 4 % 2 ^ 8 = (transferSize.toNat - 1) / 2 ^ 8 ∧
        data.toNat % 2 ^ 16 + transferSize.toNat ≤ 2 ^ 16 := by
  obtain ⟨-, rfl, low⟩ := setBufferForChannel_ok registered
  obtain ⟨fits, -, rfl⟩ := prepareTransfer_writes prepared
  have starts := startAddress_program c data low ((transferSize - 1#32).setWidth 16) mode
  have counts := count_program c data positive fits mode
  constructor
  · intro carries
    have told := carries.counts
    have inside := carries.inside
    rw [counts] at told
    exact ⟨by omega, by omega⟩
  · rintro ⟨digits, ends⟩
    refine ⟨starts, ?_, by omega⟩
    rw [counts]
    omega

/-- With the tables of the kernel image, 64 KiB of low memory can be registered. -/
theorem sampleKernel_registers :
    setBufferForChannel Paging.sampleKernel 2 0x20000#64 0x10000#64 =
      .ok ⟨0x20000#64, 0x10000#64⟩ := by
  have registers : completesWith
      (setBufferForChannel Paging.sampleKernel 2 0x20000#64 0x10000#64) (fun _ => true) = true := by
    decide +kernel
  obtain ⟨b, registered, -⟩ := exists_of_completesWith registers
  obtain ⟨-, rfl, -⟩ := setBufferForChannel_ok registered
  exact registered

/-- The 64 KiB at 0x20000, with the tables of the kernel image, and the transfer of all of
them. -/
theorem carries_whole_buffer : ∃ b writes address,
    setBufferForChannel Paging.sampleKernel 2 0x20000#64 0x10000#64 = .ok b ∧
      prepareTransfer b 2 0x10000#32 .read = .ok (writes, address) ∧
      (Controller.program ⟨true, ⟨1, 2⟩, ⟨3, 4⟩, 5, 6, false⟩ writes).Carries 0x20000 0x10000 := by
  have prepared : prepareTransfer ⟨0x20000#64, 0x10000#64⟩ 2 0x10000#32 .read = .ok (_, _) := rfl
  have carried := carries_iff sampleKernel_registers (by decide) prepared ⟨true, ⟨1, 2⟩, ⟨3, 4⟩, 5, 6, false⟩
  exact ⟨_, _, _, sampleKernel_registers, prepared, carried.mpr (by decide)⟩

/-- For the first sector of the disk the controller is told to carry 0x2000 bytes. -/
theorem carries_too_much : ∃ b writes address,
    setBufferForChannel Paging.sampleKernel 2 0x20000#64 0x10000#64 = .ok b ∧
      prepareTransfer b 2 512#32 .read = .ok (writes, address) ∧
      (Controller.program ⟨false, ⟨0, 0⟩, ⟨0, 0⟩, 0, 0, true⟩ writes).count.value = 0x1FFF ∧
      ¬ (Controller.program ⟨false, ⟨0, 0⟩, ⟨0, 0⟩, 0, 0, true⟩ writes).Carries 0x20000 512 := by
  have prepared : prepareTransfer ⟨0x20000#64, 0x10000#64⟩ 2 512#32 .read = .ok (_, _) := rfl
  have told := count_program ⟨false, ⟨0, 0⟩, ⟨0, 0⟩, 0, 0, true⟩ 0x20000#64
    (show 1 ≤ (512#32).toNat by decide) (by decide) .read
  refine ⟨_, _, _, sampleKernel_registers, prepared, told, fun carries => ?_⟩
  exact absurd (told.symm.trans carries.counts) (by decide)

end Tyleros.Dma
