/-
  On-disk layout of the journal (`journal40.h`), and the journal entity.

  All fields are little-endian.  The header block names the newest committed transaction; the footer
  block names the newest flushed one and keeps three counters of it.  A transaction is a header block
  (`TxMagic4`) and a circular chain of log record blocks (`LogMagc4`), each with an array of
  (original, wandered) pairs that ends at the first zero wandered number or at the end of the block.

    header      last_commited @0
    footer      last_flushed @0, free_blocks @8, used_oids @16, next_oid @24
    tx header   magic @0, id @8, total @16, padding @20, prev_tx @24, next_block @32,
                free_blocks @40, used_oids @48, next_oid @56
    log record  magic @0, id @8, total @16, serial @20, next_block @24, then entries of 16 bytes:
                original @0, wandered @8
-/
import Reiser4.Aal
import Reiser4.Lib.Run

namespace Reiser4.Journal40

open Reiser4.Lib

/-! ## Field accessors -/

def getJhLastCommited (d : Bytes) : Nat := d.getLe 8 0
def setJhLastCommited (d : Bytes) (v : Nat) : Bytes := d.setLe 8 0 v

def getJfLastFlushed (d : Bytes) : Nat := d.getLe 8 0
def setJfLastFlushed (d : Bytes) (v : Nat) : Bytes := d.setLe 8 0 v
def getJfFreeBlocks (d : Bytes) : Nat := d.getLe 8 8
def setJfFreeBlocks (d : Bytes) (v : Nat) : Bytes := d.setLe 8 8 v
def getJfUsedOids (d : Bytes) : Nat := d.getLe 8 16
def setJfUsedOids (d : Bytes) (v : Nat) : Bytes := d.setLe 8 16 v
def getJfNextOid (d : Bytes) : Nat := d.getLe 8 24
def setJfNextOid (d : Bytes) (v : Nat) : Bytes := d.setLe 8 24 v

def getThPrevTx (d : Bytes) : Nat := d.getLe 8 24
def getThNextBlock (d : Bytes) : Nat := d.getLe 8 32
def getThFreeBlocks (d : Bytes) : Nat := d.getLe 8 40
def getThUsedOids (d : Bytes) : Nat := d.getLe 8 48
def getThNextOid (d : Bytes) : Nat := d.getLe 8 56

def getLhNextBlock (d : Bytes) : Nat := d.getLe 8 24

/-- `get_le_original` of the entry at offset `o` of a log record. -/
def getLeOriginal (d : Bytes) (o : Nat) : Nat := d.getLe 8 o
/-- `get_le_wandered` of the entry at offset `o` of a log record. -/
def getLeWandered (d : Bytes) (o : Nat) : Nat := d.getLe 8 (o + 8)

/-- `TXH_MAGIC`, the bytes of `TxMagic4`. -/
def txhMagic : List UInt8 := [84, 120, 77, 97, 103, 105, 99, 52]
/-- `LGR_MAGIC`, the bytes of `LogMagc4`. -/
def lgrMagic : List UInt8 := [76, 111, 103, 77, 97, 103, 99, 52]

/-- `sizeof(journal40_lr_header_t)`. -/
def lrHeaderSize : Nat := 32
/-- `sizeof(journal40_lr_entry_t)`. -/
def lrEntrySize : Nat := 16

/-- The number of entries a log record block has room for. -/
def lrCapacity (blksize : Nat) : Nat := (blksize - lrHeaderSize) / lrEntrySize

/-- The roles a block plays in the journal (`journal40_block_t`). -/
inductive BlockType
  | inv | txh | lgr | wan | org
  deriving DecidableEq, Repr

/-! ## The entities -/

/-- The part of the format entity the journal writes to: `sb_free_blocks` and the state flags. -/
structure FormatEnt where
  freeBlocks : Nat
  state : Nat
  deriving DecidableEq, Repr

/-- `format40_set_free`: the super block is dirtied only by a change. -/
def format40SetFree (e : FormatEnt) (blocks : Nat) : FormatEnt :=
  if e.freeBlocks = blocks then e else { freeBlocks := blocks, state := e.state ||| entityDirty }

/-- The part of the oid entity the journal writes to. -/
structure OidEnt where
  next : Nat
  used : Nat
  state : Nat
  deriving DecidableEq, Repr

/-- `oid40_set_next_oid`. -/
def oid40SetNextOid (e : OidEnt) (next : Nat) : OidEnt := { e with next, state := entityDirty }

/-- `oid40_set_used_oid`. -/
def oid40SetUsedOid (e : OidEnt) (used : Nat) : OidEnt := { e with used, state := entityDirty }

/-- `journal40_t`, with the device it is on and the entities it updates. -/
structure Journal where
  blksize : Nat
  state : Nat
  device : Device
  format : FormatEnt
  oid : OidEnt
  header : Block
  footer : Block

namespace Journal

/-- The journal on another state of its device. -/
def withDevice (j : Journal) (dev : Device) : Journal := { j with device := dev }

@[simp] theorem withDevice_device (j : Journal) (dev : Device) : (j.withDevice dev).device = dev := rfl
@[simp] theorem withDevice_blksize (j : Journal) (dev : Device) :
    (j.withDevice dev).blksize = j.blksize := rfl
@[simp] theorem withDevice_header (j : Journal) (dev : Device) :
    (j.withDevice dev).header = j.header := rfl
@[simp] theorem withDevice_footer (j : Journal) (dev : Device) :
    (j.withDevice dev).footer = j.footer := rfl
@[simp] theorem withDevice_format (j : Journal) (dev : Device) :
    (j.withDevice dev).format = j.format := rfl
@[simp] theorem withDevice_oid (j : Journal) (dev : Device) : (j.withDevice dev).oid = j.oid := rfl
@[simp] theorem withDevice_withDevice (j : Journal) (dev dev' : Device) :
    (j.withDevice dev).withDevice dev' = j.withDevice dev' := rfl

end Journal

/-- `journal40_mkdirty`. -/
def journal40Mkdirty (j : Journal) : Journal := { j with state := j.state ||| entityDirty }

@[simp] theorem format40SetFree_freeBlocks (e : FormatEnt) (n : Nat) :
    (format40SetFree e n).freeBlocks = n := by
  unfold format40SetFree
  split
  · assumption
  · rfl

@[simp] theorem journal40Mkdirty_device (j : Journal) :
    (journal40Mkdirty j).device = j.device := rfl
@[simp] theorem journal40Mkdirty_format (j : Journal) :
    (journal40Mkdirty j).format = j.format := rfl
@[simp] theorem journal40Mkdirty_oid (j : Journal) : (journal40Mkdirty j).oid = j.oid := rfl

/-- The state of a traverse: the journal and the data its callbacks share. -/
structure JState (δ : Type) where
  journal : Journal
  data : δ

end Reiser4.Journal40
