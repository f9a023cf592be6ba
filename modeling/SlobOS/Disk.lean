import SlobOS.Config

/-!
# The disk

`disk/disk.c` and `disk/streamer.c`. A position on the disk is an `int`; the sector that it lies in is
read to a buffer on the stack.
-/

namespace SlobOS

def slobosSectorSize : Int := 512

/-- What the controller delivers for a sector. The indices outside of the sector are the bytes around
the buffer. -/
structure Disk where
  sector : Nat → Int → UInt8

/-- `disk_read_block` for one sector of the only disk: the result, and the buffer. -/
def diskReadBlock (disk : Disk) (lba : Nat) : Int × (Int → UInt8) := (0, disk.sector lba)

/-- The outcome of `diskstreamer_read`, with the bytes that are stored and the position it leaves. -/
structure StreamRead where
  res : Int
  bytes : List UInt8
  pos : Int

/-- Each round reads from one sector. It takes at least one byte when another one follows, so `left`
does not run out when it exceeds the total. -/
def diskstreamerReadLoop (disk : Disk) : Nat → Int → Int → StreamRead
  | 0, pos, _ => { res := 0, bytes := [], pos := pos }
  | left + 1, pos, total =>
      let sector := (pos.tdiv slobosSectorSize % addressSpace).toNat
      let offset := pos.tmod slobosSectorSize
      let overflow := offset + total ≥ slobosSectorSize
      let totalToRead := if overflow then total - (offset + total - slobosSectorSize) else total
      let (res, buf) := diskReadBlock disk sector
      if res < 0 then { res := res, bytes := [], pos := pos }
      else
        let bytes := (List.range totalToRead.toNat).map fun i : Nat => buf (offset + i)
        let pos := toInt32 (pos + totalToRead)
        if overflow then
          let rest := diskstreamerReadLoop disk left pos (total - totalToRead)
          { rest with bytes := bytes ++ rest.bytes }
        else { res := res, bytes := bytes, pos := pos }

def diskstreamerRead (disk : Disk) (pos total : Int) : StreamRead :=
  diskstreamerReadLoop disk (total.toNat + 1) pos total

end SlobOS
