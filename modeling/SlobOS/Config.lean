import Mathlib.Tactic.Common

/-!
# Constants and 32-bit words

The values of `config.h` and `status.h`, and the two readings of a 32-bit word. An address is a
natural number below `0x100000000`; the kernel runs on an identity mapping, so virtual and physical
addresses are not told apart here.
-/

namespace SlobOS

def addressSpace : Nat := 0x100000000

def toUint32 (value : Nat) : Nat := value % addressSpace

def toInt32 (value : Int) : Int := value.bmod addressSpace

theorem toInt32_of_range {value : Int} (hge : -0x80000000 ≤ value) (hlt : value < 0x80000000) :
    toInt32 value = value := by
  simp only [toInt32, addressSpace, Int.bmod]
  omega

/-! ### `config.h` -/

def slobosHeapSizeBytes : Nat := 104857600
def slobosHeapBlockSize : Nat := 4096
def slobosHeapAddress : Nat := 0x02000000
def slobosHeapTableAddress : Nat := 0x00007E00
def slobosMaxFileDescriptors : Nat := 512
def slobosMaxPath : Nat := 108
def slobosProgramVirtualAddress : Nat := 0x400000
def slobosUserProgramStackSize : Nat := 1024 * 16
def slobosProgramVirtualStackAddressStart : Nat := 0x3FF000
def slobosProgramVirtualStackAddressEnd : Nat :=
  slobosProgramVirtualStackAddressStart - slobosUserProgramStackSize
def slobosMaxProgramAllocations : Nat := 1024
def slobosMaxProcesses : Nat := 12
def userDataSegment : Nat := 0x23
def userCodeSegment : Nat := 0x1b

/-! ### `status.h` -/

def slobosAllOk : Int := 0
def eio : Int := 1
def einvarg : Int := 2
def enomem : Int := 3
def efsnotus : Int := 5
def eunimp : Int := 7
def eistkn : Int := 8
def einformat : Int := 9

end SlobOS
