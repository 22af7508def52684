import Mathlib.Tactic

/-!
# Constants of `config.h`, `status.h` and the C integers

* the status codes of `status.h`, all positive; the code returns their negatives;
* `Fault`: what a function of the kernel does instead of returning when it leaves the defined
  behaviour of C (an access outside an object, a null pointer followed, a division by zero, a
  loop without an end);
* `cint`, `cuint`: the value an `int` or a `uint32_t` takes when an exact integer is stored in
  it.  The kernel is compiled with `-O0` for a 32-bit two's complement machine, so an `int` wraps.
-/

namespace LameOS

/-! ## status codes -/

abbrev OK : Int := 0
abbrev EIO : Int := 1
abbrev EINVARG : Int := 2
abbrev ENOMEM : Int := 3
abbrev EBADPATH : Int := 4
abbrev EFSNOTUS : Int := 5
abbrev ERDONLY : Int := 6
abbrev EUNIMP : Int := 7
abbrev EISTKN : Int := 8

/-! ## sizes -/

/-- `LAMEOS_HEAP_BLOCK_SIZE` -/
abbrev heapBlockSize : Nat := 4096
/-- `LAMEOS_HEAP_SIZE_BYTES` -/
abbrev heapSizeBytes : Nat := 104857600
/-- `LAMEOS_HEAP_ADDRESS` -/
abbrev heapAddress : Nat := 0x01000000
/-- `LAMEOS_SECTOR_SIZE` -/
abbrev sectorSize : Nat := 512
/-- `LAMEOS_MAX_FILE_DESCRIPTORS` -/
abbrev maxFileDescriptors : Nat := 512
/-- `LAMEOS_MAX_PATH` -/
abbrev maxPath : Nat := 108
/-- `LAMEOS_MAX_PROCESSES` -/
abbrev maxProcesses : Nat := 12

/-! ## faults -/

/-- how a function of the kernel leaves the defined behaviour of C -/
inductive Fault where
  | outOfBounds
  | nullPointer
  | divideByZero
  | endlessLoop
  deriving DecidableEq, Repr

/-! ## machine integers -/

/-- the value of an `int` that `x` is stored in -/
def cint (x : Int) : Int := Int.bmod x 4294967296

/-- the value of a `uint32_t` that `x` is stored in -/
def cuint (x : Int) : Nat := (x % 4294967296).toNat

theorem cint_of_range {x : Int} (h0 : -2147483648 ≤ x) (h1 : x < 2147483648) : cint x = x := by
  unfold cint
  rw [Int.bmod_def]
  split <;> omega

theorem cint_nat {x : Nat} (h : x < 2147483648) : cint x = x :=
  cint_of_range (by omega) (by omega)

theorem cint_range (x : Int) : -2147483648 ≤ cint x ∧ cint x < 2147483648 := by
  unfold cint
  rw [Int.bmod_def]
  split <;> omega

theorem cint_neg_of_big {x : Int} (h0 : 2147483648 ≤ x) (h1 : x < 4294967296) :
    cint x = x - 4294967296 := by
  unfold cint
  rw [Int.bmod_def]
  split <;> omega

theorem cuint_nat {x : Nat} (h : x < 4294967296) : cuint x = x := by
  unfold cuint
  omega

theorem cuint_cint (x : Int) : cuint (cint x) = cuint x := by
  unfold cuint cint
  rw [Int.bmod_def]
  split <;> omega

theorem cuint_cint_add (x y : Int) : cuint (cint (cint x + y)) = cuint (x + y) := by
  unfold cuint cint
  rw [Int.bmod_def, Int.bmod_def]
  split <;> split <;> omega

theorem cuint_lt (x : Int) : cuint x < 4294967296 := by
  unfold cuint
  omega

end LameOS
