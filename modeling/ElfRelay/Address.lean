/-! Addresses and sizes: sums of 64-bit words that stop at the greatest word, rounding to
page boundaries, and regions of the address space. Everything else on words wraps. -/
namespace ElfRelay

/-- The least multiple of `align` that is not below `value`. -/
def roundUp (value align : Nat) : Nat := (value + align - 1) / align * align

def saturatingAdd (a b : UInt64) : UInt64 :=
  if a.toNat + b.toNat < UInt64.size then a + b else 0xffffffffffffffff

theorem toNat_saturatingAdd (a b : UInt64) :
    (saturatingAdd a b).toNat = min (a.toNat + b.toNat) (UInt64.size - 1) := by
  unfold saturatingAdd
  split
  · next fits => rw [UInt64.toNat_add, Nat.mod_eq_of_lt fits]; omega
  · rw [show (0xffffffffffffffff : UInt64).toNat = UInt64.size - 1 from rfl]; omega

def signed (word : UInt64) : Int := word.toInt64.toInt

def signed32 (word : UInt32) : Int := word.toInt32.toInt

structure PageSize where
  bytes : UInt64
  powerOfTwo : bytes ≠ 0 ∧ bytes &&& (bytes - 1) = 0

namespace PageSize

def ofWord? (size : UInt64) : Option PageSize :=
  if h : size ≠ 0 ∧ size &&& (size - 1) = 0 then some ⟨size, h⟩ else none

/-- The start of the page that holds `address`. -/
def floor (page : PageSize) (address : UInt64) : UInt64 := address &&& ~~~(page.bytes - 1)

/-- The first page boundary at or above `address`; in the last page of the
address space, where there is none, the start of that page. -/
def ceil (page : PageSize) (address : UInt64) : UInt64 :=
  page.floor (saturatingAdd address (page.bytes - 1))

end PageSize

structure Region where
  address : UInt64
  length : UInt64
  deriving DecidableEq, Repr

namespace Region

/-- Whether a region takes in `length` bytes from `start` on. The end of what
is asked for saturates, so a range that runs past the address space is never
taken in by a region that ends before. -/
def contains (region : Region) (start length : UInt64) : Bool :=
  region.address ≤ start && saturatingAdd start length ≤ region.address + region.length

/-- Whether every address of a range, counted without wrapping, is in the region. -/
def encloses (region : Region) (start length : UInt64) : Bool :=
  region.address.toNat ≤ start.toNat &&
    start.toNat + length.toNat ≤ region.address.toNat + region.length.toNat

end Region

end ElfRelay
