import Enkel.Outcome
import Enkel.Words

/-!
Constants and word arithmetic shared by the memory subsystem, and the ways in
which one of its functions can stop. Addresses and sizes are 64-bit words,
written as natural numbers; sums and differences wrap where the source's do.
A failed assertion halts the kernel, so it is an error of the computation.
-/
namespace Enkel

abbrev pageSize : ℕ := 4096

/-- PAGE_MASK keeps bits 12 to 47: page-aligned 48-bit addresses. -/
abbrev pageMask : ℕ := 0xFFFFFFFFF000

abbrev invalidAddress : ℕ := 2 ^ 64 - 1

def add64 (a b : ℕ) : ℕ := (a + b) % 2 ^ 64

def sub64 (a b : ℕ) : ℕ := (a + (2 ^ 64 - b)) % 2 ^ 64

/-- The macro AlignSize for a power of two. -/
def alignSize (value alignment : ℕ) : ℕ :=
  add64 value (alignment - 1) &&& (2 ^ 64 - alignment)

/-- The functions whose assertions or pointer accesses are modelled. -/
inductive Site
  | getFreeLeafState
  | getFreeBranchState
  | getRemaining
  | getLargestFree
  | updateNode
  | tagRangeInternal
  | getPML4FreePage
  | allocateNextFreePageTableEntries
  | mapPages
  | virtualAlloc
  | rpMallocMap
  | rpMallocUnmap
  | sysMemoryMap
deriving DecidableEq, Repr

inductive Fault
  | assertion (site : Site) (message : String)
  /-- The free list of leaf nodes ran empty; the refill is not modelled. -/
  | leafListEmpty
  /-- The free list of branch nodes ran empty; the refill is not modelled. -/
  | branchListEmpty
  /-- A node would be split more often than the source's recursion can. -/
  | splitBound
  /-- The list of free paging structure pages is empty. -/
  | pagingListEmpty
  /-- A write through a null pointer. -/
  | nullPointer (site : Site)
  /-- A write to a page that is not mapped. -/
  | pageFault (site : Site)
  /-- The reserve block is put on the list of free pages a second time. -/
  | blockLinkedTwice
  /-- A page holding a live paging structure loses its frame; what the kernel
  reads there afterwards is the content of some other frame. -/
  | pagingPageRemapped
deriving DecidableEq, Repr

/-- The refills of the tree nodes are outside this model. -/
def Fault.NodeListEmpty (e : Fault) : Prop := e = .leafListEmpty ∨ e = .branchListEmpty

/-- Addresses of whole pages: multiples of PAGE_SIZE. -/
def Aligned (a : ℕ) : Prop := a % 4096 = 0

instance (a : ℕ) : Decidable (Aligned a) := inferInstanceAs (Decidable (_ = _))

theorem and_pageMask (a : ℕ) : a &&& pageMask = a / 4096 % 2 ^ 36 * 4096 :=
  Words.and_span a (show 12 ≤ 48 by omega)

theorem and_pageMask_of_aligned {a : ℕ} (h : Aligned a) (hlt : a < 2 ^ 48) :
    a &&& pageMask = a := by
  rw [and_pageMask]
  unfold Aligned at h
  omega

theorem aligned_and_pageMask (a : ℕ) : Aligned (a &&& pageMask) := by
  rw [and_pageMask]
  unfold Aligned
  omega

theorem and_pageMask_lt (a : ℕ) : a &&& pageMask < 2 ^ 48 := by
  rw [and_pageMask]
  omega

theorem and_pageMask_le (a : ℕ) : a &&& pageMask ≤ a := by
  rw [and_pageMask]
  omega

theorem sub64_of_le {a b : ℕ} (h : b ≤ a) (ha : a < 2 ^ 64) : sub64 a b = a - b := by
  unfold sub64
  omega

theorem add64_of_lt {a b : ℕ} (h : a + b < 2 ^ 64) : add64 a b = a + b :=
  Nat.mod_eq_of_lt h

end Enkel
