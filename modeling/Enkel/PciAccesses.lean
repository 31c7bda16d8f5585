import Enkel.PciConfig

/-!
When reads and writes of a PCI register meet it. A write reaches the register
when the address that is used is the register's and is mapped to itself; a read
loads from the window that AcpiOsMapMemory opens, which shows the bytes at the
address used. The bytes may be anything, so a word of the wrong length or from
the wrong place is not the register.
-/
namespace Enkel.PciConfig

open Outcome Paging FileMapping TranslatedMemory ByteMemory

/-- For every content of memory: a read gives the bytes of the register, a write changes
them and no others, and a read after a write gives what was written. -/
structure AccessesRegister (depth : ℕ) (table : List McfgAllocation) (pciId : PciId)
    (register width base : ℕ) (k : KernelMemory) : Prop where
  read : ∀ ram value, ∃ m', (⟨k, ram⟩ : Machine).acpiOsReadPciConfiguration depth table pciId
    register value width =
      .ok (.ok, readWord ram (registerAddress base pciId register) (width / 8), m')
  write : ∀ ram value, value < 2 ^ 64 →
    (⟨k, ram⟩ : Machine).acpiOsWritePciConfiguration table pciId register value width =
      .ok (.ok, ⟨k, overlay (registerAddress base pciId register) (digit value) (width / 8) ram⟩)
  readBack : ∀ ram old value, value < 2 ^ 64 → ∃ m' m'',
    (⟨k, ram⟩ : Machine).acpiOsWritePciConfiguration table pciId register value width =
      .ok (.ok, m') ∧
    m'.acpiOsReadPciConfiguration depth table pciId register old width =
      .ok (.ok, value % 2 ^ width, m'')

/-- The register is one of those that are met: neither a byte nor behind the first 256 bytes
nor between two words of 32 bits. It is mapped to itself, and AcpiOsMapMemory finds a
window for it in the lower half that AcpiOsUnmapMemory closes again. -/
structure Met (depth : ℕ) (pciId : PciId) (register width base : ℕ) (k : KernelMemory) :
    Prop where
  width_ne : width ≠ 8
  register_lt : register < 2 ^ 8
  aligned : register % 4 = 0
  address_ne : registerAddress base pciId register ≠ 0
  address_lt : registerAddress base pciId register < 2 ^ 48
  identity : Linear (translate k) (registerAddress base pciId register)
    (registerAddress base pciId register) (width / 8)
  window : ∃ v k', acpiOsMapMemory depth (registerAddress base pciId register) pageSize k =
    .ok (v, k') ∧ v + width / 8 ≤ 2 ^ 47 ∧ Succeeds (acpiOsUnmapMemory depth v pageSize k')

section Window
variable {depth location v n : ℕ} {k k' : KernelMemory}

/-- What AcpiOsMapMemory of a page maps: two pages, from the one of the location on. -/
theorem called_of_map (hk : Running k) (hlocation : location < 2 ^ 52)
    (h : acpiOsMapMemory depth location pageSize k = .ok (v, k')) :
    ∃ a, v = add64 a (location - (location &&& pageMask)) ∧ a < 2 ^ 48 ∧
      (location < 2 ^ 48 → a + 0x2000 ≤ pageMask ∧
        ∀ n, v + n ≤ 2 ^ 47 → n ≤ 8 → Linear (translate k') v location n) := by
  have hmask := and_pageMask location
  have hle := and_pageMask_le location
  have hoffset : sub64 location (location &&& pageMask) = location - (location &&& pageMask) :=
    sub64_of_le hle (by omega)
  unfold acpiOsMapMemory at h
  obtain ⟨⟨a, k1⟩, halloc, h⟩ := bind_eq_ok.mp h
  cases h
  have hmap := physicalAlloc_eq_ok halloc
  have hsize : mappedSize pageSize (sub64 location (location &&& pageMask)) < 2 ^ 64 := by
    have := and_pageMask_lt (add64 (add64 pageSize (sub64 location (location &&& pageMask))) pageSize)
    unfold mappedSize
    omega
  obtain ⟨hk', kt, hc⟩ := mapPages_eq_ok hk.ok hsize hmap
  refine ⟨a, by rw [hoffset], hc.virtual_page.lt, fun hlt => ?_⟩
  have htwo : mappedSize pageSize (sub64 location (location &&& pageMask)) = 0x2000 := by
    rw [hoffset]
    unfold mappedSize add64
    rw [and_pageMask]
    simp only [pageSize]
    omega
  rw [htwo] at hc
  have ha := hc.virtual_page.lt
  have hturns : callTurns a 0x2000 = 2 := by
    rw [callTurns_of_lt hc.virtual_page (by decide) (by omega)]
  obtain ⟨-, hend, -⟩ := hc.bounds (by omega)
  refine ⟨hend, fun n hlow hn i hi => ?_⟩
  have hv : add64 a (location - (location &&& pageMask)) = a + location % 4096 := by
    unfold add64
    omega
  rw [hoffset, hv] at hlow ⊢
  have hlin := linear_of_called hc hk.ok hk' hk.cr3 (by decide) hend
    (show location % 4096 + n ≤ 0x2000 by omega) (by omega)
  have hat := hlin (location % 4096 + i) (by omega)
  rw [← Nat.add_assoc] at hat
  rw [hat]
  exact congrArg some (by omega)

end Window

section Accesses
variable {depth register width base value address : ℕ} {table : List McfgAllocation}
  {pciId : PciId} {k : KernelMemory} {ram : ℕ → UInt8} {m : Machine}

/-- The number of bytes that a read loads. -/
def loadedBytes (width : ℕ) : ℕ := if width = 8 then 8 else width / 8

theorem IsRegister.bytes (h : IsRegister table pciId register width base) :
    0 < width / 8 ∧ width / 8 ≤ 8 ∧ 0 < loadedBytes width ∧ loadedBytes width ≤ 8 ∧
      256 ^ (width / 8) = 2 ^ width := by
  rcases h.width_eq with rfl | rfl | rfl | rfl <;> decide

theorem Machine.load_eq_ok_iff {n : ℕ} :
    m.load address n = .ok value ↔ loadWord (translate m.memory) m.ram address n = some value := by
  unfold Machine.load
  cases loadWord (translate m.memory) m.ram address n <;> simp

/-- Masking the old word leaves nothing of it. -/
theorem Machine.replace_eq (hwidth : 256 ^ (width / 8) = 2 ^ width) (hle : width ≤ 64) :
    m.replace address value width = m.store address value (width / 8) := by
  unfold Machine.replace Machine.load
  cases hload : loadWord (translate m.memory) m.ram address (width / 8) with
  | none =>
    have hstore : storeWord (translate m.memory) address value (width / 8) m.ram = none := by
      rw [← Option.not_isSome_iff_eq_none, storeWord_isSome_iff, ← loadWord_isSome_iff, hload]
      exact Bool.false_ne_true
    unfold Machine.store
    rw [hstore]
    rfl
  | some old =>
    have hold : old &&& (2 ^ 64 - 2 ^ width) = 0 := by
      have hlt := loadWord_lt hload
      have hspan := Words.and_span old hle
      rw [hwidth] at hlt
      unfold Words.span at hspan
      rw [hspan, Nat.div_eq_of_lt hlt, Nat.zero_mod, Nat.zero_mul]
    simp only [ok_bind]
    rw [hold, Nat.zero_or, ← hwidth]
    unfold Machine.store
    rw [storeWord_mod]

/-- A write stores the bytes of the register at the address used. -/
theorem IsRegister.write_eq (h : IsRegister table pciId register width base) :
    m.acpiOsWritePciConfiguration table pciId register value width =
      m.store (usedAddress base pciId register) value (width / 8) >>= fun m => .ok (.ok, m) := by
  have hbytes := h.bytes.2.2.2.2
  unfold Machine.acpiOsWritePciConfiguration
  rw [h.targetAddress_eq, ok_bind]
  split_ifs with hnarrow hwide
  · rw [Machine.replace_eq hbytes (by omega)]
    rfl
  · rw [hwide]
    rfl
  · have := h.width_eq
    tauto

/-- A read maps the address used, loads from the window and closes it. -/
theorem IsRegister.read_eq_ok_iff (h : IsRegister table pciId register width base) {x : ℕ} :
    (∃ m', m.acpiOsReadPciConfiguration depth table pciId register value width =
        .ok (.ok, x, m')) ↔
      usedAddress base pciId register ≠ 0 ∧ ∃ v k',
        acpiOsMapMemory depth (usedAddress base pciId register) pageSize m.memory = .ok (v, k') ∧
        loadWord (translate k') m.ram v (loadedBytes width) = some x ∧
        Succeeds (acpiOsUnmapMemory depth v pageSize k') := by
  have hload : ∀ (m : Machine) (v : ℕ),
      (if width = 8 then m.load v 8 else if width = 16 then m.load v 2
        else if width = 32 then m.load v 4 else if width = 64 then m.load v 8
        else pure value : Except Stop ℕ) = m.load v (loadedBytes width) := by
    intro m v
    rcases h.width_eq with rfl | rfl | rfl | rfl <;> rfl
  unfold Machine.acpiOsReadPciConfiguration
  rw [h.targetAddress_eq, ok_bind]
  simp only [hload]
  by_cases hzero : usedAddress base pciId register = 0
  · rw [if_pos hzero]
    constructor
    · rintro ⟨m', hm'⟩
      cases hm'
    · rintro ⟨hne, -⟩
      exact absurd hzero hne
  · rw [if_neg hzero]
    constructor
    · rintro ⟨m', hm'⟩
      obtain ⟨⟨v, k'⟩, hmap, hm'⟩ := bind_eq_ok.mp hm'
      obtain ⟨y, hy, hm'⟩ := bind_eq_ok.mp hm'
      obtain ⟨k'', hunmap, hm'⟩ := bind_eq_ok.mp hm'
      cases hm'
      exact ⟨hzero, v, k', mapError_eq_ok.mp hmap, Machine.load_eq_ok_iff.mp hy,
        ⟨k'', mapError_eq_ok.mp hunmap⟩⟩
    · rintro ⟨-, v, k', hmap, hload, ⟨k'', hunmap⟩⟩
      refine ⟨⟨k'', m.ram⟩, bind_eq_ok.mpr ⟨(v, k'), mapError_eq_ok.mpr hmap,
        bind_eq_ok.mpr ⟨x, Machine.load_eq_ok_iff.mpr hload,
          bind_eq_ok.mpr ⟨k'', mapError_eq_ok.mpr hunmap, rfl⟩⟩⟩⟩

/-- A byte that is set alone reads as a power of 256 from where its word starts. -/
theorem readWord_single {a i n : ℕ} (ha : a + n ≤ 2 ^ 64) :
    readWord (fun x => if x = a + i then 1 else 0) a n = 256 ^ i % 256 ^ n := by
  apply readWord_of_digits
  intro j hj
  rw [digit_pow, Nat.mod_eq_of_lt (by omega)]
  by_cases h : j = i
  · rw [if_pos h, if_pos (by omega)]
  · rw [if_neg h, if_neg (by omega)]

/-- Before the byte that is set alone everything reads as zero. -/
theorem readWord_before {a b n : ℕ} (hlt : a < b) (hb : b + n ≤ 2 ^ 64) :
    readWord (fun x => if x = a then 1 else 0) b n = 0 := by
  have hzero : readWord (fun x => if x = a then 1 else 0) b n = 0 % 256 ^ n := by
    apply readWord_of_digits
    intro j hj
    rw [Nat.mod_eq_of_lt (by omega), if_neg (by omega)]
    unfold digit
    rw [Nat.zero_div]
    rfl
  rw [hzero, Nat.zero_mod]

/-- The window through which a read that returns has looked. -/
theorem AccessesRegister.window (h : AccessesRegister depth table pciId register width base k)
    (hregister : IsRegister table pciId register width base) (hk : Running k) :
    usedAddress base pciId register ≠ 0 ∧ usedAddress base pciId register < 2 ^ 48 ∧ ∃ v k',
      acpiOsMapMemory depth (usedAddress base pciId register) pageSize k = .ok (v, k') ∧
      v + loadedBytes width ≤ 2 ^ 47 ∧ Succeeds (acpiOsUnmapMemory depth v pageSize k') ∧
      ∀ ram, readWord ram (usedAddress base pciId register) (loadedBytes width) =
        readWord ram (registerAddress base pciId register) (width / 8) := by
  obtain ⟨-, -, hpos, hle, -⟩ := hregister.bytes
  have hused := hregister.usedAddress_le
  have haddress := hregister.registerAddress_lt
  obtain ⟨hne, v, k', hmap, hload, hunmap⟩ :=
    hregister.read_eq_ok_iff.mp (h.read (fun _ => 0) 0)
  obtain ⟨a, hv, ha, hwindow⟩ := called_of_map hk (by omega) hmap
  have hsome : ∀ i < loadedBytes width, (translate k' ((v + i) % 2 ^ 64)).isSome :=
    loadWord_isSome_iff.mp (Option.isSome_of_eq_some hload)
  have hlow : usedAddress base pciId register < 2 ^ 48 := by
    by_contra hhigh
    have hcanonical := canonical_of_translate (hsome 0 hpos)
    rw [hv, and_pageMask] at hcanonical
    unfold add64 Canonical at hcanonical
    omega
  obtain ⟨hend, hlinear⟩ := hwindow hlow
  have hvlt : v + loadedBytes width ≤ 2 ^ 48 := by
    have hend : a + 0x2000 ≤ 0xFFFFFFFFF000 := hend
    rw [hv, and_pageMask]
    unfold add64
    omega
  have hv47 := end_le_of_translated hvlt hpos hsome
  refine ⟨hne, hlow, v, k', hmap, hv47, hunmap, fun ram => ?_⟩
  obtain ⟨-, v', k'', hmap', hload', -⟩ := hregister.read_eq_ok_iff.mp (h.read ram 0)
  obtain ⟨rfl, rfl⟩ := Prod.mk.inj (Except.ok.inj (hmap.symm.trans hmap'))
  rw [(hlinear _ hv47 hle).loadWord (by omega)] at hload'
  exact Option.some.inj hload'

/-- A byte below the register is read in its place. -/
theorem AccessesRegister.usedAddress_eq
    (h : AccessesRegister depth table pciId register width base k)
    (hregister : IsRegister table pciId register width base) (hk : Running k) :
    usedAddress base pciId register = registerAddress base pciId register := by
  obtain ⟨hbytes, hbytes8, hpos, hle, -⟩ := hregister.bytes
  have hused := hregister.usedAddress_le
  have haddress := hregister.registerAddress_lt
  obtain ⟨-, -, v, k', -, -, -, hvalue⟩ := h.window hregister hk
  by_contra hdiff
  have hone := hvalue fun x => if x = usedAddress base pciId register + 0 then 1 else 0
  rw [readWord_single (by omega), Nat.add_zero, readWord_before (by omega) (by omega),
    pow_zero, Nat.mod_eq_of_lt (Nat.one_lt_pow hpos.ne' (by decide))] at hone
  exact absurd hone Nat.one_ne_zero

/-- A word that is read as a byte has seven more. -/
theorem AccessesRegister.width_ne
    (h : AccessesRegister depth table pciId register width base k)
    (hregister : IsRegister table pciId register width base) (hk : Running k) : width ≠ 8 := by
  have hsame := h.usedAddress_eq hregister hk
  have haddress := hregister.registerAddress_lt
  obtain ⟨-, -, v, k', -, -, -, hvalue⟩ := h.window hregister hk
  rintro rfl
  have hsecond := hvalue fun x => if x = registerAddress base pciId register + 1 then 1 else 0
  have hloaded : loadedBytes 8 = 8 := rfl
  rw [hsame, hloaded, readWord_single (by omega), readWord_single (by omega)] at hsecond
  exact absurd hsecond (by decide)

/-- The accesses meet the register exactly in the cases above. -/
theorem accessesRegister_iff_met (hregister : IsRegister table pciId register width base)
    (hk : Reachable k) :
    AccessesRegister depth table pciId register width base k ↔
      Met depth pciId register width base k := by
  obtain ⟨hbytes, hbytes8, hpos, hle, hpow⟩ := hregister.bytes
  have haddress := hregister.registerAddress_lt
  constructor
  · intro h
    have hsame := h.usedAddress_eq hregister hk.running
    have hwidth := h.width_ne hregister hk.running
    obtain ⟨hne, hlow, v, k', hmap, hv47, hunmap, -⟩ := h.window hregister hk.running
    obtain ⟨hlt, haligned⟩ := hregister.usedAddress_eq_iff.mp hsame
    rw [hsame] at hne hlow hmap
    have hloaded : loadedBytes width = width / 8 := if_neg hwidth
    rw [hloaded] at hv47
    refine ⟨hwidth, hlt, haligned, hne, hlow, linear_of_storeWord fun value hvalue => ?_,
      v, k', hmap, hv47, hunmap⟩
    have hvalue64 : value < 2 ^ 64 := by
      have hwidths := hregister.width_eq
      have hpow64 : 2 ^ width ≤ 2 ^ 64 := Nat.pow_le_pow_right (by decide) (by omega)
      omega
    have hwrite := h.write (fun _ => 0) value hvalue64
    rw [hregister.write_eq, hsame] at hwrite
    obtain ⟨m, hstore, hm⟩ := bind_eq_ok.mp hwrite
    cases hm
    unfold Machine.store at hstore
    cases hword : storeWord (translate k) (registerAddress base pciId register) value (width / 8)
        (fun _ => 0) with
    | none =>
      simp only [hword] at hstore
      cases hstore
    | some ram =>
      simp only [hword] at hstore
      exact congrArg (fun m : Machine => some m.ram) (Except.ok.inj hstore)
  · rintro ⟨hwidth, hlt, haligned, hne, hlow, hidentity, v, k', hmap, hv47, hunmap⟩
    have hsame := hregister.usedAddress_eq_iff.mpr ⟨hlt, haligned⟩
    have hloaded : loadedBytes width = width / 8 := if_neg hwidth
    have hread : ∀ ram value, ∃ m',
        (⟨k, ram⟩ : Machine).acpiOsReadPciConfiguration depth table pciId register value width =
          .ok (.ok, readWord ram (registerAddress base pciId register) (width / 8), m') := by
      intro ram value
      apply hregister.read_eq_ok_iff.mpr
      rw [hsame, hloaded]
      obtain ⟨a, hv, ha, hwindow⟩ := called_of_map hk.running (by omega) hmap
      exact ⟨hne, v, k', hmap, ((hwindow hlow).2 _ hv47 hbytes8).loadWord (by omega), hunmap⟩
    have hwrite : ∀ ram value,
        (⟨k, ram⟩ : Machine).acpiOsWritePciConfiguration table pciId register value width =
          .ok (.ok, ⟨k, overlay (registerAddress base pciId register) (digit value)
            (width / 8) ram⟩) := by
      intro ram value
      rw [hregister.write_eq, hsame]
      unfold Machine.store storeWord
      simp only [hidentity.storeBytes, ok_bind]
    refine ⟨hread, fun ram value _ => hwrite ram value, fun ram old value _ => ?_⟩
    obtain ⟨m', hm'⟩ := hread (overlay (registerAddress base pciId register) (digit value)
      (width / 8) ram) old
    have hback : readWord (overlay (registerAddress base pciId register) (digit value)
        (width / 8) ram) (registerAddress base pciId register) (width / 8) =
          value % 256 ^ (width / 8) := by
      apply readWord_of_digits
      intro i hi
      rw [Nat.mod_eq_of_lt (by omega), overlay_add, if_pos hi]
    refine ⟨_, m', hwrite ram value, ?_⟩
    rw [hm', hback, hpow]

end Accesses

section Example

/-- One segment with all buses, at the address that an emulated machine puts it. -/
def exampleTable : List McfgAllocation := [⟨0xB0000000, 0, 255⟩]

def hostBridge : PciId := ⟨0, 0, 0⟩

theorem isRegister_hostBridge {register : ℕ} (hlt : register < 2 ^ 12) (haligned : register % 4 = 0) :
    IsRegister exampleTable hostBridge register 32 0xB0000000 where
  segment := ⟨⟨0xB0000000, 0, 255⟩, rfl, rfl, rfl⟩
  base_le := by decide
  bus_lt := by decide
  device_lt := by decide
  function_lt := by decide
  register_lt := hlt
  width_eq := by decide
  aligned := haligned

theorem exists_reachable : ∃ k, Reachable k := by
  obtain ⟨k, hm⟩ := exists_machineRunning 16 (by decide) (by decide +kernel)
  exact ⟨k, hm.reachable⟩

theorem accessesRegister_iff_met_vendor :
    ∃ k, Reachable k ∧ (AccessesRegister 0 exampleTable hostBridge 0 32 0xB0000000 k ↔
      Met 0 hostBridge 0 32 0xB0000000 k) := by
  obtain ⟨k, hk⟩ := exists_reachable
  exact ⟨k, hk, accessesRegister_iff_met (isRegister_hostBridge (by decide) (by decide)) hk⟩

/-- The first register behind the first 256 bytes is taken for register zero. -/
theorem extended_register_missed :
    ∃ k, Reachable k ∧ IsRegister exampleTable hostBridge 0x100 32 0xB0000000 ∧
      ¬ AccessesRegister 0 exampleTable hostBridge 0x100 32 0xB0000000 k := by
  obtain ⟨k, hk⟩ := exists_reachable
  have hregister : IsRegister exampleTable hostBridge 0x100 32 0xB0000000 :=
    isRegister_hostBridge (by decide) (by decide)
  refine ⟨k, hk, hregister, fun h => ?_⟩
  have hsame := h.usedAddress_eq hregister hk.running
  exact absurd (hregister.usedAddress_eq_iff.mp hsame).1 (by decide)

end Example

end Enkel.PciConfig
