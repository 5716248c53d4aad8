import StupidOS.Kernel.MmInit

/-!
# The memory that the kernel hands out is memory (`loader.asm`, `kernel.asm`)

What the firmware says about the memory goes through four hands: `memory_get_map` records it in
the boot structure of the loader, `kmain` copies that, `pmm_init` makes a list of free pages of
its field `high_mem`, and `pmm_alloc` takes pages off the list. `kmain_usable` is about all of
them together, with the virtual memory allocator and the descriptor table that `kmain` sets up in
between.
-/

namespace StupidOS.Kernel

open Boot (BootInfo BootInfoRange E820AddressRange MemoryBios Probe Eligible Delivers)

/-! ## The boot structure in memory -/

/-- A boot structure as it lies in memory. -/
structure BootInfoAt (m : Mem) (a : Word) (info : BootInfo) : Prop where
  base : ∀ i, i < 80 → m.read32 (a + BitVec.ofNat 32 (8 * i)) = (info.mmap i).base
  length : ∀ i, i < 80 → m.read32 (a + BitVec.ofNat 32 (8 * i + 4)) = (info.mmap i).length
  highMem : m.read32 (a + 648) = info.highMem
  lowMem : m.read32 (a + 652) = info.lowMem

/-- A copy of all of its bytes. -/
theorem BootInfoAt.moved {m m' : Mem} {a b : Word} {info : BootInfo} (hinfo : BootInfoAt m a info)
    (h : ∀ i, i < 656 → m' (b + BitVec.ofNat 32 i) = m (a + BitVec.ofNat 32 i)) :
    BootInfoAt m' b info := by
  refine ⟨?_, ?_, ?_, ?_⟩
  · intro i hi
    rw [Mem.read32_moved h (by omega), hinfo.base i hi]
  · intro i hi
    rw [Mem.read32_moved h (by omega), hinfo.length i hi]
  · exact (Mem.read32_moved h (i := 648) (by decide)).trans hinfo.highMem
  · exact (Mem.read32_moved h (i := 652) (by decide)).trans hinfo.lowMem

/-! ## Runs with small counts -/

variable {K : KernelImage}

theorem searchMeets_of_small {n : Word} (hn : n.toNat < 2 ^ 19) {sizes : List Word}
    (h : ∀ size ∈ sizes, size.toNat < 2 ^ 31) : SearchMeets n sizes := by
  induction sizes with
  | nil => trivial
  | cons size sizes ih =>
      refine ⟨?_, fun _ => ih fun size hsize => h size (List.mem_cons_of_mem _ hsize)⟩
      rw [ComparesRight, if_pos hn]
      exact h size List.mem_cons_self

/-- The calls that `pmmStep` allows keep the invariant of the memory that there is. -/
theorem pmmStep_memory {high : Word} {total : Nat} (s : PmmState) (op : PmmOp) (s' : PmmState)
    (h : MemoryReach K high total s) (hstep : pmmStep K s op s') :
    MemoryReach K high total s' := by
  cases op with
  | alloc n =>
      rcases hstep with ⟨hn, hn', hcall⟩
      refine pmmCall_reach s (.alloc n) s' h ?_ ⟨hn, hcall⟩
      intro l hl
      rcases h.1 with ⟨l', htiled⟩
      rw [Chain.unique hl htiled.free.list]
      refine searchMeets_of_small hn' ?_
      intro size hsize
      rcases List.mem_map.mp hsize with ⟨p, hp, rfl⟩
      exact (htiled.good_free hp).small
  | free p n => exact pmmCall_reach s (.free p n) s' h trivial hstep
  | write m => exact pmmCall_reach s (.write m) s' h trivial hstep

/-! ## `kmain` from `mm_bootstrap` on -/

/-- The pool of `vmem.inc` is empty. -/
structure PoolBlank (K : MmImage) (m : Mem) : Prop where
  head : m.read32 (K.vmem.pVmemFreeSegHead - kernelVirtBase) = 0
  count : m.read32 (K.vmem.iVmemFreeSegCount - kernelVirtBase) = 0

/-- It is in the file of the kernel, at `KERNEL_PRELOAD`. -/
structure PoolFile (K : MmImage) (m : Mem) : Prop where
  head : m.read32 (preloaded K.vmem.pVmemFreeSegHead) = 0
  count : m.read32 (preloaded K.vmem.iVmemFreeSegCount) = 0

theorem PoolFile.blank {K : MmImage} {m m' : Mem} (h : PoolFile K m) {n : Nat}
    (hcopy : ∀ i, i < n →
      m' (kernelBase + BitVec.ofNat 32 i) = m (kernelPreload + BitVec.ofNat 32 i))
    (hholds : K.gdt.toNat + 54 ≤ 0xC0100000 + n) : PoolBlank K m' := by
  have hkhi := K.kend_high
  have hgb := K.gdt_boot
  have hbhigh := K.boot_high
  have hheadlow := K.head_low
  have hpoolnat := K.vmem.head_toNat
  have hcountnat := K.vmem.count_toNat
  rcases K.poolPhys with ⟨-, -, hstatics, hend⟩
  have hword : ∀ v : Word, 0xC0100000 ≤ v.toNat → v.toNat + 4 ≤ K.gdt.toNat →
      m'.read32 (v - kernelVirtBase) = m.read32 (preloaded v) := by
    intro v hv hvend
    apply Mem.read32_of_bytes
    intro k hk
    have hto : v - kernelVirtBase + k = v + k - kernelVirtBase := by
      unfold kernelVirtBase
      bv_omega
    have hfrom : preloaded v + k = preloaded (v + k) := by
      unfold preloaded
      bv_omega
    rw [hto, hfrom]
    exact preloaded_copied hcopy (by bv_omega) (by bv_omega)
  exact ⟨(hword _ (by omega) (by omega)).trans h.head,
    (hword _ (by omega) (by omega)).trans h.count⟩

/-- `idt_setup` at the end. -/
theorem Tiled.idt (K : MmImage) {good : Extent → Prop} (hgood : Divisible K.toKernelImage good)
    {total : Nat} {s : PmmState} {l : List Word} (h : Tiled K.toKernelImage good total s l)
    {fuel : Nat} (hfuel : 32 ≤ fuel) :
    ∃ mc, s.mc.inImage (idtSetup K.idt fuel) = some mc ∧
      Tiled K.toKernelImage good total ⟨mc, s.out⟩ l := by
  have hstatics := K.head_statics
  have harena := K.statics_arena
  have hag := K.arena_gdt
  have hgates := K.gdt_gates
  have hboot := K.gates_boot
  have hbhigh := K.boot_high
  have hkhi := K.kend_high
  have hheadlow := K.head_low
  have hheadnat := K.headPhys_toNat
  have hend : K.imageEnd = K.kend.toNat - 0xC0000000 := rfl
  rcases idtSetup_gates K.idt (kernelView s.mc.mem) with ⟨m', hset, hrun⟩
  have hword : ∀ a : Word, a.toNat + 0xC0000004 ≤ K.idt.aInterruptGate.toNat ∨
      K.imageEnd ≤ a.toNat → a.toNat + 4 ≤ 2 ^ 32 →
      Mem.read32 (fun x => m' (x + kernelVirtBase)) a = s.mc.mem.read32 a := by
    intro a hplace hfits
    apply Mem.read32_of_bytes
    intro k hk
    have hoff : 256 * 8 ≤ (a + k + kernelVirtBase - K.idt.aInterruptGate).toNat := by
      unfold kernelVirtBase
      bv_omega
    have hback : a + k + kernelVirtBase - kernelVirtBase = a + k := by bv_omega
    exact (hset.frame _ hoff).trans (congrArg s.mc.mem hback)
  refine ⟨{ s.mc with mem := fun x => m' (x + kernelVirtBase) }, ?_,
    h.kept hgood (hword _ (Or.inl (by omega)) (by omega)) fun a ha => hword a (Or.inr ha)⟩
  rw [Machine.inImage, hrun fuel hfuel, Option.map_some]

theorem kmainMemory_reach {L : LoaderImage} (K : MmImage) (logs : MmLogs) {mc : Machine}
    (hspace : KmainSpace L mc) (hhead : mc.mem.read32 K.headPhys = 0) (hblank : PoolBlank K mc.mem)
    {low high : Word} (hlow : mc.mem.read32 (K.lowMem - kernelVirtBase) = low)
    (hle : low.toNat < 0x101000)
    (hhigh : mc.mem.read32 (K.highMem - kernelVirtBase) = high) (hmin : 0x804000 ≤ high.toNat)
    (hmax : high.toNat < 0x80800000) (fr : MmFrames) {fuel : Nat} (hfuel : 1024 ≤ fuel) :
    ∃ mc' total, kmainMemory K logs fuel fr mc = some mc' ∧
      MemoryReach K.toKernelImage high total ⟨mc', []⟩ := by
  have hklo := K.kend_low
  have hkhi := K.kend_high
  have hbhigh := K.boot_high
  have hgood := RamBlock.divisible K.toKernelImage high
  rcases K.imageEnd_bounds with ⟨hend, hphys, himage⟩
  rcases lowMem_word (K := K.toKernelImage) with ⟨-, hlnat⟩
  rcases highMem_word (K := K.toKernelImage) with ⟨-, hhnat⟩
  have hheadnat := K.headPhys_toNat
  have hhg := K.head_gdt
  have hgb := K.gdt_boot
  rcases K.poolPhys with ⟨hpnat, hcnat, hparena⟩
  rcases kmainBootstrap_spec K.toKmainImage logs.toKmainLogs hspace hfuel with
    ⟨mc₁, hmc₁, hk, hframe⟩
  -- the variables of the kernel are not touched by `mm_bootstrap`
  have hread : ∀ a : Word, K.pPmmFreeListHead.toNat ≤ a.toNat + 0xC0000000 →
      a.toNat + 4 ≤ 0x700000 → mc₁.mem.read32 a = mc.mem.read32 a := by
    intro a ha hlow
    refine read32_of_range (fun x hx hx' => ?_) (Nat.le_refl _) hlow (by omega)
    exact hframe x (offLog_of_place K.toKmainImage (.inr (by omega))) hx'
  have hpool := hblank.head
  have hcount := hblank.count
  rw [← hread _ (by omega) (by omega)] at hhead hlow hhigh hpool hcount
  rcases mmInit_list hk hhead hlow hle hhigh hpool hcount logs.mmInit fr
    (show 256 < fuel by omega) with ⟨mc₂, hmc₂, hinit⟩
  rcases hinit.parcels (by omega) hmax with ⟨total, hpar⟩
  have htiled : Tiled K.toKernelImage (RamBlock K.toKernelImage high.toNat) total ⟨mc₂, []⟩
      (0x800000 :: belowBlocks K.toKernelImage) := by
    refine ⟨hinit.free, ?_⟩
    rw [List.map_nil, List.append_nil]
    exact hpar
  rcases htiled.klog K.toKmainImage hgood logs.pmmAlloc with ⟨mc₃, hmc₃, htiled₃, hkept₃⟩
  have h8M := toNat_8M
  -- the first block of the list has four pages
  have hnat : (mc₃.mem.read32 0x800000).toNat = high.toNat / 4096 * 4096 - 0x800000 := by
    rw [hkept₃ _ (by omega) (by omega), hinit.size, toNat_region (by omega)]
  have hfind : (0x800000 :: belowBlocks K.toKernelImage).find? (taken mc₃.mem 4)
      = some 0x800000 := by
    refine List.find?_cons_of_pos ?_
    rw [(comparesRight_iff mc₃.mem 4 0x800000).mp ?_, holdsPages, decide_eq_true_iff]
    · rw [hnat]
      have hfour : (4 : Word).toNat = 4 := rfl
      omega
    · rw [ComparesRight, if_pos (by decide), hnat]
      omega
  -- so the allocation does not fail
  have hcount : ∀ p, (0x800000 :: belowBlocks K.toKernelImage).find? (taken mc₃.mem 4) = some p →
      (4 : Word).toNat < 2 ^ 19 := fun _ _ => by decide
  have hlen : (0x800000 :: belowBlocks K.toKernelImage).length < fuel := by
    rw [List.length_cons, belowBlocks]
    split <;> simp <;> omega
  rcases htiled₃.alloc hgood (n := 4) (by decide) hcount fr.allocRegs hlen with ⟨r, hr, hcases⟩
  rcases pmmAlloc_spec htiled₃.free 4 fr.allocRegs hlen with ⟨r', hr', hleaves⟩
  obtain rfl : r = r' := Option.some.inj (hr.symm.trans hr')
  rw [hfind] at hleaves
  rcases hcases with ⟨-, hedx, -⟩ | ⟨-, -, l, hout⟩
  · rw [hleaves.2.1] at hedx
    exact absurd hedx (by decide)
  · rcases hout.klog K.toKmainImage hgood logs.pmmFree with ⟨mc₄, hmc₄, hout₄, -⟩
    rcases hout₄.giveBack hgood List.mem_cons_self (by decide) (by decide) r.regs with
      ⟨mc₅, regs₅, hmc₅, hback⟩
    have hnone : [(r.eax, (4 : Word))].erase (r.eax, 4) = [] := List.erase_cons_head ..
    dsimp only at hback hmc₃ hmc₄ hmc₅
    rw [hnone] at hback
    rcases hback.idt K hgood (show 32 ≤ fuel by omega) with ⟨mc₆, hmc₆, hlast⟩
    refine ⟨mc₆, total, ?_, ⟨_, hlast⟩, by simp⟩
    dsimp only at hmc₆
    simp only [kmainMemory, hmc₁, hmc₂, hmc₃, hr, hmc₄, hmc₅, hmc₆, Option.bind_eq_bind,
      Option.bind_some]

/-! ## The map of the firmware -/

/-- A map with memory at 0 and at 1 MiB, in front of its last entry: the former ends by 1 MiB
and 4 KiB, the latter between 8 MiB and 16 KiB and 2 GiB and 8 MiB. -/
structure UsableMap (ds : List E820AddressRange) : Prop where
  low : ∃ d ∈ ds.dropLast, Eligible d ∧ d.baseAddrLow = 0
  high : ∃ d ∈ ds.dropLast, Eligible d ∧ d.baseAddrLow = 0x100000
  lowSize : ∀ d ∈ ds.dropLast, Eligible d → d.baseAddrLow = 0 → d.lengthLow.toNat < 0x101000
  highSize : ∀ d ∈ ds.dropLast, Eligible d → d.baseAddrLow = 0x100000 →
    0x704000 ≤ d.lengthLow.toNat ∧ d.lengthLow.toNat < 0x80700000

theorem UsableMap.accepted_high {ds : List E820AddressRange} (h : UsableMap ds)
    {d : E820AddressRange} (hd : d ∈ ds.dropLast) (hel : Eligible d)
    (hbase : d.baseAddrLow = 0x100000) : Boot.accepted d.entry = true := by
  have hsize := (h.highSize d hd hel hbase).2
  have hlimit : Boot.bootInfoMemoryLimit.toNat = 0xFFFFF000 := rfl
  rw [Boot.accepted, Boot.E820AddressRange.entry, hbase, Bool.and_eq_true, BitVec.ule,
    BitVec.ule, decide_eq_true_iff, decide_eq_true_iff]
  dsimp only
  constructor
  · decide
  · bv_omega

/-- What the two fields of the boot structure are in the end. -/
theorem UsableMap.fields {ds : List E820AddressRange} (h : UsableMap ds) (high low : Word) :
    (∃ d ∈ ds, Eligible d ∧ d.baseAddrLow = 0x100000 ∧
      (Boot.addAll (Boot.bootStructure high low) (Boot.entries ds.dropLast)).highMem.toNat
        = 0x100000 + d.lengthLow.toNat ∧
      0x704000 ≤ d.lengthLow.toNat ∧ d.lengthLow.toNat < 0x80700000) ∧
    (Boot.addAll (Boot.bootStructure high low) (Boot.entries ds.dropLast)).lowMem.toNat
      < 0x101000 := by
  have hrec := Boot.addAll_recorded high low (Boot.entries ds.dropLast)
  constructor
  · rcases h.high with ⟨d, hd, hel, hbase⟩
    rcases Boot.lastAccepted_isSome (Boot.mem_entries.mpr ⟨d, hd, hel, rfl⟩)
      (h.accepted_high hd hel hbase) hbase with ⟨e, he⟩
    rcases Boot.mem_lastAccepted he with ⟨hmem, -, hebase⟩
    rcases Boot.mem_entries.mp hmem with ⟨d', hd', hel', rfl⟩
    have hsize := h.highSize d' hd' hel' hebase
    refine ⟨d', List.mem_of_mem_dropLast hd', hel', hebase, ?_, hsize⟩
    rw [hrec.highMem, he, Option.map_some, Option.getD_some, hebase]
    change ((0x100000 : Word) + d'.lengthLow).toNat = _
    bv_omega
  · rcases h.low with ⟨d, hd, hel, hbase⟩
    have haccepted : Boot.accepted d.entry = true := by
      rw [Boot.accepted, Boot.E820AddressRange.entry, hbase, Bool.and_eq_true, BitVec.ule,
        BitVec.ule, decide_eq_true_iff, decide_eq_true_iff]
      exact ⟨Nat.zero_le _, Nat.zero_le _⟩
    rcases Boot.lastAccepted_isSome (Boot.mem_entries.mpr ⟨d, hd, hel, rfl⟩)
      haccepted hbase with ⟨e, he⟩
    rcases Boot.mem_lastAccepted he with ⟨hmem, -, hebase⟩
    rcases Boot.mem_entries.mp hmem with ⟨d', hd', hel', rfl⟩
    rw [hrec.lowMem, he, Option.map_some, Option.getD_some]
    exact h.lowSize d' hd' hel' hebase

/-! ## All together -/

/-- The blocks handed out share nothing, lie in memory that the map calls usable, and are apart
from the image of the kernel and its page tables. -/
structure HandsOut (K : KernelImage) (ds : List E820AddressRange) (s : PmmState) : Prop where
  disjoint : s.out.Pairwise fun b c => Extent.Apart (heldBlock b) (heldBlock c)
  usable : ∀ b ∈ s.out, ∃ d ∈ ds, Eligible d ∧ d.baseAddrLow.toNat ≤ b.1.toNat ∧
    b.1.toNat + 4096 * b.2.toNat ≤ d.baseAddrLow.toNat + d.lengthLow.toNat
  image : ∀ b ∈ s.out, Extent.Apart ⟨0x100000, K.imageEnd - 0x100000⟩ (heldBlock b)
  tables : ∀ b ∈ s.out, Extent.Apart ⟨0x400000, 0x400000⟩ (heldBlock b)

theorem MemoryReach.handsOut {high : Word} {total : Nat} {s : PmmState}
    (h : MemoryReach K high total s) {ds : List E820AddressRange} {d : E820AddressRange}
    (hd : d ∈ ds) (hel : Eligible d) (hbase : d.baseAddrLow = 0x100000)
    (hend : high.toNat = 0x100000 + d.lengthLow.toNat) (hmin : 0x800000 ≤ high.toNat) :
    HandsOut K ds s := by
  have hin := h.inMemory hmin
  rcases h with ⟨⟨l, htiled⟩, -⟩
  rcases K.imageEnd_bounds with ⟨hhead, hlow, himage⟩
  refine ⟨?_, ?_, fun b hb => (hin b hb).2.1, fun b hb => (hin b hb).2.2⟩
  · have hout := (List.pairwise_append.mp htiled.parcels.apart).2.1
    rwa [List.pairwise_map] at hout
  · intro b hb
    have hplace := (htiled.good_out hb).place
    unfold heldBlock at hplace
    dsimp only at hplace
    have hnat : d.baseAddrLow.toNat = 0x100000 := by
      rw [hbase]
      rfl
    exact ⟨d, hd, hel, by omega, by omega⟩

/-- **From the firmware to the page allocator.** For every such map that a BIOS reports, and
every kernel: `memory_get_map` ends with a boot structure with which the loader and `kmain` run
through, and in every state of every run of the page allocator from there on the pages handed
out lie in memory that the map calls usable. -/
theorem kmain_usable (L : LoaderImage) (K : MmImage) (logs : MmLogs) (bios : MemoryBios)
    {ds : List E820AddressRange} (hmap : UsableMap ds) {s : Probe} {high low : Word}
    (hstart : s.info = Boot.bootStructure high low) (hbios : Delivers bios s.calls 0 ds) :
    ∃ s', Boot.memoryGetMap bios ds.length s = some (false, s') ∧
      ∀ m size fr pics, BootInfoAt m L.bootStructure s'.info → KernelFile K.toKmainImage m size →
        PoolFile K m →
        ∃ mc mc' gdtr tr, common32 L.toLoaderLayout 1024 m size = some mc ∧
          kmain K logs 1024 bootBootloaderMagic L.bootStructure fr pics mc
            = some (.halt mc' gdtr tr (picInit pics)) ∧
          ∀ r, Run (pmmStep K.toKernelImage) ⟨mc', []⟩ r →
            ∀ c ∈ r, HandsOut K.toKernelImage ds c.2 := by
  have hgb := K.gdt_boot
  have hhg := K.head_gdt
  rcases Boot.memoryE820_run (s := { s with ebx := 0 }) hbios with ⟨s', hrun, hadded⟩
  have hinfo : s'.info = Boot.addAll (Boot.bootStructure high low) (Boot.entries ds.dropLast) := by
    rw [hadded.info, ← hstart]
  rcases hmap.fields high low with ⟨⟨d, hd, hel, hbase, hend, hmin, hmax⟩, hlow⟩
  rw [← hinfo] at hend hlow
  refine ⟨s', ?_, ?_⟩
  · have hget : Boot.memoryE820GetMap bios ds.length s = some (false, s') := hrun
    rw [Boot.memoryGetMap, hget]
  intro m size fr pics hat hfile hpool
  rcases common32_hands L K.toKmainImage hfile (Nat.le_refl 1024) with ⟨mc, hmc, hands⟩
  rcases common32_loaded L m hfile.small (Nat.le_refl 1024) with ⟨mc₀, hmc₀, -, hcopied, -⟩
  obtain rfl : mc = mc₀ := Option.some.inj (hmc.symm.trans hmc₀)
  have hblank := hpool.blank hcopied hfile.holds
  rcases kmainSetup_spec K.toKmainImage logs.toKmainLogs hands.space hands.limit hands.base with
    ⟨mc₁, hmc₁, hspace, hready⟩
  -- the kernel has the boot structure that the loader has
  have hcopy : BootInfoAt mc₁.mem (K.stBootInfo - kernelVirtBase) s'.info := by
    refine hat.moved fun i hi => ?_
    rw [hready.info i hi, hands.data i (by omega)]
  have hhigh : K.highMem - kernelVirtBase = K.stBootInfo - kernelVirtBase + 648 := by
    unfold KernelImage.highMem
    bv_omega
  have hlowat : K.lowMem - kernelVirtBase = K.stBootInfo - kernelVirtBase + 652 := by
    unfold KernelImage.lowMem
    bv_omega
  -- the head of the list lies in front of all that `kmain` has stored to
  rcases K.phys with ⟨hg, hgs, -, hb⟩
  rcases K.imageEnd_bounds with ⟨-, hphys, -⟩
  have hheadnat := K.headPhys_toNat
  have hgnat : (K.gdtTss - kernelVirtBase).toNat = K.gdt.toNat + 40 - 0xC0000000 := by
    unfold KmainImage.gdtTss kernelVirtBase
    bv_omega
  have hword : ∀ a : Word, K.pPmmFreeListHead.toNat ≤ a.toNat + 0xC0000000 →
      a.toNat + 4 ≤ (K.gdtTss - kernelVirtBase).toNat → mc₁.mem.read32 a = mc.mem.read32 a := by
    intro a ha hgdt
    refine read32_of_range (fun x hx hx' => ?_) (Nat.le_refl _) hgdt (by omega)
    have hlog := offLog_of_place K.toKmainImage (x := x) (.inr (by omega))
    exact hready.others x hlog (by bv_omega) (by bv_omega)
  rcases K.poolPhys with ⟨hpnat, hcnat, hstatics, hpool_gdt⟩
  have hhead : mc₁.mem.read32 K.headPhys = 0 := (hword _ (by omega) (by omega)).trans hands.head
  have hblank₁ : PoolBlank K mc₁.mem :=
    ⟨(hword _ (by omega) (by omega)).trans hblank.head,
      (hword _ (by omega) (by omega)).trans hblank.count⟩
  have hhighword := hcopy.highMem
  have hlowword := hcopy.lowMem
  rw [← hhigh] at hhighword
  rw [← hlowat] at hlowword
  rcases kmainMemory_reach K logs hspace hhead hblank₁ hlowword hlow hhighword
    (by omega) (by omega) fr (Nat.le_refl 1024) with ⟨mc', total, hmc', hreach⟩
  refine ⟨mc, mc', ⟨47, K.gdt⟩, ⟨0x2B, K.kTSS, 104⟩, hmc, ?_, ?_⟩
  · unfold kmain
    rw [if_neg (not_not.mpr rfl), hmc₁]
    simp only [Option.bind_eq_bind, Option.bind_some, hmc', Option.pure_def]
  · intro r hr c hc
    exact (Run.invariant (MemoryReach K.toKernelImage s'.info.highMem total) pmmStep_memory hreach
      hr c hc).handsOut hd hel hbase hend (by omega)

/-- 639 KiB and 15 MiB of memory, and something else in the end. -/
def demoMap : List E820AddressRange :=
  [⟨0, 0, 0x9FC00, 0, Boot.e820MemoryUsable⟩, Boot.usableRange, Boot.reservedRange]

def demoMapBios : MemoryBios where
  e820 := fun n _ => ⟨false, Boot.smap, if n < 2 then 1 else 0, demoMap.getD n Boot.reservedRange⟩
  e801 := ⟨true, 0, 0⟩
  int88 := ⟨true, 0, 0⟩

/-- The boot structure for this map, at 0x7000. -/
def demoBooted : Mem :=
  ((((demoHandOver.write32 0x7004 0x9FC00).write32 0x7008 0x100000).write32 0x700C 0xF00000).write32
    0x7288 0x1000000).write32 0x728C 0x9FC00

def demoProbe : Probe :=
  ⟨Boot.addAll (Boot.bootStructure 0 0) [⟨0, 0x9FC00⟩, ⟨0x100000, 0xF00000⟩], 0, 3,
    [⟨0, 0x9FC00⟩, ⟨0x100000, 0xF00000⟩]⟩

theorem demoBooted_info : BootInfoAt demoBooted 0x7000 demoProbe.info := by
  refine ⟨?_, ?_, by decide, by decide⟩
  · decide +kernel
  · decide +kernel

theorem demoBooted_file : KernelFile demoKmain demoBooted 0x4000 :=
  ⟨by decide, by decide, by decide, by decide, by decide⟩

theorem demoBooted_pool : PoolFile demoMm demoBooted := ⟨by decide, by decide⟩

/-- From midnight on. -/
def demoMmLogs : MmLogs where
  toKmainLogs := demoLogs
  mmInit := [⟨⟨0, 0, 0⟩, []⟩]
  pmmAlloc := ⟨⟨0, 0, 1⟩, []⟩
  pmmFree := ⟨⟨0, 0, 2⟩, []⟩

/-- Registers and locals that are zero. -/
def demoFrames : MmFrames := ⟨⟨0, 0, 0⟩, ⟨0, 0, 0⟩, 0, 0, 0, 0⟩

theorem demoMap_usable : UsableMap demoMap := ⟨by decide, by decide, by decide, by decide⟩

theorem demoMap_delivers : Delivers demoMapBios 0 0 demoMap :=
  .next rfl (by decide) (.next rfl (by decide) (.last rfl))

theorem kmain_usable_demo :
    ∃ mc mc' gdtr tr, common32 demoLayout 1024 demoBooted 0x4000 = some mc ∧
      kmain demoMm demoMmLogs 1024 bootBootloaderMagic 0x7000 demoFrames demoFirmware mc
        = some (.halt mc' gdtr tr (picInit demoFirmware)) ∧
      ∀ r, Run (pmmStep demoMm.toKernelImage) ⟨mc', []⟩ r →
        ∀ c ∈ r, HandsOut demoMm.toKernelImage demoMap c.2 := by
  rcases kmain_usable demoLoader demoMm demoMmLogs demoMapBios demoMap_usable
    (s := ⟨Boot.bootStructure 0 0, 0, 0, []⟩) rfl demoMap_delivers with ⟨s', hget, hall⟩
  have hprobe : Boot.memoryGetMap demoMapBios demoMap.length ⟨Boot.bootStructure 0 0, 0, 0, []⟩
      = some (false, demoProbe) := rfl
  have heq : s' = demoProbe := congrArg Prod.snd (Option.some.inj (hget.symm.trans hprobe))
  subst heq
  exact hall demoBooted 0x4000 demoFrames demoFirmware demoBooted_info demoBooted_file
    demoBooted_pool

end StupidOS.Kernel
