import StupidOS.Boot.StpdBoot
import StupidOS.Kernel.Kmain

/-!
# The kernel on its way from the disk (`loader.asm`, `stpdfs.inc`, `kernel.asm`)

The kernel is copied twice before it runs, from the disk to `KERNEL_PRELOAD` and from there to
`KERNEL_BASE`, and then it changes the page tables under itself. What the processor finds at the
addresses of the kernel after `mm_bootstrap` is the file on the disk, byte for byte, but for what
`kmain` has filled in and the digits of the time that `klog` prints (`kernel_intact`).
-/

namespace StupidOS.Kernel

open Boot (Bios Cpu LoaderData StpdVolume NameAt KernelEntry loadKernel rootSize entryInum
  rootImage inodeData diskInode fileSize fileByte inodeSize)

/-- `kmain` does not store to `v`: it is neither in the boot structure, nor in the task state
segment behind that, nor in the descriptor of the segment, nor a digit of the time, and it is below
the stack, which is the end of the image. -/
structure Untouched (K : KmainImage) (v : Word) : Prop where
  info : 760 ≤ (v - K.stBootInfo).toNat
  descriptor : 8 ≤ (v - K.gdtTss).toNat
  time : (v - K.szTime).toNat ∉ [1, 2, 4, 5, 7, 8]
  stack : v.toNat + 0x4000 < K.kend.toNat

/-- From `KERNEL_PRELOAD` to the page tables of the kernel. -/
theorem preloaded_intact (L : LoaderImage) (K : KmainImage) (logs : KmainLogs) {m : Mem}
    {size : Word} (hfile : KernelFile K m size) :
    ∃ mc mc₁ mc₂, common32 L.toLoaderLayout 1024 m size = some mc ∧
      kmainSetup K logs mc L.bootStructure = some (mc₁, ⟨47, K.gdt⟩, ⟨0x2B, K.kTSS, 104⟩) ∧
      kmainBootstrap K logs 1024 mc₁ = some mc₂ ∧
      ∀ v : Word, 0xC0100000 ≤ v.toNat → v.toNat < 0xC0100000 + size.toNat → Untouched K v →
        mc₂.load8 v = some (m (preloaded v)) := by
  have hklo := K.kend_low
  have hkhi := K.kend_high
  have hsmall := hfile.small
  rcases common32_hands L K hfile (Nat.le_refl 1024) with ⟨mc, hmc, hands⟩
  rcases common32_loaded L m hsmall (Nat.le_refl 1024) with ⟨mc', hmc', -, hcopy, -⟩
  obtain rfl : mc = mc' := Option.some.inj (hmc.symm.trans hmc')
  rcases kmainSetup_spec K logs hands.space hands.limit hands.base with
    ⟨mc₁, hmc₁, hspace, hready⟩
  rcases kmainBootstrap_spec K logs hspace (Nat.le_refl 1024) with ⟨mc₂, hmc₂, hk, hframe⟩
  refine ⟨mc, mc₁, mc₂, hmc, hmc₁, hmc₂, ?_⟩
  intro v hv hvs hfree
  have hinfo := hfree.info
  have hdescriptor := hfree.descriptor
  have hvk := hfree.stack
  have hsub : ∀ a : Word, v - kernelVirtBase - (a - kernelVirtBase) = v - a := by
    intro a
    bv_omega
  -- neither the tables nor what `kmain` fills in
  have hphys : (v - kernelVirtBase).toNat = v.toNat - 0xC0000000 := by
    unfold kernelVirtBase
    bv_omega
  have hlog : OffLog K (v - kernelVirtBase) := by
    refine ⟨.inr (by omega), ?_⟩
    rw [hsub]
    exact hfree.time
  have hkept : mc₂.mem (v - kernelVirtBase) = mc₁.mem (v - kernelVirtBase) :=
    hframe _ hlog (by omega)
  have hfilled : mc₁.mem (v - kernelVirtBase) = mc.mem (v - kernelVirtBase) := by
    refine hready.others _ hlog ?_ ?_
    · rwa [hsub]
    · rwa [hsub]
  rw [Machine.load8, hk.walk_kernel hkhi false (by omega) (by omega), Option.map_some, hkept, hfilled,
    preloaded_copied hcopy hv hvs]

/-- Memory with a file at `KERNEL_PRELOAD`. -/
def preloadImage (file : Nat → Byte) : Mem := fun a => file (a - kernelPreload).toNat

theorem preloadImage_apply (file : Nat → Byte) {x : Nat} (hx : x < 2 ^ 32) :
    preloadImage file (kernelPreload + BitVec.ofNat 32 x) = file x := by
  have hat : (kernelPreload + BitVec.ofNat 32 x - kernelPreload).toNat = x := by bv_omega
  rw [preloadImage, hat]

/-- What makes it the file of the kernel depends on nothing outside. -/
theorem KernelFile.congr {K : KmainImage} {m m' : Mem} {size : Word} (h : KernelFile K m size)
    (hm : ∀ x, x < size.toNat →
      m' (kernelPreload + BitVec.ofNat 32 x) = m (kernelPreload + BitVec.ofNat 32 x)) :
    KernelFile K m' size := by
  have hend := K.kend_high
  have hhead := K.head_low
  have hlow := K.head_gdt
  have hgdt := K.gdt_boot
  have htss := K.tss_high
  have hholds := h.holds
  rcases K.gdt_toNat with ⟨-, hpnat, -⟩
  have hbyte : ∀ v k : Word, 0xC0100000 ≤ v.toNat →
      v.toNat + k.toNat < 0xC0100000 + size.toNat → v.toNat + k.toNat < K.kend.toNat →
      m' (preloaded v + k) = m (preloaded v + k) := by
    intro v k hv hvs hvk
    have hat : kernelPreload + BitVec.ofNat 32 (v.toNat + k.toNat - 0xC0100000)
        = preloaded v + k := by
      unfold preloaded kernelVirtBase kernelBase
      bv_omega
    rw [← hat]
    exact hm _ (by omega)
  refine ⟨h.small, hholds, ?_, ?_, ?_⟩
  · rw [← h.head]
    exact Mem.read32_of_bytes fun k hk => hbyte _ k hhead (by omega) (by omega)
  · rw [← h.limit]
    exact Mem.read16_of_bytes fun k hk => hbyte _ k (by omega) (by omega) (by omega)
  · rw [← h.base]
    apply Mem.read32_of_bytes
    intro k hk
    rw [BitVec.add_assoc]
    exact hbyte _ _ (by omega) (by bv_omega) (by bv_omega)

variable {B : Bios} {v : LoaderData}

/-- **The kernel that runs is the one on the disk.** From a StupidFS disk through the loader,
`common32`, `kmain` and `mm_bootstrap`: whatever else is in memory when the processor enters
protected mode, what it reads at the addresses of the kernel in the end is the file. -/
theorem kernel_intact (L : LoaderImage) (K : KmainImage) (logs : KmainLogs)
    (hB : StpdVolume B v) (hok : B.NoError) {s : Cpu} {si : Half} (heax : s.eax.toNat < 65536)
    (hname : NameAt s.mem si)
    {chars entries : Nat} (fuel : Nat) (hchars : 28 ≤ chars) (hentries : 96 ≤ entries)
    {i inum : Nat} (hi : 32 * (i + 1) ≤ rootSize B v) (hkernel : KernelEntry B v i)
    (hfirst : ∀ j, j < i → ¬ KernelEntry B v j)
    (hinum : (entryInum (rootImage B v) i).toNat = inum) {size : Word}
    (hsize : (diskInode B inum).word inodeSize = size) (hsmall : size.toNat < 65536)
    (hfile : KernelFile K (preloadImage (fileByte B v inum)) size) :
    ∃ s', loadKernel B v chars entries fuel si s = some (.loaded size s') ∧
      ∀ m : Mem, (∀ x, x < size.toNat →
          m (kernelPreload + BitVec.ofNat 32 x) = s'.mem (Boot.kernelPreload + x)) →
        ∃ mc mc₁ mc₂, common32 L.toLoaderLayout 1024 m size = some mc ∧
          kmainSetup K logs mc L.bootStructure = some (mc₁, ⟨47, K.gdt⟩, ⟨0x2B, K.kTSS, 104⟩) ∧
          kmainBootstrap K logs 1024 mc₁ = some mc₂ ∧
          ∀ x, x < size.toNat → Untouched K (0xC0100000 + BitVec.ofNat 32 x) →
            mc₂.load8 (0xC0100000 + BitVec.ofNat 32 x) = some (fileByte B v inum x) := by
  subst hinum
  subst hsize
  rcases Boot.loadKernel_first hB hok heax hname fuel hchars hentries hi hkernel hfirst hsmall with
    ⟨s', hload, hbytes, -⟩
  refine ⟨s', hload, ?_⟩
  intro m hm
  have hend := K.kend_high
  have hcopy : ∀ x, x < ((diskInode B (entryInum (rootImage B v) i).toNat).word inodeSize).toNat →
      m (kernelPreload + BitVec.ofNat 32 x)
        = fileByte B v (entryInum (rootImage B v) i).toNat x := by
    intro x hx
    rw [hm x hx, hbytes x hx]
  have hfile' : KernelFile K m ((diskInode B (entryInum (rootImage B v) i).toNat).word inodeSize) :=
    hfile.congr fun x hx => by rw [hcopy x hx, preloadImage_apply _ (by omega)]
  rcases preloaded_intact L K logs hfile' with ⟨mc, mc₁, mc₂, hmc, hmc₁, hmc₂, hread⟩
  refine ⟨mc, mc₁, mc₂, hmc, hmc₁, hmc₂, ?_⟩
  intro x hx hfree
  have hat : (0xC0100000 + BitVec.ofNat 32 x : Word).toNat = 0xC0100000 + x := by bv_omega
  have hpre : preloaded (0xC0100000 + BitVec.ofNat 32 x) = kernelPreload + BitVec.ofNat 32 x := by
    unfold preloaded kernelVirtBase kernelBase
    bv_omega
  rw [hread _ (by omega) (by omega) hfree, hpre, hcopy x hx]

/-! ## A small kernel -/

/-- A kernel of 118 bytes, with `pGDT` at the end. -/
def demoSmall : KmainImage where
  kend := 0xC0111000
  pPmmFreeListHead := 0xC0100010
  stBootInfo := 0xC0105000
  szTime := 0xC0100000
  gdt := 0xC0100040
  time_low := by decide
  time_head := by decide
  kend_low := by decide
  kend_high := by decide
  head_low := by decide
  head_high := by decide
  boot_low := by decide
  boot_high := by decide
  apart := by decide
  head_gdt := by decide
  gdt_boot := by decide
  tss_high := by decide

/-- A disk with it. -/
def smallSectors (block a : Nat) : Byte :=
  if block = 3 ∧ a = 150 then 118
  else if block = 6 then
    if 16 ≤ a ∧ a < 20 then 0
    else if 112 ≤ a then ([0x2F, 0, 0x40, 0, 0x10, 0xC0] : List Byte).getD (a - 112) 0
    else 0x90
  else Boot.stpdSectors block a

def smallDrive : Bios := { Boot.floppyBios with sectors := smallSectors }

theorem smallDrive_volume : StpdVolume smallDrive Boot.extensionData :=
  ⟨rfl, Boot.extensionData_geometry, rfl, rfl, by decide, by decide, by decide⟩

theorem smallDrive_kernel : KernelEntry smallDrive Boot.extensionData 1 ∧
    ∀ j, j < 1 → ¬ KernelEntry smallDrive Boot.extensionData j := by
  refine ⟨⟨by decide, by decide⟩, ?_⟩
  intro j hj h
  obtain rfl : j = 0 := by omega
  exact absurd (h.name 0 (by decide)) (by decide)

theorem smallDrive_file :
    KernelFile demoSmall (preloadImage (fileByte smallDrive Boot.extensionData 9)) 118 :=
  ⟨by decide, by decide, by decide, by decide, by decide⟩

theorem kernel_intact_demo :
    ∃ s', loadKernel smallDrive Boot.extensionData 28 96 0 0x1100 Boot.loaderStart
        = some (.loaded 118 s') ∧
      ∃ mc mc₁ mc₂, common32 demoLoader.toLoaderLayout 1024 (fun a => s'.mem a.toNat) 118
          = some mc ∧
        kmainSetup demoSmall demoLogs mc demoLoader.bootStructure
          = some (mc₁, ⟨47, demoSmall.gdt⟩, ⟨0x2B, demoSmall.kTSS, 104⟩) ∧
        kmainBootstrap demoSmall demoLogs 1024 mc₁ = some mc₂ ∧
        mc₂.load8 0xC010000D = some 0x90 := by
  rcases kernel_intact demoLoader demoSmall demoLogs smallDrive_volume Boot.floppy_noError
    (s := Boot.loaderStart) (by decide) Boot.loaderStart_name 0 (Nat.le_refl 28) (Nat.le_refl 96)
    (by decide) smallDrive_kernel.1 smallDrive_kernel.2 (by decide) (by decide) (by decide)
    smallDrive_file with ⟨s', hload, hrun⟩
  have hcopied : ∀ x, x < (118 : Word).toNat →
      s'.mem (kernelPreload + BitVec.ofNat 32 x).toNat = s'.mem (Boot.kernelPreload + x) := by
    intro x hx
    have hx' : x < 118 := hx
    have hat : (kernelPreload + BitVec.ofNat 32 x).toNat = Boot.kernelPreload + x := by
      unfold kernelPreload Boot.kernelPreload
      bv_omega
    rw [hat]
  rcases hrun (fun a => s'.mem a.toNat) hcopied with ⟨mc, mc₁, mc₂, hmc, hmc₁, hmc₂, hread⟩
  exact ⟨s', hload, mc, mc₁, mc₂, hmc, hmc₁, hmc₂,
    hread 13 (by decide) ⟨by decide, by decide, by decide, by decide⟩⟩

end StupidOS.Kernel
