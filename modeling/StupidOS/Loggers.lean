import StupidOS.Boot.EfiLogger
import StupidOS.Boot.Logger
import StupidOS.Kernel.KlogScan

/-!
# The ends of formats, in all three loggers

`klog`, `bios_log` and `efi_log` go over a directive without a test whether its `%` was the last
character. The kernel and the BIOS loader print `?` for the NUL behind it, the EFI loader stores
`?` over it; all of them go on behind it. With any other format they stop at the NUL.
-/

namespace StupidOS

open Kernel.OnStack (CallSite)
open Kernel.Logged (Arg Clock KlogCall KlogStops Labels Out demoCall image klog_stops_iff place
  place_self)
open Boot.Logger (BiosCall BiosLogStops RtcTime Screen biosLog_stops_iff)
open Boot.EfiLogger (Console EfiCall EfiLogStops EfiTime PrintsStrings demoConsole
  efiLog_stops_iff firstString firstString_prints)

section Loggers

variable {A : CallSite → Word} {szTime eax ecx r : Word} {c : Clock} {fmt : List Byte}
  {args : List Arg} {s : Out} {f : Frame}
variable {szTimeB si ret : Half} {rtc : RtcTime} {fmtB : List Byte} {argsB : List Half} {k : Nat}
  {sB : Screen}
variable {outputString : Mem → Word → Option (List Half)} {szTimeE eaxE ebx : Word}
  {time : EfiTime} {fmtE : List Half} {stack : Mem} {sE : Console}

/-- **The loggers read up to the NUL of their formats** and no further exactly if no `%` is open
there. -/
theorem loggers_stop_iff (hklog : KlogCall szTime eax fmt args s f)
    (hbios : BiosCall szTimeB si fmtB argsB k sB.mem) (hout : PrintsStrings outputString)
    (hefi : EfiCall szTimeE eaxE fmtE stack ebx sE.mem) :
    (KlogStops A szTime c eax ecx s (f.push r) fmt.length ↔ Closed 0x25 fmt = true) ∧
      (BiosLogStops szTimeB rtc si (ret :: argsB) sB fmtB.length ↔ Closed 0x25 fmtB = true) ∧
      (EfiLogStops outputString szTimeE stack time eaxE ebx sE fmtE.length ↔
        Closed 0x25 fmtE = true) :=
  ⟨klog_stops_iff hklog, biosLog_stops_iff hbios, efiLog_stops_iff hout hefi⟩

end Loggers

/-- A screen of the kernel with a format at `0x2000`, and the data of `klog` at `0x1000` -/
def kernelScreen (fmt : List Byte) : Out where
  cga := { Kernel.blankScreen with mem := place 0x1000 image <| place 0x2000 fmt fun _ => 0 }
  com1 := []
  putcs := []

/-- A screen of the BIOS with a format at `0x2000` -/
def biosScreen (fmt : List Byte) : Screen where
  mem := fun x => (fmt[(x - 0x2000).toNat]?).getD 0
  out := []

theorem kernelScreen_labels (fmt : List Byte) : Labels 0x1000 (kernelScreen fmt).mem := by
  have hbyte : ∀ i b, image[i]? = some b → i < 2 ^ 32 →
      (kernelScreen fmt).mem (0x1000 + BitVec.ofNat 32 i) = b := fun i b hb hi => place_self hb hi
  refine ⟨⟨by decide +kernel, fun i b hb hfix => ?_⟩, ?_⟩
  · exact hbyte i b hb (Nat.lt_trans hfix.1 (by decide))
  · exact hbyte 42 0 (by decide) (by decide)

theorem loggers_stop_demo :
    KlogStops (fun _ => 0x4000) 0x1000 ⟨0x23, 0x59, 0x07⟩ 0x2000 0 (kernelScreen [0x25, 0x75])
        (demoCall.push 0x5000) 2 ∧
      BiosLogStops 0x1000 ⟨0x23, 0x59, 0x07⟩ 0x2000 [0x7C00, 42] (biosScreen [0x25, 0x64]) 2 ∧
      EfiLogStops (firstString (2 ^ 31)) 0x1000 (fun _ => 0) ⟨23, 59, 7⟩ 0x2000 0x3000
        (demoConsole [0x25, 0x78]) 2 := by
  have hklog : KlogCall 0x1000 0x2000 [0x25, 0x75] [⟨0x3000, []⟩] (kernelScreen [0x25, 0x75])
      demoCall := by
    refine ⟨by decide, kernelScreen_labels _, by decide +kernel, by decide +kernel, by decide,
      by decide, fun i a ha => ?_⟩
    rcases List.getElem?_eq_some_iff.mp ha with ⟨hi, rfl⟩
    obtain rfl : i = 0 := Nat.lt_one_iff.mp hi
    exact show demoCall.word 0 = 0x3000 by decide
  have hbios : BiosCall 0x1000 0x2000 [0x25, 0x64] [42] 0 (biosScreen [0x25, 0x64]).mem :=
    ⟨⟨rfl, rfl, rfl⟩, by decide +kernel, trivial⟩
  have hefi : EfiCall 0x1000 0x2000 [0x25, 0x78] (fun _ => 0) 0x3000
      (demoConsole [0x25, 0x78]).mem :=
    ⟨by decide +kernel, by decide +kernel, trivial⟩
  rcases loggers_stop_iff hklog hbios firstString_prints hefi with ⟨hk, hb, he⟩
  exact ⟨hk.mpr (by decide), hb.mpr (by decide), he.mpr (by decide)⟩

/-- A format that is a single `%` -/
theorem loggers_stop_counterexample :
    ¬ KlogStops (fun _ => 0x4000) 0x1000 ⟨0x23, 0x59, 0x07⟩ 0x2000 0 (kernelScreen [0x25])
        (demoCall.push 0x5000) 1 ∧
      ¬ BiosLogStops 0x1000 ⟨0x23, 0x59, 0x07⟩ 0x2000 [0x7C00] (biosScreen [0x25]) 1 ∧
      ¬ EfiLogStops (firstString (2 ^ 31)) 0x1000 (fun _ => 0) ⟨23, 59, 7⟩ 0x2000 0x3000
        (demoConsole [0x25]) 1 := by
  have hklog : KlogCall 0x1000 0x2000 [0x25] [] (kernelScreen [0x25]) demoCall :=
    ⟨by decide, kernelScreen_labels _, by decide +kernel, by decide +kernel, by decide, by decide,
      fun _ _ ha => nomatch ha⟩
  have hbios : BiosCall 0x1000 0x2000 [0x25] [] 0 (biosScreen [0x25]).mem :=
    ⟨⟨rfl, rfl, rfl⟩, by decide +kernel, trivial⟩
  have hefi : EfiCall 0x1000 0x2000 [0x25] (fun _ => 0) 0x3000 (demoConsole [0x25]).mem :=
    ⟨by decide +kernel, by decide +kernel, trivial⟩
  exact ⟨mt (klog_stops_iff hklog).mp (by decide), mt (biosLog_stops_iff hbios).mp (by decide),
    mt (efiLog_stops_iff firstString_prints hefi).mp (by decide)⟩

end StupidOS
