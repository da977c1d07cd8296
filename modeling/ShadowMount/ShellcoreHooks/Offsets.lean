import ShadowMount.Foundation.Memory

/-!
# Where the hooks are

The table of {lit}`sm_shellcore_offsets.inc`: for every supported firmware, the cave of the
SceShellCore image that takes the bridge, and the places in its code that are patched.  The
hook sites and the cave of each row do not overlap, so that what is written to one of them
is not seen in the others.
-/

namespace ShadowMount.ShellcoreHooks

open Foundation

/-- `sm_shellcore_target_t`. -/
inductive Target where
  | launchApp
  | sandboxReady
  | installTitleDir
  | installAll
deriving DecidableEq

/-- `sm_shellcore_target_offset_t`. -/
structure TargetOffset where
  offset : Nat
  patchSize : Nat
deriving DecidableEq, Inhabited

/-- `sm_shellcore_firmware_offsets_t`, with the targets in the order of
`sm_shellcore_target_t`. -/
structure FirmwareOffsets where
  firmware : Nat
  bridgeCaveOffset : Nat
  bridgeCaveSize : Nat
  sandboxCallTargetOffset : Nat
  launchApp : TargetOffset
  sandboxReady : TargetOffset
  installTitleDir : TargetOffset
  installAll : TargetOffset
deriving DecidableEq, Inhabited

def FirmwareOffsets.targets (o : FirmwareOffsets) : Target → TargetOffset
  | .launchApp => o.launchApp
  | .sandboxReady => o.sandboxReady
  | .installTitleDir => o.installTitleDir
  | .installAll => o.installAll

/-- The targets that are patched, in the order of `g_hooks.hooks`. -/
inductive Hook where
  | launch
  | sandbox
  | install
deriving DecidableEq

/-- The target of a hook. -/
def Hook.target : Hook → Target
  | .launch => .launchApp
  | .sandbox => .sandboxReady
  | .install => .installAll

/-- The hooks in the order they are installed. -/
def hookOrder : List Hook := [.launch, .sandbox, .install]

/-- Every hook has its place in the order. -/
theorem mem_hookOrder (h : Hook) : h ∈ hookOrder := by
  cases h <;> decide

/-- `g_shellcore_offsets`. -/
def shellcoreOffsets : List FirmwareOffsets := [
  ⟨0x0100, 0x1127640, 0x9c0, 0x1121e10,
    ⟨0x3465a0, 12⟩, ⟨0x378fbc, 5⟩, ⟨0x1adc50, 12⟩, ⟨0xa05c40, 14⟩⟩,
  ⟨0x0101, 0x1127640, 0x9c0, 0x1121e10,
    ⟨0x3465a0, 12⟩, ⟨0x378fbc, 5⟩, ⟨0x1adc50, 12⟩, ⟨0xa05c40, 14⟩⟩,
  ⟨0x0102, 0x1127640, 0x9c0, 0x1121e10,
    ⟨0x3465a0, 12⟩, ⟨0x378fbc, 5⟩, ⟨0x1adc50, 12⟩, ⟨0xa05c40, 14⟩⟩,
  ⟨0x0112, 0x11281d0, 0x3e30, 0x11229b0,
    ⟨0x3469b0, 12⟩, ⟨0x37944c, 5⟩, ⟨0x1adc30, 12⟩, ⟨0xa063a0, 14⟩⟩,
  ⟨0x0114, 0x11285f0, 0x3a10, 0x1122dd0,
    ⟨0x3469b0, 12⟩, ⟨0x37944c, 5⟩, ⟨0x1adc30, 12⟩, ⟨0xa06660, 14⟩⟩,
  ⟨0x0200, 0x12a3cf0, 0x310, 0x129e350,
    ⟨0x3a4660, 12⟩, ⟨0x3db891, 5⟩, ⟨0x1df8f0, 12⟩, ⟨0xaf3740, 14⟩⟩,
  ⟨0x0220, 0x12a4160, 0x3ea0, 0x129e7c0,
    ⟨0x3a4930, 12⟩, ⟨0x3dbb61, 5⟩, ⟨0x1dfb80, 12⟩, ⟨0xaf3aa0, 14⟩⟩,
  ⟨0x0225, 0x12a5070, 0x2f90, 0x129f6d0,
    ⟨0x3a4e80, 12⟩, ⟨0x3dc0b1, 5⟩, ⟨0x1dfb80, 12⟩, ⟨0xaf3fe0, 14⟩⟩,
  ⟨0x0226, 0x12a6a00, 0x1600, 0x12a1060,
    ⟨0x3a65f0, 12⟩, ⟨0x3dd821, 5⟩, ⟨0x1e0d50, 12⟩, ⟨0xaf57a0, 14⟩⟩,
  ⟨0x0230, 0x12a7880, 0x780, 0x12a1ee0,
    ⟨0x3a6d90, 12⟩, ⟨0x3ddfc1, 5⟩, ⟨0x1e0f00, 12⟩, ⟨0xaf6360, 14⟩⟩,
  ⟨0x0250, 0x12aa7c0, 0x1840, 0x12a4e30,
    ⟨0x3a8140, 12⟩, ⟨0x3df371, 5⟩, ⟨0x1e0ca0, 12⟩, ⟨0xaf7700, 14⟩⟩,
  ⟨0x0270, 0x12aa7c0, 0x1840, 0x12a4e30,
    ⟨0x3a8140, 12⟩, ⟨0x3df371, 5⟩, ⟨0x1e0ca0, 12⟩, ⟨0xaf7700, 14⟩⟩,
  ⟨0x0300, 0x142c990, 0x3670, 0x1427000,
    ⟨0x3f1960, 12⟩, ⟨0x42a768, 5⟩, ⟨0x2138e0, 12⟩, ⟨0x212ab0, 12⟩⟩,
  ⟨0x0310, 0x142c9d0, 0x3630, 0x1427040,
    ⟨0x3f19a0, 12⟩, ⟨0x42a7a8, 5⟩, ⟨0x213920, 12⟩, ⟨0x212af0, 12⟩⟩,
  ⟨0x0320, 0x142ce20, 0x31e0, 0x1427490,
    ⟨0x3f1a50, 12⟩, ⟨0x42aa38, 5⟩, ⟨0x2139d0, 12⟩, ⟨0x212ba0, 12⟩⟩,
  ⟨0x0321, 0x142ce20, 0x31e0, 0x1427490,
    ⟨0x3f1a50, 12⟩, ⟨0x42aa38, 5⟩, ⟨0x2139d0, 12⟩, ⟨0x212ba0, 12⟩⟩,
  ⟨0x0400, 0x13bf980, 0x680, 0x13ba030,
    ⟨0x432630, 12⟩, ⟨0x46f9f3, 5⟩, ⟨0x226c20, 12⟩, ⟨0x225e40, 12⟩⟩,
  ⟨0x0403, 0x13bf990, 0x670, 0x13ba040,
    ⟨0x432630, 12⟩, ⟨0x46f9f3, 5⟩, ⟨0x226c20, 12⟩, ⟨0x225e40, 12⟩⟩,
  ⟨0x0450, 0x13cb950, 0x6b0, 0x13c6010,
    ⟨0x432d80, 12⟩, ⟨0x470143, 5⟩, ⟨0x227350, 12⟩, ⟨0x226570, 12⟩⟩,
  ⟨0x0451, 0x13cb950, 0x6b0, 0x13c6010,
    ⟨0x432d80, 12⟩, ⟨0x470153, 5⟩, ⟨0x227350, 12⟩, ⟨0x226570, 12⟩⟩,
  ⟨0x0500, 0x14893f0, 0x2c10, 0x1483730,
    ⟨0x498950, 12⟩, ⟨0x4d5486, 5⟩, ⟨0x2556a0, 12⟩, ⟨0x254900, 12⟩⟩,
  ⟨0x0502, 0x14893d0, 0x2c30, 0x1483710,
    ⟨0x498940, 12⟩, ⟨0x4d5476, 5⟩, ⟨0x2556a0, 12⟩, ⟨0x254900, 12⟩⟩,
  ⟨0x0510, 0x148c510, 0x3af0, 0x1486860,
    ⟨0x4998f0, 12⟩, ⟨0x4d7ec6, 5⟩, ⟨0x256570, 12⟩, ⟨0x2557d0, 12⟩⟩,
  ⟨0x0550, 0x1490b70, 0x3490, 0x148aed0,
    ⟨0x4998f0, 12⟩, ⟨0x4d7ec6, 5⟩, ⟨0x256570, 12⟩, ⟨0x2557d0, 12⟩⟩,
  ⟨0x0600, 0x1526ac0, 0x1540, 0x1520d90,
    ⟨0x4c7380, 12⟩, ⟨0x509629, 5⟩, ⟨0x26b9b0, 12⟩, ⟨0x271bb0, 12⟩⟩,
  ⟨0x0602, 0x1526ed0, 0x1130, 0x1521190,
    ⟨0x4c7380, 12⟩, ⟨0x509629, 5⟩, ⟨0x26b9b0, 12⟩, ⟨0x271bb0, 12⟩⟩,
  ⟨0x0650, 0x1527440, 0xbc0, 0x1521700,
    ⟨0x4c73f0, 12⟩, ⟨0x509699, 5⟩, ⟨0x26ba20, 12⟩, ⟨0x271c20, 12⟩⟩,
  ⟨0x0700, 0x16a8350, 0x3cb0, 0x16a2430,
    ⟨0x568920, 12⟩, ⟨0x5b675b, 5⟩, ⟨0x2852e0, 12⟩, ⟨0x28b690, 12⟩⟩,
  ⟨0x0701, 0x16a8350, 0x3cb0, 0x16a2430,
    ⟨0x568920, 12⟩, ⟨0x5b675b, 5⟩, ⟨0x2852e0, 12⟩, ⟨0x28b690, 12⟩⟩,
  ⟨0x0720, 0x16a8cf0, 0x3310, 0x16a2dd0,
    ⟨0x568940, 12⟩, ⟨0x5b677b, 5⟩, ⟨0x2852e0, 12⟩, ⟨0x28b690, 12⟩⟩,
  ⟨0x0740, 0x16b6790, 0x1870, 0x16b0870,
    ⟨0x56d430, 12⟩, ⟨0x5bb26b, 5⟩, ⟨0x2896b0, 12⟩, ⟨0x28fa60, 12⟩⟩,
  ⟨0x0760, 0x16b9d90, 0x2270, 0x16b3e50,
    ⟨0x56d430, 12⟩, ⟨0x5bb26b, 5⟩, ⟨0x2896b0, 12⟩, ⟨0x28fa60, 12⟩⟩,
  ⟨0x0761, 0x16b9d90, 0x2270, 0x16b3e50,
    ⟨0x56d430, 12⟩, ⟨0x5bb26b, 5⟩, ⟨0x2896b0, 12⟩, ⟨0x28fa60, 12⟩⟩,
  ⟨0x0800, 0x1732a90, 0x1570, 0x172cac0,
    ⟨0x597eb0, 12⟩, ⟨0x5e0c14, 5⟩, ⟨0x29a730, 12⟩, ⟨0x2a12f0, 12⟩⟩,
  ⟨0x0820, 0x173ee50, 0x11b0, 0x1738e70,
    ⟨0x598f80, 12⟩, ⟨0x5e1ce4, 5⟩, ⟨0x29a9a0, 12⟩, ⟨0x2a1560, 12⟩⟩,
  ⟨0x0840, 0x173ee50, 0x11b0, 0x1738e70,
    ⟨0x598f80, 12⟩, ⟨0x5e1ce4, 5⟩, ⟨0x29a9a0, 12⟩, ⟨0x2a1560, 12⟩⟩,
  ⟨0x0860, 0x17411b0, 0x2e50, 0x173b1d0,
    ⟨0x598d60, 12⟩, ⟨0x5e1ac4, 5⟩, ⟨0x29a750, 12⟩, ⟨0x2a1310, 12⟩⟩,
  ⟨0x0900, 0x17ddca0, 0x2360, 0x17d7bb0,
    ⟨0x5cc0a0, 12⟩, ⟨0x616d7e, 5⟩, ⟨0x2b74d0, 12⟩, ⟨0x2be0e0, 12⟩⟩,
  ⟨0x0905, 0x17ddca0, 0x2360, 0x17d7bb0,
    ⟨0x5cc0a0, 12⟩, ⟨0x616d7e, 5⟩, ⟨0x2b74d0, 12⟩, ⟨0x2be0e0, 12⟩⟩,
  ⟨0x0920, 0x17de380, 0x1c80, 0x17d8290,
    ⟨0x5cbdc0, 12⟩, ⟨0x616a9e, 5⟩, ⟨0x2b74d0, 12⟩, ⟨0x2be0e0, 12⟩⟩,
  ⟨0x0940, 0x17deb50, 0x14b0, 0x17d8a60,
    ⟨0x5cc490, 12⟩, ⟨0x61716e, 5⟩, ⟨0x2b7ba0, 12⟩, ⟨0x2be7b0, 12⟩⟩,
  ⟨0x0960, 0x17e6f20, 0x10e0, 0x17e0e30,
    ⟨0x5cc500, 12⟩, ⟨0x6171de, 5⟩, ⟨0x2b7c10, 12⟩, ⟨0x2be820, 12⟩⟩,
  ⟨0x1000, 0x17db610, 0x9f0, 0x17d54b0,
    ⟨0x5ca1a0, 12⟩, ⟨0x61341a, 5⟩, ⟨0x2b6700, 12⟩, ⟨0x17d1f00, 16⟩⟩,
  ⟨0x1001, 0x17db610, 0x9f0, 0x17d54b0,
    ⟨0x5ca1a0, 12⟩, ⟨0x61341a, 5⟩, ⟨0x2b6700, 12⟩, ⟨0x17d1f00, 16⟩⟩,
  ⟨0x1020, 0x17df8e0, 0x720, 0x17d9770,
    ⟨0x5ca1a0, 12⟩, ⟨0x61341a, 5⟩, ⟨0x2b6700, 12⟩, ⟨0x17d61c0, 16⟩⟩,
  ⟨0x1040, 0x17df900, 0x700, 0x17d9790,
    ⟨0x5ca0f0, 12⟩, ⟨0x61336a, 5⟩, ⟨0x2b6760, 12⟩, ⟨0x17d61e0, 16⟩⟩,
  ⟨0x1060, 0x17e1180, 0x2e80, 0x17db020,
    ⟨0x5cb980, 12⟩, ⟨0x614bfa, 5⟩, ⟨0x2b80c0, 12⟩, ⟨0x17d7a60, 16⟩⟩,
  ⟨0x1100, 0x18685a0, 0x3a60, 0x1862270,
    ⟨0x62a940, 12⟩, ⟨0x675d25, 5⟩, ⟨0x2bd880, 12⟩, ⟨0x2c4e60, 15⟩⟩,
  ⟨0x1120, 0x18689a0, 0x3660, 0x1862670,
    ⟨0x62aab0, 12⟩, ⟨0x675e95, 5⟩, ⟨0x2bd930, 12⟩, ⟨0x2c4f10, 15⟩⟩,
  ⟨0x1140, 0x186ace0, 0x1320, 0x18649b0,
    ⟨0x62ba90, 12⟩, ⟨0x676e75, 5⟩, ⟨0x2be910, 12⟩, ⟨0x2c5ef0, 15⟩⟩,
  ⟨0x1160, 0x1873d30, 0x2d0, 0x186d9f0,
    ⟨0x633500, 12⟩, ⟨0x67e8e5, 5⟩, ⟨0x2c2c10, 12⟩, ⟨0x2ca1f0, 15⟩⟩,
  ⟨0x1200, 0x1886360, 0x1ca0, 0x18801e0,
    ⟨0x647410, 12⟩, ⟨0x692a49, 5⟩, ⟨0x2e0050, 12⟩, ⟨0x2dd100, 12⟩⟩,
  ⟨0x1202, 0x1886360, 0x1ca0, 0x18801e0,
    ⟨0x647410, 12⟩, ⟨0x692a49, 5⟩, ⟨0x2e0050, 12⟩, ⟨0x2dd100, 12⟩⟩,
  ⟨0x1220, 0x1887200, 0xe00, 0x1881080,
    ⟨0x647410, 12⟩, ⟨0x692a49, 5⟩, ⟨0x2e0050, 12⟩, ⟨0x2dd100, 12⟩⟩,
  ⟨0x1240, 0x1887200, 0xe00, 0x1881080,
    ⟨0x647410, 12⟩, ⟨0x692a49, 5⟩, ⟨0x2e0050, 12⟩, ⟨0x2dd100, 12⟩⟩,
  ⟨0x1260, 0x188dfa0, 0x2060, 0x1887e20,
    ⟨0x648660, 12⟩, ⟨0x693c99, 5⟩, ⟨0x2e0320, 12⟩, ⟨0x2dd3d0, 12⟩⟩,
  ⟨0x1270, 0x188dfa0, 0x2060, 0x1887e20,
    ⟨0x648660, 12⟩, ⟨0x693c99, 5⟩, ⟨0x2e0320, 12⟩, ⟨0x2dd3d0, 12⟩⟩,
  ⟨0x1300, 0x1958090, 0x3f70, 0x1951d40,
    ⟨0x688db0, 12⟩, ⟨0x6d49d7, 5⟩, ⟨0x31f6e0, 12⟩, ⟨0x31c790, 12⟩⟩,
  ⟨0x1320, 0x19619f0, 0x2610, 0x195b6a0,
    ⟨0x68d600, 12⟩, ⟨0x6d9227, 5⟩, ⟨0x31ff20, 12⟩, ⟨0x31cfd0, 12⟩⟩,
  ⟨0x1340, 0x1961b70, 0x2490, 0x195b820,
    ⟨0x68d780, 12⟩, ⟨0x6d93a7, 5⟩, ⟨0x3200a0, 12⟩, ⟨0x31d150, 12⟩⟩,
  ⟨0x1342, 0x1961b70, 0x2490, 0x195b820,
    ⟨0x68d780, 12⟩, ⟨0x6d93a7, 5⟩, ⟨0x3200a0, 12⟩, ⟨0x31d150, 12⟩⟩,
  ⟨0x1360, 0x1962700, 0x1900, 0x195c3c0,
    ⟨0x68e330, 12⟩, ⟨0x6d9f57, 5⟩, ⟨0x320c40, 12⟩, ⟨0x31dcf0, 12⟩⟩
]

/-- `sm_shellcore_offsets_for_firmware`. -/
def offsetsForFirmware (rawFirmware : Nat) : Option FirmwareOffsets :=
  shellcoreOffsets.find? fun o => o.firmware = rawFirmware / 2 ^ 16 % 2 ^ 16

namespace FirmwareOffsets

/-- The range of a hook site in the image. -/
def site (o : FirmwareOffsets) (h : Hook) : TargetOffset := o.targets h.target

/-- The sites and the cave of a row are apart, near each other, and of the right size; the
function that the sandbox site calls is not in the cave. -/
structure WellFormed (o : FirmwareOffsets) : Prop where
  sandboxSize : o.sandboxReady.patchSize = 5
  jumpSize : ∀ h ∈ hookOrder, h ≠ .sandbox →
    12 ≤ (o.site h).patchSize ∧ (o.site h).patchSize ≤ 16
  sitesApart : ∀ h ∈ hookOrder, ∀ h' ∈ hookOrder, h ≠ h' →
    Apart (o.site h).offset (o.site h).patchSize (o.site h').offset (o.site h').patchSize
  caveApart : ∀ h ∈ hookOrder,
    Apart (o.site h).offset (o.site h).patchSize o.bridgeCaveOffset o.bridgeCaveSize
  callApart : Apart o.sandboxCallTargetOffset 1 o.bridgeCaveOffset o.bridgeCaveSize
  near : ∀ h ∈ hookOrder, (o.site h).offset + (o.site h).patchSize < 2 ^ 30
  caveNear : o.bridgeCaveOffset + o.bridgeCaveSize < 2 ^ 30
  callNear : o.sandboxCallTargetOffset < 2 ^ 30

/-- The conditions of `WellFormed`, to be evaluated. -/
def wellFormed (o : FirmwareOffsets) : Bool :=
  o.sandboxReady.patchSize = 5 &&
    hookOrder.all (fun h => h = .sandbox ||
      12 ≤ (o.site h).patchSize && (o.site h).patchSize ≤ 16) &&
    hookOrder.all (fun h => hookOrder.all fun h' => h = h' ||
      Apart (o.site h).offset (o.site h).patchSize (o.site h').offset (o.site h').patchSize) &&
    hookOrder.all (fun h =>
      Apart (o.site h).offset (o.site h).patchSize o.bridgeCaveOffset o.bridgeCaveSize) &&
    Apart o.sandboxCallTargetOffset 1 o.bridgeCaveOffset o.bridgeCaveSize &&
    hookOrder.all (fun h => (o.site h).offset + (o.site h).patchSize < 2 ^ 30) &&
    o.bridgeCaveOffset + o.bridgeCaveSize < 2 ^ 30 && o.sandboxCallTargetOffset < 2 ^ 30

theorem WellFormed.of_wellFormed {o : FirmwareOffsets} (h : o.wellFormed = true) :
    o.WellFormed := by
  simp only [wellFormed, Bool.and_eq_true, Bool.or_eq_true, List.all_eq_true,
    decide_eq_true_eq] at h
  obtain ⟨⟨⟨⟨⟨⟨⟨hsandbox, hjump⟩, hsites⟩, hcave⟩, hcall⟩, hnear⟩, hcaveNear⟩, hcallNear⟩ := h
  exact ⟨hsandbox, fun h hh hne => (hjump h hh).resolve_left hne,
    fun h hh h' hh' hne => (hsites h hh h' hh').resolve_left hne, hcave, hcall, hnear,
    hcaveNear, hcallNear⟩

end FirmwareOffsets

/-- Every row of the table is in order. -/
theorem shellcoreOffsets_wellFormed : shellcoreOffsets.all FirmwareOffsets.wellFormed = true := by
  decide +kernel

/-- What the table says of a supported firmware. -/
theorem offsets_wellFormed {rawFirmware : Nat} {o : FirmwareOffsets}
    (h : offsetsForFirmware rawFirmware = some o) : o.WellFormed := by
  have hmem : o ∈ shellcoreOffsets := List.mem_of_find?_eq_some h
  exact FirmwareOffsets.WellFormed.of_wellFormed
    (List.all_eq_true.mp shellcoreOffsets_wellFormed o hmem)

end ShadowMount.ShellcoreHooks
