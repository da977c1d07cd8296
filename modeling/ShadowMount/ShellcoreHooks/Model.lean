import ShadowMount.Foundation.Faults
import ShadowMount.Foundation.Transition
import ShadowMount.ShellcoreHooks.Jumps
import ShadowMount.ShellcoreHooks.Offsets

/-!
# The hooks of SceShellCore

The operations of {lit}`sm_shellcore_hooks.c`: a bridge is written into a cave of the
SceShellCore process, and the beginnings of two or three of its functions are patched to jump
into the bridge.  The program records what it has patched, so that it can repair lost patches
and put the original bytes back when it stops.

The process is another one, reached through remote calls, every one of which may fail; a
failed write may have reached some of its bytes.  Between two operations anything may happen
to the process: the system puts back original bytes, another payload patches a site, the
process is replaced, or this program is killed and started anew without its record.
-/

namespace ShadowMount.ShellcoreHooks

open Foundation

/-- The blob of `sm_shellcore_bridge.S`: its bytes, and the offsets of its symbols.
Firmware before 12.00 takes only its base. -/
structure Blob where
  code : List UInt8
  baseSize : Nat
  /-- `k_hook_symbols`. -/
  hook : Hook → Nat
  launchTrampoline : Nat
  installTrampoline : Nat
  sandboxOriginal : Nat
  installTitleDir : Nat
  installArmed : Nat
  /-- The slots of `k_bridge_imports`. -/
  imports : List Nat
  /-- `k_install_title_slots`. -/
  titleSlots : List Nat
  /-- `k_install_dir_slots`. -/
  dirSlots : List Nat
  size_le : code.length ≤ 2048
  base_le : baseSize ≤ code.length
  hook_lt : ∀ h, hook h < code.length
  sandboxHook_lt : hook .sandbox < baseSize
  trampolinesApart : Apart launchTrampoline trampolineSize installTrampoline trampolineSize
  slotsApart : ∀ t ∈ [launchTrampoline, installTrampoline],
    ∀ a ∈ imports ++ [sandboxOriginal, installTitleDir] ++ titleSlots ++ dirSlots,
      Apart t trampolineSize a 8
  armedApart : ∀ t ∈ [launchTrampoline, installTrampoline], Apart t trampolineSize installArmed 1
  launchInside : launchTrampoline + trampolineSize ≤ baseSize
  installInside : installTrampoline + trampolineSize ≤ code.length
  slotsInside : ∀ a ∈ titleSlots ++ dirSlots, a + 8 ≤ code.length
  armedInside : installArmed + 1 ≤ code.length

/-- The symbols of `trampoline_symbols`; a call needs no trampoline. -/
def Blob.trampoline (b : Blob) : Hook → Option Nat
  | .launch => some b.launchTrampoline
  | .sandbox => none
  | .install => some b.installTrampoline

/-- A console: its firmware, which is a supported one, and the bridge. -/
structure Console where
  /-- `kernel_get_fw_version`. -/
  rawFirmware : Nat
  offsets : FirmwareOffsets
  supported : offsetsForFirmware rawFirmware = some offsets
  blob : Blob

/-- `SM_SHELLCORE_BRIDGE_MAX_BLOB_SIZE`. -/
def maxBlobSize : Nat := 2048

/-- `BRIDGE_SIGNATURE_SIZE`. -/
def bridgeSignatureSize : Nat := 64

/-- `k_expected_function_prologue`. -/
def expectedFunctionPrologue : List UInt8 := [0x55, 0x48, 0x89, 0xe5]

/-- The SceShellCore process.  The last three fields are not the program's: they tell what
the theorems about it compare with. -/
structure Process where
  pid : Nat
  imageBase : Nat
  /-- The image lies in the lower part of the address space. -/
  base_lt : imageBase < 2 ^ 61
  memory : Memory UInt8
  /-- Stopped by `PT_ATTACH`. -/
  stopped : Bool
  /-- The addresses that `kernel_dynlib_dlsym` finds for `k_bridge_imports`. -/
  symbols : Nat → Nat
  /-- The memory before the first installation. -/
  before : Memory UInt8
  /-- Has an installation ever begun in this process? -/
  touched : Bool
  /-- Which sites another payload has patched since. -/
  foreign : Hook → Bool

/-- What a write is for. -/
inductive Purpose where
  /-- To take away the patches of a previous run. -/
  | recovery
  | other
deriving DecidableEq

/-- The remote calls. -/
inductive Call where
  | findPid
  | attach
  | detach
  | resolve
  | read (address size : Nat)
  | write (purpose : Purpose) (address : Nat) (bytes : List UInt8)
  | mlock
  | dynlibHandle
  | dlsym (slot : Nat)
  | kill
deriving DecidableEq

/-- How a call can fail: a write may have reached some bytes, and an attach whose wait fails
may not be able to let go of the process again. -/
structure Fault where
  torn : Purpose → Nat → Bool
  stuck : Bool

/-- Programs that work on the process. -/
abbrev Prog (α : Type) := Exec Process Call Fault α

/-- `find_shellcore_pid`. -/
def findShellcorePid : Prog (Option Nat) := query .findPid fun p => some p.pid

/-- `sm_remote_process_attach`. -/
def remoteProcessAttach (pid : Nat) : Prog Bool :=
  lossyCall .attach
    (fun e p => if p.pid = pid ∧ e.stuck then { p with stopped := true } else p)
    (fun p => if p.pid = pid ∧ ¬ p.stopped then some { p with stopped := true } else none)

/-- `sm_remote_process_detach`. -/
def remoteProcessDetach (pid : Nat) : Prog Bool :=
  lossyCall .detach (fun _ p => p)
    (fun p => if p.pid = pid ∧ p.stopped then some { p with stopped := false } else none)

/-- May a range of the process be accessed? -/
def accessible (p : Process) (pid address size : Nat) : Bool :=
  p.pid = pid && size ≠ 0 && address + size ≤ 2 ^ 64

/-- `sm_remote_process_read`. -/
def remoteProcessRead (pid address size : Nat) : Prog (Option (List UInt8)) :=
  query (.read address size) fun p =>
    if accessible p pid address size then some (p.memory.read address size) else none

/-- `sm_remote_process_write`. -/
def remoteProcessWrite (purpose : Purpose) (pid address : Nat) (bytes : List UInt8) : Prog Bool :=
  lossyCall (.write purpose address bytes)
    (fun e p =>
      if accessible p pid address bytes.length then
        { p with memory := p.memory.tear address bytes (e.torn purpose) }
      else p)
    (fun p =>
      if accessible p pid address bytes.length then
        some { p with memory := p.memory.write address bytes }
      else none)

/-- `sm_kstuff_remote_mlock`. -/
def kstuffRemoteMlock (pid : Nat) : Prog Bool := do
  return (← query .mlock fun p => if p.pid = pid then some () else none).isSome

/-- `sm_shellcore_remote_t`. -/
structure Remote where
  pid : Nat
  imageBase : Nat
  offsets : FirmwareOffsets
deriving DecidableEq, Inhabited

/-- `targets` of the remote image. -/
def Remote.target (r : Remote) (t : Target) : Nat := r.imageBase + (r.offsets.targets t).offset

/-- `shellcore_hooks_status_t`. -/
inductive Status where
  | empty
  | ready
  | rollbackPending
  | stale
deriving DecidableEq

/-- `shellcore_hooks_state_t`. -/
structure Hooks where
  status : Status
  enabled : Bool
  attached : Bool
  remote : Remote
  bridgeAddress : Nat
  bridgeSize : Nat
  hookCount : Nat
  /-- `original` of the hook records. -/
  original : Hook → List UInt8

/-- The zeroed state. -/
def Hooks.zero : Hooks where
  status := .empty
  enabled := false
  attached := false
  remote := default
  bridgeAddress := 0
  bridgeSize := 0
  hookCount := 0
  original := fun _ => []

namespace Hooks

/-- The hooks that are recorded. -/
def recorded (g : Hooks) : List Hook := hookOrder.take g.hookCount

/-- The address of a hook site. -/
def site (g : Hooks) (h : Hook) : Nat := g.remote.target h.target

end Hooks

variable (c : Console)

/-- `sm_shellcore_remote_resolve`. -/
def shellcoreRemoteResolve (pid : Nat) : Prog (Option Remote) :=
  query .resolve fun p =>
    if p.pid = pid ∧ p.imageBase ≠ 0 then
      (offsetsForFirmware c.rawFirmware).map fun offsets => ⟨pid, p.imageBase, offsets⟩
    else none

/-- `sm_shellcore_install_bridge_enabled`. -/
def installBridgeEnabled : Bool := 0x1200 ≤ c.rawFirmware / 2 ^ 16 % 2 ^ 16

/-- `hook_count` of an installation. -/
def hookCount : Nat := if installBridgeEnabled c then 3 else 2

/-- `blob_size` of an installation. -/
def blobSize : Nat := if installBridgeEnabled c then c.blob.code.length else c.blob.baseSize

/-- The loop of `verify_remote_bytes`, which reads at most 256 bytes at a time. -/
def verifyChunks (pid : Nat) : Nat → Nat → List UInt8 → Prog Bool
  | 0, _, _ => return true
  | fuel + 1, address, expected =>
    if expected = [] then return true
    else do
      let chunk := expected.take 256
      match ← remoteProcessRead pid address chunk.length with
      | none => return false
      | some buffer =>
        if buffer = chunk then
          verifyChunks pid fuel (address + chunk.length) (expected.drop 256)
        else return false

/-- `verify_remote_bytes`. -/
def verifyRemoteBytes (pid address : Nat) (expected : List UInt8) : Prog Bool :=
  verifyChunks pid expected.length address expected

/-- `remote_range_is_zero`. -/
def remoteRangeIsZero (pid address size : Nat) : Prog Bool :=
  verifyRemoteBytes pid address (List.replicate size 0)

/-- `bridge_cave_is_available`. -/
def bridgeCaveIsAvailable (pid bridgeAddress bridgeSize : Nat) : Prog Bool := do
  if bridgeSize < bridgeSignatureSize then return false
  else if ← remoteRangeIsZero pid bridgeAddress bridgeSize then return true
  else verifyRemoteBytes pid bridgeAddress (c.blob.code.take bridgeSignatureSize)

/-- `restore_remote_bytes`. -/
def restoreRemoteBytes (purpose : Purpose) (pid address : Nat) (original : List UInt8) :
    Prog Bool := do
  if ← remoteProcessWrite purpose pid address original then
    verifyRemoteBytes pid address original
  else return false

/-- The bytes that `patch_remote_jump` and `patch_remote_call` write at a site, to
lead to the hook of a bridge. -/
def patchBytes (r : Remote) (bridgeAddress : Nat) (h : Hook) (size : Nat) : Option (List UInt8) :=
  match h with
  | .sandbox => buildRelativeCall (r.target h.target) (bridgeAddress + c.blob.hook h)
  | .launch => buildHookPatch (bridgeAddress + c.blob.hook h) size
  | .install => buildHookPatch (bridgeAddress + c.blob.hook h) size

/-- `patch_remote_jump` or `patch_remote_call`: the patch is written and read
back. -/
def patchSite (pid : Nat) (g : Hooks) (h : Hook) : Prog Bool := do
  match patchBytes c g.remote g.bridgeAddress h (g.original h).length with
  | none => return false
  | some patch =>
    if ← remoteProcessWrite .other pid (g.site h) patch then
      return (← remoteProcessRead pid (g.site h) patch.length) = some patch
    else return false

/-- `hook_installed`. -/
def hookInstalled (pid : Nat) (g : Hooks) (h : Hook) : Prog Bool :=
  match patchBytes c g.remote g.bridgeAddress h (g.original h).length with
  | none => return false
  | some patch => verifyRemoteBytes pid (g.site h) patch

/-- Are the bytes of a site taken for the original ones?  Of a function only the first four
bytes are looked at. -/
def isOriginal (r : Remote) (h : Hook) (bytes : List UInt8) : Bool :=
  match h with
  | .sandbox =>
    bytes.length = relativeJumpSize &&
      parseRelativeCall bytes (r.target h.target) =
        some (r.imageBase + r.offsets.sandboxCallTargetOffset)
  | .launch => absoluteJumpSize ≤ bytes.length && bytes.take 4 = expectedFunctionPrologue
  | .install => absoluteJumpSize ≤ bytes.length && bytes.take 4 = expectedFunctionPrologue

/-- Do the bytes of a site lead into a bridge? -/
def isStale (r : Remote) (bridgeAddress : Nat) (h : Hook) (bytes : List UInt8) : Bool :=
  match h with
  | .sandbox =>
    bytes.length = relativeJumpSize &&
      parseRelativeCall bytes (r.target h.target) = some (bridgeAddress + c.blob.hook h)
  | .launch => parseAbsoluteJump bytes = some (bridgeAddress + c.blob.hook h)
  | .install => parseAbsoluteJump bytes = some (bridgeAddress + c.blob.hook h)

/-- Read a site whose size is a possible one. -/
def readSite (pid : Nat) (r : Remote) (h : Hook) : Prog (Option (List UInt8)) := do
  let size := (r.offsets.site h).patchSize
  if size = 0 ∨ maxHookPrologueSize < size then return none
  else remoteProcessRead pid (r.target h.target) size

/-- The first loop of `recover_stale_bridge`: the sites that lead into the bridge, or
none when a site holds anything else than that or its original. -/
def findStale (pid : Nat) (r : Remote) (bridgeAddress : Nat) :
    List Hook → Prog (Option (List Hook))
  | [] => return some []
  | h :: rest => do
    match ← readSite pid r h with
    | none => return none
    | some bytes =>
      if isOriginal r h bytes then findStale pid r bridgeAddress rest
      else if isStale c r bridgeAddress h bytes then
        return (← findStale pid r bridgeAddress rest).map (h :: ·)
      else return none

/-- The original bytes of a stale site, from the trampoline of the bridge. -/
def staleOriginal (pid : Nat) (r : Remote) (bridgeAddress bridgeSize : Nat) (h : Hook) :
    Prog (Option (List UInt8)) := do
  let size := (r.offsets.site h).patchSize
  match c.blob.trampoline h with
  | none =>
    let originalTarget := r.imageBase + r.offsets.sandboxCallTargetOffset
    if size ≠ relativeJumpSize then return none
    else return buildRelativeCall (r.target h.target) originalTarget
  | some offset =>
    if bridgeSize < offset + trampolineSize then return none
    else
      match ← remoteProcessRead pid (bridgeAddress + offset) trampolineSize with
      | none => return none
      | some bytes =>
        if bytes.take 4 = expectedFunctionPrologue ∧
            parseRelativeJump (bytes.drop size) (bridgeAddress + offset + size) =
              some (r.target h.target + size) then
          return some (bytes.take size)
        else return none

/-- The second loop of `recover_stale_bridge`. -/
def staleOriginals (pid : Nat) (r : Remote) (bridgeAddress bridgeSize : Nat) :
    List Hook → Prog (Option (List (Hook × List UInt8)))
  | [] => return some []
  | h :: rest => do
    match ← staleOriginal c pid r bridgeAddress bridgeSize h with
    | none => return none
    | some bytes =>
      return (← staleOriginals pid r bridgeAddress bridgeSize rest).map ((h, bytes) :: ·)

/-- The third loop of `recover_stale_bridge`: it gives up at the first site that cannot
be restored. -/
def restoreStale (pid : Nat) (r : Remote) : List (Hook × List UInt8) → Prog Bool
  | [] => return true
  | (h, bytes) :: rest => do
    if ← restoreRemoteBytes .recovery pid (r.target h.target) bytes then
      restoreStale pid r rest
    else return false

/-- `recover_stale_bridge`. -/
def recoverStaleBridge (pid : Nat) (r : Remote) (hooks : List Hook)
    (bridgeAddress bridgeSize : Nat) : Prog Bool := do
  match ← findStale c pid r bridgeAddress hooks with
  | none => return false
  | some [] => return true
  | some stale =>
    if ← verifyRemoteBytes pid bridgeAddress (c.blob.code.take bridgeSignatureSize) then
      match ← staleOriginals c pid r bridgeAddress bridgeSize stale with
      | none => return false
      | some originals => restoreStale pid r originals
    else return false

/-- `bridge_symbol_offset`. -/
def bridgeSymbolOffset (symbol size blobSize : Nat) : Option Nat :=
  if symbol + size ≤ blobSize then some symbol else none

/-- `write_embedded_trampoline`. -/
def writeEmbeddedTrampoline (bridge : Memory UInt8) (blobSize symbol : Nat)
    (original : List UInt8) (remoteBridgeAddress returnAddress : Nat) :
    Option (Memory UInt8) :=
  if original = [] ∨ maxHookPrologueSize < original.length then none
  else do
    let offset ← bridgeSymbolOffset symbol trampolineSize blobSize
    let jump ← buildRelativeJump (remoteBridgeAddress + offset + original.length) returnAddress
    let bridge := bridge.write offset (List.replicate trampolineSize 0x90)
    return (bridge.write offset original).write (offset + original.length) jump

/-- `set_bridge_pointer`. -/
def setBridgePointer (bridge : Memory UInt8) (blobSize symbol value : Nat) :
    Option (Memory UInt8) := do
  let offset ← bridgeSymbolOffset symbol 8 blobSize
  return bridge.write offset (littleEndian 8 value)

/-- The loop of `resolve_bridge_imports`, over the slots with their numbers. -/
def resolveImports (pid blobSize : Nat) : List (Nat × Nat) → Memory UInt8 →
    Prog (Option (Memory UInt8))
  | [], bridge => return some bridge
  | (slot, i) :: rest, bridge => do
    match ← query (.dlsym i) (fun p => if p.pid = pid then some (p.symbols i) else none) with
    | none => return none
    | some 0 => return none
    | some address =>
      match setBridgePointer bridge blobSize slot address with
      | none => return none
      | some bridge => resolveImports pid blobSize rest bridge

/-- `resolve_bridge_imports`. -/
def resolveBridgeImports (pid blobSize : Nat) (bridge : Memory UInt8) :
    Prog (Option (Memory UInt8)) := do
  match ← query .dynlibHandle (fun p => if p.pid = pid then some () else none) with
  | none => return none
  | some () => resolveImports pid blobSize c.blob.imports.zipIdx bridge

/-- The part of `populate_bridge` that needs no call. -/
def embedBridge (g : Hooks) : Option (Memory UInt8) := do
  let bridge : Memory UInt8 := fun i => c.blob.code.getD i 0
  let bridge ← writeEmbeddedTrampoline bridge g.bridgeSize c.blob.launchTrampoline
    (g.original .launch) g.bridgeAddress
    (g.remote.target .launchApp + (g.original .launch).length)
  let bridge ← setBridgePointer bridge g.bridgeSize c.blob.sandboxOriginal
    (g.remote.imageBase + g.remote.offsets.sandboxCallTargetOffset)
  if g.hookCount = 3 then
    let bridge ← writeEmbeddedTrampoline bridge g.bridgeSize c.blob.installTrampoline
      (g.original .install) g.bridgeAddress
      (g.remote.target .installAll + (g.original .install).length)
    setBridgePointer bridge g.bridgeSize c.blob.installTitleDir
      (g.remote.target .installTitleDir)
  else return bridge

/-- `populate_bridge`. -/
def populateBridge (g : Hooks) : Prog (Option (Memory UInt8)) :=
  match embedBridge c g with
  | none => return none
  | some bridge => resolveBridgeImports c g.remote.pid g.bridgeSize bridge

/-- The reading of the mutable slots in `verify_installed_bridge`. -/
def copySlots (pid : Nat) (g : Hooks) : List Nat → Memory UInt8 → Prog (Option (Memory UInt8))
  | [], bridge => return some bridge
  | slot :: rest, bridge => do
    match bridgeSymbolOffset slot 8 g.bridgeSize with
    | none => return none
    | some offset =>
      match ← remoteProcessRead pid (g.bridgeAddress + offset) 8 with
      | none => return none
      | some bytes => copySlots pid g rest (bridge.write offset bytes)

/-- `verify_installed_bridge`. -/
def verifyInstalledBridge (pid : Nat) (g : Hooks) : Prog Bool := do
  if maxBlobSize < g.bridgeSize then return false
  else
    match ← populateBridge c g with
    | none => return false
    | some bridge =>
      let slots :=
        if g.hookCount = 3 then
          (c.blob.titleSlots.zip c.blob.dirSlots).flatMap fun slot => [slot.1, slot.2]
        else []
      match ← copySlots pid g slots bridge with
      | none => return false
      | some bridge => verifyRemoteBytes pid g.bridgeAddress (bridge.read 0 g.bridgeSize)

/-- `cleanup_remote_bridge`: every hook is put back, whatever happens to the others. -/
def cleanupRemoteBridge (pid : Nat) (g : Hooks) : List Hook → Prog Bool
  | [] => return true
  | h :: rest => do
    let restored ← restoreRemoteBytes .other pid (g.site h) (g.original h)
    let others ← cleanupRemoteBridge pid g rest
    return restored && others

/-- The pages that an installation retains, one call for the cave and one for each site. -/
def retainPages (pid : Nat) : Nat → Prog Bool
  | 0 => return true
  | n + 1 => do
    if ← kstuffRemoteMlock pid then retainPages pid n else return false

/-- The loop of `install_hooks_for_pid` that reads the original bytes. -/
def readOriginals (pid : Nat) (r : Remote) :
    List Hook → (Hook → List UInt8) → Prog (Option (Hook → List UInt8))
  | [], originals => return some originals
  | h :: rest, originals => do
    match ← readSite pid r h with
    | none => return none
    | some bytes =>
      if isOriginal r h bytes then
        readOriginals pid r rest (Function.update originals h bytes)
      else return none

/-- The checks of `install_hooks_for_pid` on the resolved image. -/
def imageFits (r : Remote) : Bool :=
  installBridgeEnabled c = decide (0x1200 ≤ r.offsets.firmware) &&
    r.imageBase + r.offsets.bridgeCaveOffset < 2 ^ 64 && blobSize c ≤ r.offsets.bridgeCaveSize

/-- Newer firmware writes past the accounting of the pages, which are retained first. -/
def retainHookPages (pid : Nat) : Prog Bool :=
  if 0x0820 < c.rawFirmware / 2 ^ 16 then retainPages pid (1 + hookCount c) else return true

/-- The prologue of the function that the bridge calls for an installation. -/
def checkTitleDir (pid : Nat) (r : Remote) : Prog Bool :=
  if installBridgeEnabled c then
    verifyRemoteBytes pid (r.target .installTitleDir) expectedFunctionPrologue
  else return true

/-- The cave is populated and read back. -/
def writeCave (pid : Nat) (g : Hooks) : Prog Bool := do
  match ← populateBridge c g with
  | none => return false
  | some bridge =>
    let bytes := bridge.read 0 (blobSize c)
    if ← remoteProcessWrite .other pid g.bridgeAddress bytes then
      verifyRemoteBytes pid g.bridgeAddress bytes
    else return false

/-- `install_hooks_for_pid` after the recovery and before the first patch: the original
bytes are recorded and the cave is populated.  The record is given back in any case. -/
def prepareCave (pid : Nat) (g : Hooks) : Prog (Bool × Hooks) := do
  match ← readOriginals pid g.remote (hookOrder.take (hookCount c)) g.original with
  | none => return (false, g)
  | some originals =>
    let g := { g with original := originals }
    if ← checkTitleDir c pid g.remote then
      if ← bridgeCaveIsAvailable c pid g.bridgeAddress (blobSize c) then
        let g := { g with bridgeSize := blobSize c, hookCount := hookCount c }
        return (← writeCave c pid g, g)
      else return (false, g)
    else return (false, g)

/-- The patches of `install_hooks_for_pid`.  A site counts as patched before the patch is
tried. -/
def patchHooks (pid : Nat) (g : Hooks) : List Hook → Nat → Prog (Bool × Nat)
  | [], patched => return (true, patched)
  | h :: rest, patched => do
    if ← patchSite c pid g h then patchHooks pid g rest (patched + 1)
    else return (false, patched + 1)

/-- `install_hooks_for_pid` up to its label `done`: whether the hooks are installed,
how many sites were touched, and the record. -/
def attemptInstall (pid : Nat) : Prog (Bool × Nat × Hooks) := do
  match ← shellcoreRemoteResolve c pid with
  | none => return (false, 0, Hooks.zero)
  | some r =>
    let g := { Hooks.zero with remote := r }
    if imageFits c r then
      let g := { g with bridgeAddress := r.imageBase + r.offsets.bridgeCaveOffset }
      if ← retainHookPages c pid then
        if ← recoverStaleBridge c pid r (hookOrder.take (hookCount c)) g.bridgeAddress
            (blobSize c) then
          let (ready, g) ← prepareCave c pid g
          if ready then
            let (ok, patched) ← patchHooks c pid g (hookOrder.take (hookCount c)) 0
            return (ok, patched, if ok then { g with status := .ready, enabled := true } else g)
          else return (false, 0, g)
        else return (false, 0, g)
      else return (false, 0, g)
    else return (false, 0, g)

/-- Put back the sites that were touched. -/
def cleanupWhen (needed : Bool) (pid : Nat) (g : Hooks) (hooks : List Hook) : Prog Bool :=
  if needed then cleanupRemoteBridge pid g hooks else return true

/-- The label `done` of `install_hooks_for_pid`: whether the installation stands,
whether a clean-up is pending, and whether the process was let go. -/
def releaseInstall (pid : Nat) (ok : Bool) (patched : Nat) (g : Hooks) :
    Prog (Bool × Bool × Bool) := do
  if ← cleanupWhen (!ok && patched ≠ 0) pid g (hookOrder.take patched) then
    if ← remoteProcessDetach pid then return (ok, false, true)
    else if ← cleanupWhen ok pid g (hookOrder.take (hookCount c)) then
      return (false, false, ← remoteProcessDetach pid)
    else return (false, true, false)
  else return (false, true, false)

/-- What the theorems compare with is taken before the first installation. -/
def noteInstallation : Prog Unit := fun m =>
  let p := m.world
  ((), { m with world :=
    if p.touched then p
    else { p with before := p.memory, touched := true, foreign := fun _ => false } })

/-- `install_hooks_for_pid`, with the record before it. -/
def installHooksForPid (pid : Nat) (old : Hooks) : Prog (Bool × Hooks) := do
  if c.blob.baseSize < bridgeSignatureSize ∨ c.blob.code.length ≤ c.blob.baseSize ∨
      maxBlobSize < c.blob.code.length then return (false, old)
  else if ← remoteProcessAttach pid then
    noteInstallation
    let (ok, patched, g) ← attemptInstall c pid
    let (ok, cleanupPending, detached) ← releaseInstall c pid ok patched g
    if ok then return (true, g)
    else if cleanupPending || !detached then
      return (false, { g with
        attached := !detached
        remote := { g.remote with pid := pid }
        bridgeSize := blobSize c
        hookCount := patched
        status := .rollbackPending })
    else return (false, old)
  else return (false, old)

/-- The loop over `hook_installed` in `refresh_hooks_locked`, which looks at every
hook. -/
def allInstalled (pid : Nat) (g : Hooks) : List Hook → Prog Bool
  | [] => return true
  | h :: rest => do
    let installed ← hookInstalled c pid g h
    let others ← allInstalled pid g rest
    return installed && others

/-- Every site holds its patch or its original bytes. -/
def validateSites (pid : Nat) (g : Hooks) : List Hook → Prog Bool
  | [] => return true
  | h :: rest => do
    if ← hookInstalled c pid g h then validateSites pid g rest
    else if ← verifyRemoteBytes pid (g.site h) (g.original h) then validateSites pid g rest
    else return false

/-- The validation of `refresh_hooks_locked`. -/
def validateRepair (pid : Nat) (g : Hooks) : Prog Bool := do
  match ← shellcoreRemoteResolve c pid with
  | none => return false
  | some r =>
    if r.imageBase ≠ g.remote.imageBase ∨ r.offsets ≠ g.remote.offsets then return false
    else if ← verifyInstalledBridge c pid g then validateSites c pid g g.recorded
    else return false

/-- The loop that patches the lost sites; the sites it has tried are given back. -/
def repairHooks (pid : Nat) (g : Hooks) : List Hook → List Hook → Prog (Bool × List Hook)
  | [], attempted => return (true, attempted)
  | h :: rest, attempted => do
    if ← hookInstalled c pid g h then repairHooks pid g rest attempted
    else if ← patchSite c pid g h then repairHooks pid g rest (attempted ++ [h])
    else return (false, attempted ++ [h])

/-- `refresh_hooks_locked` in the stopped process, up to its label `done`. -/
def attemptRepair (pid : Nat) (g : Hooks) : Prog (Bool × List Hook) := do
  if ← validateRepair c pid g then repairHooks c pid g g.recorded [] else return (false, [])

/-- The label `done` of `refresh_hooks_locked`, with the sites that were tried. -/
def releaseRepair (pid : Nat) (ok : Bool) (attempted : List Hook) (g : Hooks) :
    Prog (Bool × Hooks) := do
  if ← cleanupWhen (!ok) pid g attempted then
    if ← remoteProcessDetach pid then
      return (ok, if ok then { g with status := .ready } else g)
    else
      let detached ← remoteProcessDetach pid
      return (false, { g with status := .rollbackPending, attached := !detached })
  else return (ok, { g with status := .rollbackPending, attached := true })

/-- `refresh_hooks_locked`. -/
def refreshHooksLocked (stopping : Bool) (g : Hooks) : Prog (Bool × Hooks) := do
  if !g.enabled || (g.status ≠ .ready && g.status ≠ .stale) || stopping then return (false, g)
  else
    match ← findShellcorePid with
    | none => return (false, g)
    | some pid =>
      if pid ≠ g.remote.pid then installHooksForPid c pid { g with status := .stale }
      else
        let intact ← allInstalled c pid g g.recorded
        if g.status = .ready && intact then return (true, g)
        else
          let g := { g with status := .stale }
          if ← remoteProcessAttach pid then
            let (ok, attempted) ← attemptRepair c pid g
            releaseRepair pid ok attempted g
          else return (false, g)

/-- `sm_shellcore_hooks_refresh`. -/
def shellcoreHooksRefresh (stopping : Bool) (g : Hooks) : Prog (Bool × Hooks) := do
  if !g.enabled then return (true, g) else refreshHooksLocked c stopping g

/-- `sm_shellcore_hooks_start`. -/
def shellcoreHooksStart (g : Hooks) : Prog (Bool × Hooks) := do
  if g.status ≠ .empty then return (g.enabled && g.status = .ready, g)
  else
    match ← findShellcorePid with
    | none => return (false, Hooks.zero)
    | some pid => installHooksForPid c pid Hooks.zero

/-- What the loop of `stop_bridge_locked` finds out. -/
structure Removal where
  restored : Bool
  rollbackFailed : Bool
deriving DecidableEq

/-- Is a site to be restored?  After a failed rollback it is without looking at it. -/
def toRestore (pid : Nat) (g : Hooks) (h : Hook) : Prog Bool :=
  if g.status = .rollbackPending then return true else hookInstalled c pid g h

/-- One turn of the loop of `stop_bridge_locked`. -/
def removeHook (pid : Nat) (g : Hooks) (h : Hook) : Prog Removal := do
  if ← toRestore c pid g h then
    let restored ← restoreRemoteBytes .other pid (g.site h) (g.original h)
    return ⟨restored, !restored⟩
  else
    return ⟨← verifyRemoteBytes pid (g.site h) (g.original h), false⟩

/-- The loop of `stop_bridge_locked`. -/
def removeHooks (pid : Nat) (g : Hooks) : List Hook → Prog Removal
  | [] => return ⟨true, false⟩
  | h :: rest => do
    let first ← removeHook c pid g h
    let others ← removeHooks pid g rest
    return ⟨first.restored && others.restored, first.rollbackFailed || others.rollbackFailed⟩

/-- Detach, and try again if that fails. -/
def detachTwice (pid : Nat) : Prog Bool := do
  if ← remoteProcessDetach pid then return true else remoteProcessDetach pid

/-- The end of `stop_bridge_locked`, in the image that the record is about. -/
def removeFromImage (g : Hooks) : Prog Hooks := do
  let pid := g.remote.pid
  let removal ← removeHooks c pid g g.recorded
  if removal.rollbackFailed then return { g with status := .rollbackPending }
  else if ← detachTwice pid then
    return if removal.restored then Hooks.zero else { g with attached := false }
  else return { g with status := .rollbackPending }

/-- `stop_bridge_locked` once the process is stopped. -/
def removeBridge (g : Hooks) : Prog Hooks := do
  let pid := g.remote.pid
  if g.hookCount = 0 then
    return if ← remoteProcessDetach pid then Hooks.zero else g
  else
    match ← shellcoreRemoteResolve c pid with
    | none =>
      if g.status ≠ .rollbackPending then
        return { g with attached := !(← remoteProcessDetach pid) }
      else return g
    | some r =>
      if r.imageBase ≠ g.remote.imageBase then
        return if ← remoteProcessDetach pid then Hooks.zero else g
      else removeFromImage c g

/-- `stop_bridge_locked`. -/
def stopBridgeLocked (g : Hooks) : Prog Hooks := do
  let g := { g with enabled := false }
  if g.status = .empty then return g
  else
    let current ← findShellcorePid
    if current.isSome ∧ current ≠ some g.remote.pid then return Hooks.zero
    else if g.attached then removeBridge c g
    else if ← remoteProcessAttach g.remote.pid then removeBridge c { g with attached := true }
    else
      let alive ← query .kill fun p => some (decide (p.pid = g.remote.pid))
      return if alive = some false then Hooks.zero else g

/-- `write_remote_bridge_chunks`, over the slots and their eight bytes each. -/
def writeRemoteBridgeChunks (pid : Nat) (g : Hooks) : List Nat → List UInt8 → Prog Bool
  | [], _ => return true
  | slot :: rest, bytes => do
    if ← remoteProcessWrite .other pid (g.bridgeAddress + slot) (bytes.take 8) then
      writeRemoteBridgeChunks pid g rest (bytes.drop 8)
    else return false

/-- Set the flag that makes the bridge take the next installation. -/
def writeArmed (pid : Nat) (g : Hooks) (armed : UInt8) : Prog Bool :=
  remoteProcessWrite .other pid (g.bridgeAddress + c.blob.installArmed) [armed]

/-- Write the two strings and set the flag. -/
def armTitleDir (pid : Nat) (g : Hooks) (title dir : List UInt8) : Prog Bool := do
  if ← writeRemoteBridgeChunks pid g c.blob.titleSlots title then
    if ← writeRemoteBridgeChunks pid g c.blob.dirSlots dir then writeArmed c pid g 1
    else return false
  else return false

/-- `sm_shellcore_install_title_dir` up to the call of the installer, with the two
padded strings.  Without the flag set it has failed. -/
def beginInstallTitleDir (title dir : List UInt8) (stopping : Bool) (g : Hooks) :
    Prog (Bool × Hooks) := do
  let (ok, g) ← refreshHooksLocked c stopping g
  if !ok || g.hookCount < 3 then return (false, g)
  else
    let pid := g.remote.pid
    if ← armTitleDir c pid g title dir then return (true, g)
    else
      let _ ← writeArmed c pid g 0
      return (false, g)

/-- The rest of `sm_shellcore_install_title_dir`: a bridge that cannot be disarmed is cut
off. -/
def endInstallTitleDir (g : Hooks) : Prog Hooks := do
  let pid := g.remote.pid
  if ← writeArmed c pid g 0 then return g
  else if ← restoreRemoteBytes .other pid (g.site .install) (g.original .install) then
    return { g with status := .stale }
  else return { g with status := .rollbackPending }

/-- The operations on the hooks.  An installation of a title is two of them, between which
the installer runs. -/
inductive Op where
  | start
  | refresh (stopping : Bool)
  | stop
  | beginTitleDir (title dir : List UInt8) (stopping : Bool)
  | endTitleDir
deriving DecidableEq

/-- The program of an operation, with the record it leaves and whether the installer is to be
called. -/
def Op.program (op : Op) (g : Hooks) : Prog (Bool × Hooks) :=
  match op with
  | .start => do return (false, (← shellcoreHooksStart c g).2)
  | .refresh stopping => do return (false, (← shellcoreHooksRefresh c stopping g).2)
  | .stop => do return (false, ← stopBridgeLocked c g)
  | .beginTitleDir title dir stopping => beginInstallTitleDir c title dir stopping g
  | .endTitleDir => do return (false, ← endInstallTitleDir c g)

/-- The process, the record of the program, and whether the installer runs. -/
structure State where
  process : Process
  hooks : Hooks
  dispatching : Bool

namespace State

variable (s : State)

/-- The machine that an operation starts on. -/
def machine (faults : Nat → Option Fault) : Machine Process Call Fault where
  answers n := ⟨faults n, 0⟩
  clock := 0
  world := s.process
  log := []

/-- An operation with what it leaves behind. -/
def perform (op : Op) (faults : Nat → Option Fault) :
    (Bool × Hooks) × Machine Process Call Fault :=
  op.program c s.hooks (s.machine faults)

/-- The state after an operation. -/
def operate (op : Op) (faults : Nat → Option Fault) : State where
  process := (s.perform c op faults).2.world
  hooks := (s.perform c op faults).1.2
  dispatching := (s.perform c op faults).1.1

/-- The program is killed and started anew; the system lets go of the process. -/
def crash : State where
  process := { s.process with stopped := false }
  hooks := Hooks.zero
  dispatching := false

end State

namespace Process

variable (p : Process)

/-- The address of a site. -/
def siteAddress (h : Hook) : Nat := p.imageBase + (c.offsets.site h).offset

/-- The bytes of a site. -/
def site (h : Hook) : List UInt8 := p.memory.read (p.siteAddress c h) (c.offsets.site h).patchSize

/-- The bytes of a site before the first installation. -/
def original (h : Hook) : List UInt8 :=
  p.before.read (p.siteAddress c h) (c.offsets.site h).patchSize

/-- The address of the bridge. -/
def bridge : Nat := p.imageBase + c.offsets.bridgeCaveOffset

/-- The image as the program resolves it. -/
def remote : Remote := ⟨p.pid, p.imageBase, c.offsets⟩

/-- The program's own patch of a site. -/
def patch (h : Hook) : Option (List UInt8) :=
  patchBytes c (p.remote c) (p.bridge c) h (c.offsets.site h).patchSize

/-- The system puts the original bytes back. -/
def lose (h : Hook) : Process :=
  { p with
    memory := p.memory.write (p.siteAddress c h) (p.original c h)
    foreign := Function.update p.foreign h false }

/-- Another payload patches a site. -/
def overwrite (h : Hook) (bytes : List UInt8) : Process :=
  { p with
    memory := p.memory.write (p.siteAddress c h) bytes
    foreign := Function.update p.foreign h p.touched }

/-- A process in which nothing has been installed. -/
def Fresh : Prop :=
  p.touched = false ∧ p.stopped = false ∧ (∀ h, p.foreign h = false) ∧
    ∀ h, some (p.site c h) ≠ p.patch c h

end Process

/-- What happens in a run. -/
inductive Step where
  | operate (op : Op) (faults : Nat → Option Fault)
  | crash
  | lose (h : Hook)
  | overwrite (h : Hook) (bytes : List UInt8)
  | replace (p : Process)

/-- The runs of the program together with its surroundings.  While the installer runs, the
program holds its lock.  The system puts original bytes back only where something was
installed, another payload writes neither the original bytes nor the program's patch, and a new
process has a new number. -/
def system : System State Step where
  init s := s.process.Fresh c ∧ s.hooks = Hooks.zero ∧ s.dispatching = false
  step s step t :=
    match step with
    | .operate op faults =>
      (op = .endTitleDir ↔ s.dispatching = true) ∧ t = s.operate c op faults
    | .crash => t = s.crash
    | .lose h =>
      s.process.touched = true ∧ t = { s with process := s.process.lose c h }
    | .overwrite h bytes =>
      bytes.length = (c.offsets.site h).patchSize ∧
        some bytes ≠ s.process.patch c h ∧
        (s.process.touched = true → bytes ≠ s.process.original c h) ∧
        t = { s with process := s.process.overwrite c h bytes }
    | .replace p =>
      p.Fresh c ∧ p.pid ≠ s.process.pid ∧ p.pid ≠ s.hooks.remote.pid ∧
        t = { s with process := p }

end ShadowMount.ShellcoreHooks
