import ShadowMount.Shellcore.LiveOwners
import ShadowMount.ImageIndex.Completeness
import ShadowMount.GameCache.Uniqueness
import ShadowMount.GameCache.ScanRoot
import ShadowMount.Config.Lookup
import ShadowMount.Storage.Move
import ShadowMount.ImageMount.Detach
import ShadowMount.InstallQueue.Wake
import ShadowMount.StateTable.Recall
import ShadowMount.PkgStream.Reads
import ShadowMount.GameLifecycle.Handoff
import ShadowMount.GameLifecycle.Background
import ShadowMount.Executable.Bounds
import ShadowMount.LogMonitor.Heard
import ShadowMount.ConfigWatch.Noticed
import ShadowMount.ShellcoreHooks.Interruption
import ShadowMount.SmbIo.GapFree
import ShadowMount.Storage.Replace
import ShadowMount.UsbEject.Pause
import ShadowMount.StorageJob.Invariant
import ShadowMount.PkgBackport.Ownership
import ShadowMount.FakelibCache.Freshness
import ShadowMount.ImageCache.Capacity
import ShadowMount.MountLinks.Store
import ShadowMount.LinkCleanup.Recovery
import ShadowMount.AppDb.Coherence
import ShadowMount.PkgServer.Coverage
import ShadowMount.PkgServer.Url
import ShadowMount.PackageSource.BrowserDelete
import ShadowMount.Manual.RoundTrip
import ShadowMount.PkgWs.Messages
import ShadowMount.StorageCopy.Sizes
import ShadowMount.WatchTree.Requests
import ShadowMount.WatchEvents.Delivery
import ShadowMount.PackageInstall.Completion
import ShadowMount.AmprUpdater.HttpDate
