import Liano.Variable.RuntimeCacheCoherence
import Liano.Variable.FragmentedWrite
import Liano.Pci.Lookups
import Liano.Net.Queue
import Liano.Base64.RoundTrip
import Liano.SortLib.QuickSort
import Liano.Net.Ip4Fragments
import Liano.Mtftp.Download
import Liano.Qemu.PointersInside
import Liano.Http.Splitting
import Liano.Dispatcher.Dispatching
import Liano.Net.Ip6Fragments
import Liano.Tcp.Congestion
import Liano.Handle.Multiple
import Liano.Handle.Runs
import Liano.DiskIo.Once
import Liano.DiskIo.Requests
import Liano.Fat.Coherence
import Liano.Fat.Files
import Liano.Virtio.LockStep
import Liano.Xen.Delivery
import Liano.Dhcp4.ParseBack
import Liano.Auth.CertDb
import Liano.Gpt.Entries
import Liano.Gpt.Validated
import Liano.Smbios.Runs
import Liano.Smm.Runs
import Liano.Kcs.Write
import Liano.Kcs.Read
import Liano.SerializeVariables.Loading
import Liano.Hii.Url
import Liano.OrderedCollection.Traversal
import Liano.Variable.SpaceCheckRuns
import Liano.Mtrr.Readers
import Liano.Gcd.ExactSearch
import Liano.Gcd.Owners
import Liano.Gcd.AddMemorySpace
import Liano.Mtrr.Vertices
import Liano.MemoryMap.FindFreePages
import Liano.Base.SafeInt
import Liano.Net.Checksum
import Liano.Timer.Runs
import Liano.Base.IpParsing
