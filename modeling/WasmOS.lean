import WasmOS.XferBuffer.Rights
import WasmOS.Ipc.Isolation
import WasmOS.XferBuffer.Dma
import WasmOS.Physmem.Boot
import WasmOS.Process.Exit
import WasmOS.PartitionManager.Isolation
import WasmOS.Wfs.Mkfs.Checked
import WasmOS.FsManager.Service
import WasmOS.Fat.Block
import WasmOS.Fat.FiniteMap
import WasmOS.Fat.Geometry
import WasmOS.Fat.Pool
import WasmOS.Wfs.Journal.Apply
import WasmOS.Wfs.Volume.ExtentWords
import WasmOS.Wfs.Volume.TruncateSchedule
import WasmOS.Wfs.Dirent.FiniteMap
import WasmOS.Wfs.Journal.Sync
import WasmOS.Wfs.OnDisk.SuperWrite
import WasmOS.XferBuffer.Drop
import WasmOS.Sched.Ksync
import WasmOS.Sched.PickNext
import WasmOS.Irq.Sharing
import WasmOS.Memory.Overlay
import WasmOS.Ringbuf.Peer
import WasmOS.Kernel.Hashmap
import WasmOS.Kernel.Idtable
import WasmOS.Tmpfs.Namespace
import WasmOS.Process.Threads
