import Nas.AccessStores
import Nas.Allocation
import Nas.Attributes
import Nas.Audio
import Nas.BucketCache
import Nas.BucketTransfer
import Nas.Cascade
import Nas.Cells
import Nas.Chain
import Nas.ClientQueue
import Nas.ClientTable
import Nas.Clients
import Nas.Compile
import Nas.CompileCount
import Nas.CompileMeaning
import Nas.CompileRule
import Nas.CompileTotal
import Nas.ConnectionSetup
import Nas.Convert
import Nas.Credit
import Nas.Dag
import Nas.DataPath
import Nas.Demux
import Nas.Dispatch
import Nas.ElementCodec
import Nas.Elements
import Nas.ErrorText
import Nas.EventHandlers
import Nas.EventQueue
import Nas.Exec
import Nas.Fields
import Nas.FixedPoint
import Nas.Framing
import Nas.InPlace
import Nas.InputFraming
import Nas.InputInv
import Nas.Io
import Nas.Isolation
import Nas.Ledger
import Nas.Limits
import Nas.LinkedList
import Nas.Loop
import Nas.Matching
import Nas.Memory
import Nas.Merge
import Nas.Mix
import Nas.Multimap
import Nas.Multiply
import Nas.OutputInv
import Nas.OutputStream
import Nas.PendingOutput
import Nas.PhysicalOutputs
import Nas.Pool
import Nas.Port
import Nas.PortInv
import Nas.PortRead
import Nas.RateConvert
import Nas.ReadClient
import Nas.ReadyInput
import Nas.RebuildTable
import Nas.Recompile
import Nas.RecompileRuns
import Nas.RefCount
import Nas.Reply
import Nas.RequestLayout
import Nas.Resample
import Nas.Resource
import Nas.ResourceInv
import Nas.ResourceRuns
import Nas.ResourceTable
import Nas.Ring
import Nas.SampleCount
import Nas.ScratchFlows
import Nas.Serial
import Nas.Server
import Nas.ServerRule
import Nas.SetElements
import Nas.SetParameters
import Nas.Setup
import Nas.SoundOwnership
import Nas.SoundPump
import Nas.SoundRate
import Nas.SoundReaders
import Nas.SoundRoundTrip
import Nas.SoundSafety
import Nas.SoundTermination
import Nas.SoundWriters
import Nas.StateChange
import Nas.Stdio
import Nas.Struct
import Nas.SwapElement
import Nas.SwapFraming
import Nas.SwapRequests
import Nas.TableCount
import Nas.TableLookup
import Nas.TrackBounds
import Nas.TrackRuns
import Nas.Transport
import Nas.UlawLoops
import Nas.Underrun
import Nas.VocRate
import Nas.WaveLimit
import Nas.Wire
import Nas.Wiring
import Nas.WorkQueue
