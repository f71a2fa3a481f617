import Kestrel64.Lib.Transition
import Kestrel64.Lib.OrdMap
import Kestrel64.Netplay.Types
import Kestrel64.Netplay.Session
import Kestrel64.Netplay.Step
import Kestrel64.Netplay.Membership
import Kestrel64.Netplay.Agreement
import Kestrel64.Netplay.View
import Kestrel64.Netplay.Lockstep
import Kestrel64.Lib.Bytes
import Kestrel64.Lib.Patch
import Kestrel64.Rewind.Codec
import Kestrel64.Rewind.DeltaSink
import Kestrel64.Rewind.Engine
import Kestrel64.Lib.Limbs
import Kestrel64.Lib.Simd
import Kestrel64.Rsp.Vector
import Kestrel64.Rsp.VectorEquiv
import Kestrel64.Cpu.Bus
import Kestrel64.Cpu.Translate
import Kestrel64.Cpu.LoadStore
import Kestrel64.Cpu.HelperEquiv
import Kestrel64.Rsp.Block
import Kestrel64.Rsp.CodeCache
import Kestrel64.Rsp.Control
import Kestrel64.Rsp.ControlEquiv
import Kestrel64.Rcp.Video
import Kestrel64.Rcp.Audio
import Kestrel64.Cpu.Counters
import Kestrel64.Rcp.SpSignals
import Kestrel64.Lib.RingLog
import Kestrel64.Rcp.DpSchedule
import Kestrel64.Lib.Reciprocal
import Kestrel64.Rcp.Pace
import Kestrel64.Rcp.DpChange
import Kestrel64.Rsp.IdleSkip
import Kestrel64.Rcp.DpCost
import Kestrel64.Rcp.DpFifo
import Kestrel64.Cpu.DCache
import Kestrel64.Cpu.MemInstr
import Kestrel64.Cpu.WriteBarrier
import Kestrel64.Cpu.WriteCover
import Kestrel64.Netplay.Relay
import Kestrel64.Rewind.Chunking
import Kestrel64.Rewind.Decode
import Kestrel64.Rcp.DpcMailbox
import Kestrel64.Lib.Overlay
import Kestrel64.Rcp.DmaJournal
import Kestrel64.Rcp.DmaRuns
import Kestrel64.Rcp.SpDma
import Kestrel64.Rcp.PiDma
import Kestrel64.Lib.BitStream
import Kestrel64.Lib.CanonicalCode
import Kestrel64.Archive.Inflate
import Kestrel64.Archive.Deflate
import Kestrel64.Archive.BitReader
import Kestrel64.Archive.InflateComplete
import Kestrel64.Archive.InflateHalts
import Kestrel64.Cpu.Core
import Kestrel64.Cpu.Interp
import Kestrel64.Cpu.Precise
import Kestrel64.Cpu.FetchMemo
import Kestrel64.Cpu.FetchRuns
import Kestrel64.Net.Frame
import Kestrel64.Lib.Decimal
import Kestrel64.Telemetry.Json
import Kestrel64.Telemetry.JsonRound
import Kestrel64.Movie.Tape
import Kestrel64.Movie.Replay
import Kestrel64.Cheats.Engine
import Kestrel64.Cheats.Reference
import Kestrel64.Sd.Names
import Kestrel64.Sd.ShortNames
import Kestrel64.Lib.Utf
import Kestrel64.Lib.Fat
import Kestrel64.Sd.Directory
import Kestrel64.Sd.LongNames
import Kestrel64.Archive.Written
import Kestrel64.Archive.InflateSound
import Kestrel64.Lib.Checked
import Kestrel64.Archive.Indexed
import Kestrel64.Archive.InBounds
import Kestrel64.Archive.Unwrap
import Kestrel64.Archive.UnwrapSafe
import Kestrel64.Lib.Crc
import Kestrel64.Archive.Zip
import Kestrel64.Archive.ZipExtract
import Kestrel64.Lib.Extents
import Kestrel64.Lib.FatVolume
import Kestrel64.Sd.Volume
import Kestrel64.Sd.VolumeLayout
import Kestrel64.Sd.VolumeRead
import Kestrel64.Gb.Rtc
import Kestrel64.Gb.Cart
import Kestrel64.Si.Joybus
import Kestrel64.Si.JoybusSafe
import Kestrel64.Si.JoybusSaves
import Kestrel64.Si.JoybusFlags
import Kestrel64.Cpu.GuardBound
import Kestrel64.Cpu.Interlock
import Kestrel64.Cpu.Spending
import Kestrel64.Cpu.StallBound
import Kestrel64.Cpu.GuardSafe
import Kestrel64.Cpu.TlbProbe
import Kestrel64.Cpu.CacheTags
import Kestrel64.Cpu.CacheHits
import Kestrel64.Cpu.BigEndian
import Kestrel64.Cheats.Coherent
import Kestrel64.Rdp.EdgeWalk
import Kestrel64.Rdp.EdgeRange
import Kestrel64.Rdp.Raster
import Kestrel64.Rdp.CostPass
import Kestrel64.Lib.Index
import Kestrel64.Lib.Moves
import Kestrel64.Rdp.Tmem
import Kestrel64.Rdp.TmemLoads
import Kestrel64.Rsp.Reciprocal
import Kestrel64.Rsp.VectorMem
import Kestrel64.Rdp.Combiner
import Kestrel64.Rdp.CombinerEquiv
import Kestrel64.Cpu.PageMap
import Kestrel64.Cpu.RamView
import Kestrel64.Cpu.Unaligned
import Kestrel64.Cart.SummerCart
import Kestrel64.Cart.SummerCartSafe
import Kestrel64.Rdp.TexelFetch
import Kestrel64.Rdp.BlockLoad
import Kestrel64.Savestate.Fields
import Kestrel64.Savestate.Order
import Kestrel64.Savestate.Format
import Kestrel64.Rewind.Session
import Kestrel64.Lib.Slots
import Kestrel64.Rdp.WriteZone
import Kestrel64.Rcp.DmaGuard
import Kestrel64.Lib.WriteBack
import Kestrel64.Cart.SaveMemory
import Kestrel64.Cart.SaveFile
import Kestrel64.Cart.FlashStore
import Kestrel64.Lib.RingBuffer
import Kestrel64.Audio.Sink
import Kestrel64.Lib.Nearest
import Kestrel64.Lib.Segments
import Kestrel64.Rdp.Depth
import Kestrel64.Lib.Writes
import Kestrel64.Rdp.PixelWrite
import Kestrel64.Rdp.DrawOrder
