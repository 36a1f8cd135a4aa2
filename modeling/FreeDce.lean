import FreeDce.Lib.Serial
import FreeDce.Lib.Runs
import FreeDce.Dg.Packet
import FreeDce.Dg.Recvq
import FreeDce.Dg.RecvqShape
import FreeDce.Dg.RecvqRun
import FreeDce.Dg.RecvqLimit
import FreeDce.Dg.RecvqStream
import FreeDce.Dg.Scall
import FreeDce.Dg.Sct
import FreeDce.Dg.Request
import FreeDce.Dg.Execute
import FreeDce.Dg.ServerRun
import FreeDce.Dg.ServerInv
import FreeDce.Dg.RequestShape
import FreeDce.Dg.ServerReach
import FreeDce.Dg.AtMostOnce
import FreeDce.Dg.Rerun
import FreeDce.Cn.Receive
import FreeDce.Cn.Transmit
import FreeDce.Cn.Fragment
import FreeDce.Uuid.Create
import FreeDce.Uuid.Time
import FreeDce.Uuid.Unique
import FreeDce.Com.StringBinding
import FreeDce.Com.StringBindingParse
import FreeDce.Lib.Paging
import FreeDce.Rpcd.EndpointMap
import FreeDce.Rpcd.EndpointMapPages
import FreeDce.Cn.Fragmentation
import FreeDce.Idl.Marsh
import FreeDce.Lib.Memory
import FreeDce.Idl.MarshStream
import FreeDce.Com.Tower
import FreeDce.Lib.Bytes
import FreeDce.Com.TowerRoundTrip
import FreeDce.Uuid.Octets
import FreeDce.Cn.Syntax
import FreeDce.Cn.SyntaxAnswers
import FreeDce.Cn.Security
import FreeDce.Lib.Chain
import FreeDce.Lib.Tiling
import FreeDce.Rpcd.Dsm
import FreeDce.Rpcd.DsmHeap
import FreeDce.Rpcd.DsmAllocate
import FreeDce.Rpcd.DsmRun
import FreeDce.Com.IfLookup
import FreeDce.Com.IfRegistry
import FreeDce.Dg.BindingSerialize
import FreeDce.Idl.NodeTable
import FreeDce.Lib.Radix
import FreeDce.Idl.NodeTableRun
import FreeDce.Idl.FullPointers
import FreeDce.Lib.DoublyLinked
import FreeDce.Idl.ContextTable
import FreeDce.Idl.ContextLists
import FreeDce.Idl.ContextDestroy
import FreeDce.Idl.ContextCreate
import FreeDce.Idl.ContextRundown
import FreeDce.Idl.ContextServer
import FreeDce.Dg.SctTable
import FreeDce.Dg.TransmitInt
import FreeDce.Dg.Maintain
import FreeDce.Threads.Exceptions
import FreeDce.Dg.Monitor
import FreeDce.Dg.Recycle
import FreeDce.Dg.XmitFack
import FreeDce.Com.EpRegister
import FreeDce.Dg.Ping
import FreeDce.Dg.Reservations
import FreeDce.Lib.Slices
import FreeDce.Idl.InOutRuns
import FreeDce.Com.EpResolve
import FreeDce.Dg.Quit
import FreeDce.Dg.Selack
import FreeDce.Lib.Climb
import FreeDce.Dg.FackSafe
import FreeDce.Dg.SelackExact
import FreeDce.Dg.BlastSize
import FreeDce.Dg.XmitQueue
import FreeDce.Dg.RecvPkt
import FreeDce.Cn.FramingSafe
import FreeDce.Dg.TransmitResize
import FreeDce.Cn.HdrBounds
import FreeDce.Dg.AuthTrailer
import FreeDce.Dg.Conv
import FreeDce.Cn.CredFragments
import FreeDce.Cn.GrpTable
import FreeDce.Cn.MsgQueue
import FreeDce.Cn.SegSize
import FreeDce.Cn.SendFrag
import FreeDce.Rpc.Timer
import FreeDce.Cn.UnpackSwap
import FreeDce.Lib.ByteSwap
import FreeDce.Rpcd.DsmMarkers
import FreeDce.Cn.NtlmsspStream
import FreeDce.Idl.UnionArms
import FreeDce.Lib.Keystream
import FreeDce.Com.StringEscape
import FreeDce.Idl.VaryingSlices
import FreeDce.Lib.RowMajor
import FreeDce.Idl.ArrayBounds
import FreeDce.Cn.GssProtect
import FreeDce.Com.IfRegistration
import FreeDce.Com.TowerBounds
import FreeDce.Rpcd.EpReplace
import FreeDce.Codeset.Eval
import FreeDce.Codeset.Stub
import FreeDce.Uuid.ClockWords
import FreeDce.Cn.GrpReuse
import FreeDce.Com.AuthInfoCache
import FreeDce.Com.EpInquiry
import FreeDce.Com.RpcList
import FreeDce.Dg.Forward
import FreeDce.Idl.StubMemory
import FreeDce.Idl.PipeSchedule
import FreeDce.Idl.PipeWire
import FreeDce.Idl.PipeRun
import FreeDce.Dg.SockPool
import FreeDce.Dg.SenderOrder
import FreeDce.Dg.Transfer
import FreeDce.Lib.LinkedTree
import FreeDce.Idl.NameBalance
import FreeDce.Idl.NameTable
import FreeDce.Idl.NameScope
