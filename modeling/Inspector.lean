import Inspector.Advisor.AbstractInspector
import Inspector.Advisor.MessageLoss
import Inspector.Advisor.MessageOrder
import Inspector.Base.Alignment
import Inspector.Base.Arrival
import Inspector.Base.Bounded
import Inspector.Base.ByteBuffer
import Inspector.Base.DataStream
import Inspector.Base.Descent
import Inspector.Base.DomainMessage
import Inspector.Base.FirstMatch
import Inspector.Base.Framing
import Inspector.Base.Gaps
import Inspector.Base.Leb128
import Inspector.Base.LinkedMap
import Inspector.Base.Long
import Inspector.Base.Machine
import Inspector.Base.Memory
import Inspector.Base.ModifiedUtf8
import Inspector.Base.OnesComplement
import Inspector.Base.Overwrite
import Inspector.Base.Ranges
import Inspector.Base.Reader
import Inspector.Base.Regex
import Inspector.Base.Registry
import Inspector.Base.SerialNumber
import Inspector.Base.Slice
import Inspector.Base.Text
import Inspector.Base.Throwing
import Inspector.Base.Utf16
import Inspector.Base.Utf8
import Inspector.Completer.CompleterFrames
import Inspector.Completer.DefaultServerCommandCompleter
import Inspector.Dex.After
import Inspector.Dex.BufferState
import Inspector.Dex.BytecodePatching
import Inspector.Dex.CodeItem
import Inspector.Dex.Codec
import Inspector.Dex.Create
import Inspector.Dex.Dex
import Inspector.Dex.DvmMethod
import Inspector.Dex.FailedPatching
import Inspector.Dex.FixDalvikBytecode
import Inspector.Dex.MemberKey
import Inspector.Dex.MethodKeys
import Inspector.Dex.Patch
import Inspector.Dex.Section
import Inspector.Dex.TableOfContents
import Inspector.DexHunter.BytecodeFixes
import Inspector.DexHunter.ClassData
import Inspector.DexHunter.ClassDataCodec
import Inspector.DexHunter.ClassDefs
import Inspector.DexHunter.ClassLoop
import Inspector.DexHunter.Code
import Inspector.DexHunter.CodeItem
import Inspector.DexHunter.CodeItemCopy
import Inspector.DexHunter.DumpClass
import Inspector.DexHunter.Leb128Readers
import Inspector.DexHunter.MethodLoop
import Inspector.DexHunter.Placement
import Inspector.DexHunter.Registries
import Inspector.Io.DataInput
import Inspector.Io.DataOutput
import Inspector.Io.FileFrames
import Inspector.Io.Frame
import Inspector.Io.InspectCache
import Inspector.Io.SmaliBundle
import Inspector.Io.SocketConsole
import Inspector.Maps.LibraryMap
import Inspector.Maps.Mprotect
import Inspector.Maps.NativeLibraryMapInfo
import Inspector.Netguard.AddressAllowed
import Inspector.Netguard.Builder
import Inspector.Netguard.Forwarder
import Inspector.Netguard.ForwarderSafety
import Inspector.Netguard.HandshakeStages
import Inspector.Netguard.IPUtil
import Inspector.Netguard.Routes
import Inspector.Netguard.RuleAddresses
import Inspector.Netguard.RuleDecides
import Inspector.Netguard.RuleExactness
import Inspector.Netguard.RuleHost
import Inspector.Netguard.SSLProxy
import Inspector.Netguard.TcpRedirectRule
import Inspector.Netguard.UsableCertificate
import Inspector.NetguardJni.Checksum
import Inspector.NetguardJni.Dhcp
import Inspector.NetguardJni.DnsAnswers
import Inspector.NetguardJni.DnsResponse
import Inspector.NetguardJni.IcmpAccounts
import Inspector.NetguardJni.IcmpEffect
import Inspector.NetguardJni.IcmpSession
import Inspector.NetguardJni.QName
import Inspector.NetguardJni.QNameDecoding
import Inspector.NetguardJni.Segment
import Inspector.NetguardJni.SessionEffect
import Inspector.NetguardJni.SessionIdle
import Inspector.NetguardJni.SessionKeys
import Inspector.NetguardJni.SessionLimit
import Inspector.NetguardJni.SessionRuns
import Inspector.NetguardJni.SessionStep
import Inspector.NetguardJni.Sessions
import Inspector.NetguardJni.TcpAccounts
import Inspector.NetguardJni.TcpDownstream
import Inspector.NetguardJni.TcpEffect
import Inspector.NetguardJni.TcpFreed
import Inspector.NetguardJni.TcpOptions
import Inspector.NetguardJni.TcpQueue
import Inspector.NetguardJni.TcpSession
import Inspector.NetguardJni.TcpStall
import Inspector.NetguardJni.TcpStep
import Inspector.NetguardJni.TcpUpstream
import Inspector.NetguardJni.TcpWindow
import Inspector.NetguardJni.UdpAccounts
import Inspector.NetguardJni.UdpEffect
import Inspector.NetguardJni.UdpSession
import Inspector.Plugin.AbstractPlugin
import Inspector.Script.AfterHookedMethod
import Inspector.Script.Change
import Inspector.Script.FailedHooks
import Inspector.Script.HookCalls
import Inspector.Script.HookFunction
import Inspector.Script.HookFunctionRequest
import Inspector.Script.HookedArguments
import Inspector.Script.Hooker
import Inspector.Script.LiveHooks
import Inspector.Script.MemberHashes
import Inspector.Script.MethodHashUtils
import Inspector.Script.ParameterTypes
import Inspector.Script.Unhooked
import Inspector.Unicorn.ARM
import Inspector.Unicorn.AndroidAlloc
import Inspector.Unicorn.AssemblyCodeDumper
import Inspector.Unicorn.CodeDump
import Inspector.Unicorn.DefaultARMEmulator
import Inspector.Unicorn.Marshalling
import Inspector.Unicorn.VirtualMalloc
import Inspector.Vpn.Acknowledgement
import Inspector.Vpn.CloseSequence
import Inspector.Vpn.DNS
import Inspector.Vpn.DNSDecoding
import Inspector.Vpn.DNSFields
import Inspector.Vpn.DNSNames
import Inspector.Vpn.Effect
import Inspector.Vpn.Ending
import Inspector.Vpn.EventLoop
import Inspector.Vpn.FinOrder
import Inspector.Vpn.HostnameLoop
import Inspector.Vpn.HostnameText
import Inspector.Vpn.Invariant
import Inspector.Vpn.OutgoingPorts
import Inspector.Vpn.PacketCapture
import Inspector.Vpn.PointerCycles
import Inspector.Vpn.ProcParser
import Inspector.Vpn.RedirectRules
import Inspector.Vpn.Segment
import Inspector.Vpn.SendLoop
import Inspector.Vpn.Stream
import Inspector.Vpn.TCPDispatcher
import Inspector.Vpn.Termination
import Inspector.Vpn.Truncation
import Inspector.Vpn.Upload
import Inspector.Vpn.VpnWorker
import Inspector.Vpn.Window
