import Witos.Library.Word
import Witos.Library.LinkedRing
import Witos.Library.Bits
import Witos.Library.Bytes
import Witos.Library.CanonicalCode
import Witos.Library.CommonPrefix
import Witos.Library.Copies
import Witos.Library.Effect
import Witos.Library.Loop
import Witos.Library.OnesComplement
import Witos.Library.Parity
import Witos.Library.Swap
import Witos.Library.Trace
import Witos.Library.Zipper
import Witos.Mm.Heap
import Witos.Mm.HeapLayout
import Witos.Mm.HeapFreeList
import Witos.Mm.HeapInvariant
import Witos.Mm.HeapOperations
import Witos.Mm.HeapRelease
import Witos.Mm.HeapRun
import Witos.Mm.HeapGaps
import Witos.Mm.FreeOrder
import Witos.Mm.HeapExtremes
import Witos.Net.State
import Witos.Net.Send
import Witos.Net.Checksum
import Witos.Net.SendRules
import Witos.Net.Receive
import Witos.Net.Socket
import Witos.Net.TcpSafety
import Witos.Net.TcpStream
import Witos.Net.TcpClose
import Witos.Net.ReceiveRules
import Witos.Net.Delivery
import Witos.Net.Ownership
import Witos.Net.Tftp
import Witos.Net.TftpDownload
import Witos.Net.TftpSession
import Witos.Net.TftpUpload
import Witos.Net.RecvStream
import Witos.Net.PeerAnswers
import Witos.Net.Descriptors
import Witos.Net.UdpRoundTrip
import Witos.Net.SentFrames
import Witos.Net.TftpRequest
import Witos.Net.Broadcast
import Witos.Net.Transmit
import Witos.Net.Echo
import Witos.Net.Senders
import Witos.Net.TcpBuffer
import Witos.Net.Dhcp
import Witos.Net.DhcpSafety
import Witos.Fs.DeviceErrors
import Witos.Fs.Directory
import Witos.Fs.Drive
import Witos.Fs.Ext2
import Witos.Fs.Ext2Map
import Witos.Fs.Ext2Read
import Witos.Fs.Ext2Range
import Witos.Fs.Ext2Tree
import Witos.Fs.Ext4
import Witos.Fs.Ext4Map
import Witos.Fs.TindRange
import Witos.Fs.Extents
import Witos.Fs.Ext4Read
import Witos.Fs.Lookup
import Witos.Fs.Readdir
import Witos.Fs.InodeByName
import Witos.Fs.Partition
import Witos.Fs.DriveSlots
import Witos.Jpeg.Huffman
import Witos.Jpeg.DhtSegment
import Witos.Jpeg.BitStream
import Witos.Jpeg.Decode
import Witos.Jpeg.Block
import Witos.Jpeg.ZigZag
import Witos.Boot.Atag
import Witos.Boot.AtagList
import Witos.Uart.Loader
import Witos.Uart.Kermit
import Witos.Uart.KermitEnd
import Witos.Uart.KermitPacket
import Witos.Uart.KermitSession
import Witos.Uart.KermitData
import Witos.Uart.KermitBounds
import Witos.Uart.Ymodem
import Witos.Uart.YmodemIntegrity
import Witos.Vfs.State
import Witos.Vfs.Calls
import Witos.Vfs.Walk
import Witos.Vfs.Runs
import Witos.Vfs.Resolve
import Witos.Vfs.MountVisible
import Witos.Vfs.Mkdir
import Witos.Vfs.Existence
import Witos.Vfs.Getcwd
import Witos.Vfs.GetcwdBounds
import Witos.Vfs.Devfs
import Witos.Vfs.DevfsNodes
import Witos.Stdio.Format
import Witos.Stdio.FormatText
import Witos.Stdio.FormatAgree
import Witos.Stdio.NumberLayout
import Witos.Stdio.Truncation
import Witos.Stdio.Scratch
import Witos.Strings.Memmove
import Witos.Strings.StringOps
import Witos.Strings.IsoStrings
import Witos.Net.TftpUrl
import Witos.Extra.Getopt
import Witos.Extra.GetoptScan
import Witos.Shell.LineEditor
import Witos.Shell.LineRules
import Witos.Shell.EditorZipper
import Witos.Shell.EditorBounds
import Witos.Shell.Completion
import Witos.Shell.CompletionTable
import Witos.Shell.History
import Witos.Shell.UpDown
import Witos.Shell.Command
import Witos.Shell.Splitting
import Witos.Core.Sysconf
import Witos.Core.SysconfLookup
import Witos.Core.LineReads
import Witos.Core.ValueText
import Witos.Flash.FlashFile
import Witos.Flash.BufferedWrite
import Witos.Flash.Isolation
import Witos.Extra.Strex
import Witos.Extra.RoundTrip
import Witos.Extra.Arguments
import Witos.Extra.IpText
import Witos.Extra.MacText
import Witos.Flash.PartTable
import Witos.Flash.PartItems
import Witos.Flash.PartValid
import Witos.Flash.PartGrammar
import Witos.Flash.NandEcc
import Witos.Flash.HammingCode
import Witos.Flash.NandRepair
import Witos.Flash.NandRead
import Witos.Flash.NandCommand
import Witos.Flash.NandRange
import Witos.Flash.NandRaw
import Witos.Flash.OobRegions
import Witos.Vfs.Files
import Witos.Device.Registry
import Witos.Device.Binding
import Witos.Library.BitFields
import Witos.Library.LevelTree
import Witos.Flash.BadBlockTable
import Witos.Flash.SpareAccess
import Witos.Flash.BadBlocks
import Witos.Flash.BadBlockRuns
import Witos.Flash.NandBus
import Witos.Fs.TnodeMap
import Witos.Fs.TnodeTree
import Witos.Fs.FileChunks
import Witos.Fs.FileChunkRuns
import Witos.Fs.FileCheckpoint
import Witos.Fs.SoftDelete
import Witos.Fs.NameValues
import Witos.Fs.NameValueRuns
