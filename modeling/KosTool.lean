import KosTool.Machine.Dialogue
import KosTool.Machine.Duplex
import KosTool.Machine.Fallible
import KosTool.Machine.Run
import KosTool.Machine.Settling
import KosTool.Machine.StoredProgram
import KosTool.Machine.Tracked
import KosTool.Math.BlockChaining
import KosTool.Math.BlockCopy
import KosTool.Math.ByteOrder
import KosTool.Math.ByteWord
import KosTool.Math.CodeWords
import KosTool.Math.DecimalNumeral
import KosTool.Math.DescendingChunks
import KosTool.Math.Framing
import KosTool.Math.Gregorian
import KosTool.Math.LineReading
import KosTool.Math.ListOverwrite
import KosTool.Math.Lz10
import KosTool.Math.MipsAbi
import KosTool.Math.OnesComplement
import KosTool.Math.Placement
import KosTool.Math.ReciprocalDivision
import KosTool.Math.RingStore
import KosTool.Math.RingWindow
import KosTool.Math.SkipZeroCounter
import KosTool.Math.SlotTable
import KosTool.Math.TerminatedStrings
import KosTool.Math.Tlv
import KosTool.Math.Unicode
import KosTool.Math.WordPatch
import KosTool.Model.Argv
import KosTool.Model.Binary.Dol
import KosTool.Model.Binary.Elf
import KosTool.Model.Binary.ElfBytes
import KosTool.Model.Binary.Irx
import KosTool.Model.Binary.IrxEmission
import KosTool.Model.Binary.IrxFile
import KosTool.Model.Binary.IrxLayout
import KosTool.Model.Binary.IrxPlan
import KosTool.Model.Binary.Prx
import KosTool.Model.Binary.Scramble
import KosTool.Model.Binary.Srec
import KosTool.Model.Binary.Xbe
import KosTool.Model.Client.BoundedWait
import KosTool.Model.Client.Checksum
import KosTool.Model.Client.Commands
import KosTool.Model.Client.Dhcp
import KosTool.Model.Client.Lease
import KosTool.Model.Client.NetStack
import KosTool.Model.Client.SerialSyscalls
import KosTool.Model.Client.SyscallWait
import KosTool.Model.Disc.Cdi
import KosTool.Model.Disc.Iso9660
import KosTool.Model.Disc.Xiso
import KosTool.Model.DivUtil
import KosTool.Model.Dreamcast.Flashrom
import KosTool.Model.Firmware.I386
import KosTool.Model.Firmware.Mips
import KosTool.Model.Firmware.Ppc
import KosTool.Model.Firmware.Sh4
import KosTool.Model.Firmware.Update
import KosTool.Model.FirmwareIp
import KosTool.Model.Gamecube.Enc28j60
import KosTool.Model.GdbPacket
import KosTool.Model.Host.Channel
import KosTool.Model.Host.ConsoleWrite
import KosTool.Model.Host.Dedup
import KosTool.Model.Host.Download
import KosTool.Model.Host.NetConsole
import KosTool.Model.Host.OpenDirs
import KosTool.Model.Host.SerialConsole
import KosTool.Model.Host.Upload
import KosTool.Model.Host.UsbTransport
import KosTool.Model.KosloadTypes
import KosTool.Model.NetStat
import KosTool.Model.Protocol
import KosTool.Model.Ps2.IopRead
import KosTool.Model.Ps2.RtcCalendar
import KosTool.Model.Ps2.SifBroker
import KosTool.Model.Ps2.SifDma
import KosTool.Model.Ps2.SifRpc
import KosTool.Model.Ps2.SmapRx
import KosTool.Model.Ps2.SmapTx
import KosTool.Model.Psp.Clock
import KosTool.Model.Psp.UsbControl
import KosTool.Model.Psp.UsbPipe
import KosTool.Model.RunningProgram
import KosTool.Model.SerialBlocks
import KosTool.Model.SerialLine
import KosTool.Model.SyscallLink
import KosTool.Model.Wii.Aes
import KosTool.Model.Wii.Banner
import KosTool.Model.Wii.IosIpc
import KosTool.Model.Wii.Wad
import KosTool.Model.Xbox.NvNet
import KosTool.Model.Xbox.Rtc
import KosTool.Soundness.AesRoundTrip
import KosTool.Soundness.ArgvDelivery
import KosTool.Soundness.BannerCompression
import KosTool.Soundness.BlockRoundTrip
import KosTool.Soundness.CheckedSums
import KosTool.Soundness.ChunkBounds
import KosTool.Soundness.ChunkMap
import KosTool.Soundness.ConsoleOutput
import KosTool.Soundness.DecimalDisplay
import KosTool.Soundness.DhcpOptions
import KosTool.Soundness.DhcpTransaction
import KosTool.Soundness.DirHandles
import KosTool.Soundness.DiscoverySafety
import KosTool.Soundness.DolRoundTrip
import KosTool.Soundness.DonebinAnswer
import KosTool.Soundness.DownloadInvariant
import KosTool.Soundness.DownloadSafety
import KosTool.Soundness.ElapsedTime
import KosTool.Soundness.EmittedLength
import KosTool.Soundness.EmittedSection
import KosTool.Soundness.EmittedShape
import KosTool.Soundness.EmittedTable
import KosTool.Soundness.EncRing
import KosTool.Soundness.GdbBounds
import KosTool.Soundness.GdbProbing
import KosTool.Soundness.HeapBlocks
import KosTool.Soundness.I386Trampoline
import KosTool.Soundness.ImageLayout
import KosTool.Soundness.ImagePatches
import KosTool.Soundness.ImageSpots
import KosTool.Soundness.InputReads
import KosTool.Soundness.IopReading
import KosTool.Soundness.IpcMatching
import KosTool.Soundness.IrxFileLayout
import KosTool.Soundness.IrxRelocation
import KosTool.Soundness.IsoImages
import KosTool.Soundness.IsoReading
import KosTool.Soundness.LeaseKeeping
import KosTool.Soundness.MechaconClock
import KosTool.Soundness.MipsTrampolines
import KosTool.Soundness.NvRings
import KosTool.Soundness.OutputAccesses
import KosTool.Soundness.PacketChecksums
import KosTool.Soundness.PairedEntries
import KosTool.Soundness.ParserBounds
import KosTool.Soundness.PartbinWrites
import KosTool.Soundness.PatchedAddress
import KosTool.Soundness.PpcTrampoline
import KosTool.Soundness.PrxConversion
import KosTool.Soundness.ReadDelivery
import KosTool.Soundness.RelocatedWords
import KosTool.Soundness.ReplayFidelity
import KosTool.Soundness.RerequestPasses
import KosTool.Soundness.RetransmitSafety
import KosTool.Soundness.RetvalAcceptance
import KosTool.Soundness.RpcMatching
import KosTool.Soundness.RpcRecovery
import KosTool.Soundness.RtcClock
import KosTool.Soundness.RxPump
import KosTool.Soundness.RxRing
import KosTool.Soundness.ScrambleRoundTrip
import KosTool.Soundness.ScratchMemory
import KosTool.Soundness.SectorCodes
import KosTool.Soundness.SerialLockstep
import KosTool.Soundness.SettingsUpdate
import KosTool.Soundness.Sh4Trampoline
import KosTool.Soundness.SifChain
import KosTool.Soundness.SifQueue
import KosTool.Soundness.SlotOwners
import KosTool.Soundness.SrecLines
import KosTool.Soundness.SrecLoading
import KosTool.Soundness.StatAgreement
import KosTool.Soundness.SyscallInvariant
import KosTool.Soundness.SyscallSafety
import KosTool.Soundness.TaggedRetval
import KosTool.Soundness.TickConversion
import KosTool.Soundness.TitleEncoding
import KosTool.Soundness.TxDelivery
import KosTool.Soundness.TxDrain
import KosTool.Soundness.TxFifo
import KosTool.Soundness.TxSequence
import KosTool.Soundness.TxSlots
import KosTool.Soundness.UploadInvariant
import KosTool.Soundness.UploadSafety
import KosTool.Soundness.UsbLossless
import KosTool.Soundness.UsbStream
import KosTool.Soundness.UsbTransfers
import KosTool.Soundness.WadUnpacking
import KosTool.Soundness.WriteReports
import KosTool.Soundness.XbeLayout
import KosTool.Soundness.XbeLoading
import KosTool.Soundness.XisoImages
import KosTool.Soundness.XisoTables
