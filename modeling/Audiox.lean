import Audiox.Audio.AdaptiveBuffer
import Audiox.Audio.Block
import Audiox.Audio.BluetoothInput
import Audiox.Audio.BluetoothOutput
import Audiox.Audio.CaptureRing
import Audiox.Audio.EffectIdentity
import Audiox.Audio.EffectStates
import Audiox.Audio.Effects
import Audiox.Audio.Fft
import Audiox.Audio.FftArrays
import Audiox.Audio.FftArraysExact
import Audiox.Audio.Gains
import Audiox.Audio.Graph
import Audiox.Audio.Health
import Audiox.Audio.IdleDemand
import Audiox.Audio.Limiter
import Audiox.Audio.Mailbox
import Audiox.Audio.NoiseReduction
import Audiox.Audio.NoiseReductionExact
import Audiox.Audio.Order
import Audiox.Audio.PcmRing
import Audiox.Audio.PlainMix
import Audiox.Audio.PluginExchange
import Audiox.Audio.PluginExchangeRuns
import Audiox.Audio.PluginExchangeSafety
import Audiox.Audio.PluginExchangeTurns
import Audiox.Audio.PluginHosts
import Audiox.Audio.PluginRelease
import Audiox.Audio.ProcessNode
import Audiox.Audio.RouteIndex
import Audiox.Audio.RouteText
import Audiox.Audio.RoutingHelper
import Audiox.Audio.SceneSwitch
import Audiox.Audio.SfxBank
import Audiox.Audio.SfxQueue
import Audiox.Audio.Soundboard
import Audiox.Audio.SoundboardOrder
import Audiox.Audio.SoundboardVoices
import Audiox.Audio.WavFile
import Audiox.Audio.ZeroCopy
import Audiox.Bluetooth.AvdtpCommand
import Audiox.Bluetooth.AvdtpReject
import Audiox.Bluetooth.Continuation
import Audiox.Bluetooth.Link
import Audiox.Bluetooth.MediaReassembly
import Audiox.Bluetooth.Paired
import Audiox.Bluetooth.PairedLines
import Audiox.Bluetooth.PairedRoundTrip
import Audiox.Bluetooth.PairedTable
import Audiox.Bluetooth.Pairing
import Audiox.Bluetooth.PairingSafety
import Audiox.Bluetooth.SbcNegotiation
import Audiox.Bluetooth.Sdp
import Audiox.Bluetooth.SdpSafety
import Audiox.Boot.Attempts
import Audiox.Boot.Backup
import Audiox.Boot.Completeness
import Audiox.Boot.Counter
import Audiox.Boot.FileOps
import Audiox.Boot.Frame
import Audiox.Boot.Recovery
import Audiox.Boot.Restore
import Audiox.Boot.RoundTrip
import Audiox.Boot.StorageExpand
import Audiox.Config.Basic
import Audiox.Config.CacheSystem
import Audiox.Config.CacheTransparent
import Audiox.Config.CachedReads
import Audiox.Config.ConfigKept
import Audiox.Config.ConfigStore
import Audiox.Config.EffectName
import Audiox.Config.Routing
import Audiox.Config.Schema
import Audiox.Config.SoundLight
import Audiox.Config.Text
import Audiox.Http.Body
import Audiox.Http.FanConfig
import Audiox.Http.FanRequest
import Audiox.Http.FanRewrite
import Audiox.Http.FanText
import Audiox.Http.LogTail
import Audiox.Http.Mdns
import Audiox.Http.MdnsMessage
import Audiox.Http.MdnsName
import Audiox.Http.MdnsNameRead
import Audiox.Http.MdnsNameRoundTrip
import Audiox.Http.MdnsReply
import Audiox.Http.MdnsWritten
import Audiox.Http.MidiMap
import Audiox.Http.NoteOwnership
import Audiox.Http.Quoted
import Audiox.Http.RequestFraming
import Audiox.Http.SoundboardLayout
import Audiox.Http.TextCheckers
import Audiox.Midi.ControllerQueue
import Audiox.Midi.Hold
import Audiox.Midi.Lighting
import Audiox.Midi.LightsFollow
import Audiox.Midi.Parser
import Audiox.Midi.Passthrough
import Audiox.Midi.Reports
import Audiox.Midi.Stream
import Audiox.Midi.UsbOutput
import Audiox.Plugin.Canonical
import Audiox.Plugin.Metadata
import Audiox.Plugin.MetadataExact
import Audiox.Plugin.MetadataLines
import Audiox.Plugin.MetadataRendering
import Audiox.Plugin.Package
import Audiox.Scenes.RoundTrip
import Audiox.Scenes.SaveReadBack
import Audiox.Scenes.Scene
import Audiox.Scenes.SceneFile
import Audiox.Scenes.Store
import Audiox.Scenes.StoreInvariant
import Audiox.Scenes.StoreRules
import Audiox.Scripting.Keyboard
import Audiox.Scripting.Random
import Audiox.Scripting.ScriptData
import Audiox.Scripting.ScriptIdentity
import Audiox.Scripting.ScriptMap
import Audiox.Scripting.ScriptSettings
import Audiox.Scripting.SettingsMap
import Audiox.Scripting.SettingsReadBack
import Audiox.Support.BitFields
import Audiox.Support.ByteCodec
import Audiox.Support.CheckedRead
import Audiox.Support.Checks
import Audiox.Support.CircularBuffer
import Audiox.Support.CountedLoop
import Audiox.Support.FileCalls
import Audiox.Support.FileRules
import Audiox.Support.FileTree
import Audiox.Support.FixedRecord
import Audiox.Support.FlowOrder
import Audiox.Support.FreeRunning
import Audiox.Support.Interruptible
import Audiox.Support.JsonString
import Audiox.Support.KeyedArray
import Audiox.Support.KeyedList
import Audiox.Support.LatestValue
import Audiox.Support.MonotoneQueue
import Audiox.Support.Pattern
import Audiox.Support.PlacedParser
import Audiox.Support.RadixTwo
import Audiox.Support.Recency
import Audiox.Support.RejectionSampling
import Audiox.Support.Runs
import Audiox.Support.Saturation
import Audiox.Support.ShiftRegister
import Audiox.Support.SlidingWindow
import Audiox.Support.SlotTable
import Audiox.Support.TextFields
import Audiox.Support.Transducer
import Audiox.Support.Utf8
import Audiox.Support.ValidatedCache
import Audiox.Update.Acceptance
import Audiox.Update.Agreement
import Audiox.Update.Archive
import Audiox.Update.Checksum
import Audiox.Update.Pack
import Audiox.Update.Reader
import Audiox.Update.Text
import Audiox.Menuconfig.Expression
