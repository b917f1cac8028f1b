import SmoArchipelago.Library.Runs
import SmoArchipelago.Library.RingBuffer
import SmoArchipelago.Library.CountedRing
import SmoArchipelago.Library.Channel
import SmoArchipelago.Library.Receiver
import SmoArchipelago.Library.ProbeTable
import SmoArchipelago.Library.FieldLoop
import SmoArchipelago.Library.SortedPrefix
import SmoArchipelago.Library.JsonText
import SmoArchipelago.Library.JsonAscii
import SmoArchipelago.Library.JsonReader
import SmoArchipelago.Library.JsonBytes
import SmoArchipelago.Library.Framing
import SmoArchipelago.Library.Dict
import SmoArchipelago.Library.Sweep
import SmoArchipelago.Library.TextScan
import SmoArchipelago.Library.Utf8
import SmoArchipelago.Library.Utf8Replace
import SmoArchipelago.Library.Formula
import SmoArchipelago.Library.OptionMap
import SmoArchipelago.Library.Interleave
import SmoArchipelago.Switch.Json
import SmoArchipelago.Switch.FixedBuffers
import SmoArchipelago.Switch.ApProtocol
import SmoArchipelago.Switch.DecodeState
import SmoArchipelago.Switch.ApState
import SmoArchipelago.Switch.HashSet
import SmoArchipelago.Switch.Outbound
import SmoArchipelago.Switch.MoonLabels
import SmoArchipelago.Switch.MsgFontSafe
import SmoArchipelago.Switch.CappyMessenger
import SmoArchipelago.Switch.CappyText
import SmoArchipelago.Switch.ReplayLine
import SmoArchipelago.Switch.Encoder
import SmoArchipelago.Switch.Messages
import SmoArchipelago.Switch.SnapshotBuilder
import SmoArchipelago.Switch.Discovery
import SmoArchipelago.Switch.ReadBack
import SmoArchipelago.Switch.LineReader
import SmoArchipelago.Switch.EntranceMap
import SmoArchipelago.Switch.Inbound
import SmoArchipelago.Switch.CoinGrant
import SmoArchipelago.Switch.AbilityTable
import SmoArchipelago.Switch.PaySnapshots
import SmoArchipelago.Switch.Kingdoms
import SmoArchipelago.Switch.Talkatoo
import SmoArchipelago.Bridge.Protocol
import SmoArchipelago.Bridge.DataPackage
import SmoArchipelago.Bridge.State
import SmoArchipelago.Bridge.Maps
import SmoArchipelago.Bridge.Context
import SmoArchipelago.Bridge.Mirror
import SmoArchipelago.Bridge.ReceivedItems
import SmoArchipelago.Bridge.EventLoop
import SmoArchipelago.Bridge.Replay
import SmoArchipelago.Bridge.Delivery
import SmoArchipelago.Bridge.MirrorOnce
import SmoArchipelago.Bridge.BonusGrants
import SmoArchipelago.Bridge.Checks
import SmoArchipelago.Bridge.MapReload
import SmoArchipelago.Bridge.MapInverses
import SmoArchipelago.Bridge.GameNames
import SmoArchipelago.Bridge.Sequential
import SmoArchipelago.Bridge.Session
import SmoArchipelago.Bridge.Snapshot
import SmoArchipelago.Bridge.SnapshotGate
import SmoArchipelago.Bridge.LiveChecks
import SmoArchipelago.Bridge.Abilities
import SmoArchipelago.Bridge.AbilityCoins
import SmoArchipelago.Bridge.AbilityGate
import SmoArchipelago.Bridge.Registry
import SmoArchipelago.Bridge.SnapshotIntegrity
import SmoArchipelago.Bridge.RegistryConsistency
import SmoArchipelago.Bridge.ActivationReplay
import SmoArchipelago.Bridge.Activations
import SmoArchipelago.Bridge.ReadingOrigin
import SmoArchipelago.Bridge.Outstanding
import SmoArchipelago.Bridge.MoonBalance
import SmoArchipelago.Bridge.Wire
import SmoArchipelago.Bridge.WireRoundTrip
import SmoArchipelago.Bridge.LineReader
import SmoArchipelago.Bridge.SwitchLines
import SmoArchipelago.Bridge.SnapshotLines
import SmoArchipelago.Bridge.Discovery
import SmoArchipelago.Bridge.ServerPayload
import SmoArchipelago.Bridge.ReplayFits
import SmoArchipelago.Bridge.EntranceShuffle
import SmoArchipelago.Bridge.DedupeReplay
import SmoArchipelago.Bridge.TalkatooPools
import SmoArchipelago.Bridge.TalkatooWindow
import SmoArchipelago.World.KingdomGates
import SmoArchipelago.World.GateRolls
import SmoArchipelago.World.TalkatooOrder
import SmoArchipelago.World.TalkatooSound
import SmoArchipelago.World.GreedyOrder
import SmoArchipelago.World.Requires
import SmoArchipelago.World.RequiresMeaning
import SmoArchipelago.World.OperatorParser
import SmoArchipelago.World.RequiresReaders
import SmoArchipelago.World.RequiresCalls
import SmoArchipelago.World.KingdomThreshold
import SmoArchipelago.World.ItemCounts
import SmoArchipelago.World.MoonLogic
import SmoArchipelago.World.MoonMeaning
import SmoArchipelago.Switch.KingdomOrderGate
import SmoArchipelago.World.DetourGate
import SmoArchipelago.Switch.DeathLink
import SmoArchipelago.Bridge.DeathLink
