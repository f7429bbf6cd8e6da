import YbeProxy.KeyValueText
import YbeProxy.Infostrings
import YbeProxy.Addresses
import YbeProxy.UserinfoChanged
import YbeProxy.LeakyBucket
import YbeProxy.RateLimit
import YbeProxy.AddressLimit
import YbeProxy.Cmd
import YbeProxy.PacketFilter
import YbeProxy.Bans
import YbeProxy.ClientMessage
import YbeProxy.Connection
import YbeProxy.Redirect
import YbeProxy.ClientLimit
import YbeProxy.ClientCommands
import YbeProxy.Challenge
import YbeProxy.ClockWrap
import YbeProxy.OldestSlot
import YbeProxy.ChallengeTable
import YbeProxy.UserinfoWrites
import YbeProxy.CleanNames
import YbeProxy.SanitizeTwice
import YbeProxy.BanPatterns
import YbeProxy.BanFile
import YbeProxy.BanRuns
import YbeProxy.CommandOrder
import YbeProxy.ServerCommands
import YbeProxy.ActiveClients
import YbeProxy.Downloads
import YbeProxy.Pings
import YbeProxy.Hooks
import YbeProxy.Restart
import YbeProxy.TokenizerMemory
import YbeProxy.FieldCounts
import YbeProxy.ReadBits
import YbeProxy.ExactBans
import YbeProxy.AddipGrammar
import YbeProxy.BanWords
import YbeProxy.Cancellation
import YbeProxy.UniqueNames
import YbeProxy.DirtyNames
import YbeProxy.ForcePowers
import YbeProxy.BucketErasure
import YbeProxy.Records
import YbeProxy.UsercmdOrder
import YbeProxy.NetStatus
import YbeProxy.NetRuns
import YbeProxy.PacketCounts
import YbeProxy.RoundTrips
import YbeProxy.Windows
import YbeProxy.NetPing
import YbeProxy.Binary32
import YbeProxy.SnapshotRate
import YbeProxy.EstimatorBounds
import YbeProxy.SimulateClient
import YbeProxy.HookCode
import YbeProxy.FilterStub
import YbeProxy.ForLoop
import YbeProxy.ChecksumText
import YbeProxy.VerifyPaks
import YbeProxy.Paths
import YbeProxy.WriteConfig
import YbeProxy.PrintToClient
import YbeProxy.TextChunks
import YbeProxy.SpectatorChat
import YbeProxy.VmMain
import YbeProxy.ModuleRuns
import YbeProxy.CommandScopes
import YbeProxy.ModuleTexts
import YbeProxy.Sessions
import YbeProxy.BannedClients
import YbeProxy.RateSettings
import YbeProxy.SendTimes
import YbeProxy.EngineHooks
import YbeProxy.CommandTexts
import YbeProxy.ConsoleOutput
import YbeProxy.InfoPrint
import YbeProxy.NetStatusTable
import YbeProxy.Appending
import YbeProxy.ConfigTable
import YbeProxy.StatusTable
import YbeProxy.CommandSteps
import YbeProxy.FixedWindow
import YbeProxy.UserinfoLimit
import YbeProxy.Entities
import YbeProxy.FloodProtect
import YbeProxy.PlayerRatio
import YbeProxy.ModuleCommands
