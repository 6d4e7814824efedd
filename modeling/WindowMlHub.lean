import WindowMlHub.HashTables
import WindowMlHub.RelayQueueSemantics
import WindowMlHub.RelayHub
import WindowMlHub.RelayEpoch
import WindowMlHub.RelayRuns
import WindowMlHub.RelayLives
import WindowMlHub.RelayPublications
import WindowMlHub.RelayQueueHistory
import WindowMlHub.RelayProvenance
import WindowMlHub.RelayPresence
import WindowMlHub.RelayWakes
import WindowMlHub.RelayTallies
import WindowMlHub.RelayFollowing
import WindowMlHub.RelaySubscriptionRuns
import WindowMlHub.RelaySessionEvents
import WindowMlHub.RelayTelemetry
import WindowMlHub.RelayMarkers
import WindowMlHub.RelayMarkerRuns
import WindowMlHub.RelayBudget
import WindowMlHub.RelayQueueBounds
import WindowMlHub.InviteClaims
import WindowMlHub.ForwardedAddresses
import WindowMlHub.RevocationSigners
import WindowMlHub.CertificateChains
import WindowMlHub.RelayBackfills
import WindowMlHub.RelayFreshSubscribers
import WindowMlHub.PairingSockets
import WindowMlHub.ServerCloses
import WindowMlHub.ConnectorFiles
import WindowMlHub.IncrementalReaders
import WindowMlHub.DelimitedFrames
import WindowMlHub.BoxEvents
import WindowMlHub.TokenBuckets
import WindowMlHub.RelayBucketSchedules
import WindowMlHub.RelayLockstep
import WindowMlHub.RelayRefusedHellos
import WindowMlHub.RelayDirects
import WindowMlHub.RetentionQueues
import WindowMlHub.ReplayWindows
import WindowMlHub.SealedCommands
import WindowMlHub.ReplayProtection
import WindowMlHub.BigEndianBytes
import WindowMlHub.ProtobufFields
import WindowMlHub.CertificateRules
import WindowMlHub.CertificateEncoding
import WindowMlHub.CertificateIssuing
import WindowMlHub.PresentedChains
import WindowMlHub.PublishedStreams
import WindowMlHub.StreamEncoding
import WindowMlHub.StreamReaders
import WindowMlHub.BoxRouting
import WindowMlHub.ConnectorRelay
import WindowMlHub.StreamRestarts
import WindowMlHub.StrangerPacing
import WindowMlHub.ArrivalGates
import WindowMlHub.FrameMessages
import WindowMlHub.ChunkedBodies
import WindowMlHub.BoxFrameDecoding
import WindowMlHub.ResumePoints
import WindowMlHub.KeyCoverage
import WindowMlHub.PairingExchanges
import WindowMlHub.RelayedSizes
import WindowMlHub.SealEncoding
import WindowMlHub.SealedRoundTrips
import WindowMlHub.ClientConnections
import WindowMlHub.ConnectorServing
import WindowMlHub.RelayCloseCascade
import WindowMlHub.RelayRingShares
import WindowMlHub.DuplicateFrames
import WindowMlHub.SignedMessages
import WindowMlHub.MappedAddresses
import WindowMlHub.RevokerRecords
import WindowMlHub.ConnectorKeys
import WindowMlHub.RelayEnvelopeSizes
import WindowMlHub.ConnectorPairings
import WindowMlHub.ConnectorAvailability
import WindowMlHub.ConnectorFirstLists
import WindowMlHub.VarintWords
import WindowMlHub.MessageCharges
import WindowMlHub.ServerWriters
import WindowMlHub.WriterProgress
import WindowMlHub.ServerSockets
import WindowMlHub.HelloAuthentication
import WindowMlHub.PairingCodes
import WindowMlHub.PairedLogins
import WindowMlHub.SharedDebts
import WindowMlHub.RelayWork
import WindowMlHub.ReadLoops
import WindowMlHub.BoxAudience
