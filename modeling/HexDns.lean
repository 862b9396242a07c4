import HexDns.Axfr.Authorised
import HexDns.Grpc.Confined
import HexDns.Grpc.Atomic
import HexDns.Grpc.Additions
import HexDns.Grpc.Prerequisites
import HexDns.Tasks.Quoting
import HexDns.Tasks.Frame
import HexDns.Tasks.Tenants
import HexDns.Views.Dyndns
import HexDns.Views.CreateZone
import HexDns.Commands.ValidateNs
import HexDns.Commands.TransferSecondary
import HexDns.Api.Records
import HexDns.Tasks.Publication
import HexDns.Tasks.Reverse
import HexDns.Models.ImportZone
import HexDns.Tasks.Changes
import HexDns.Tasks.Isolation
import HexDns.Tasks.Denoted
import HexDns.Views.Export
import HexDns.Tasks.Cnames
import HexDns.Models.Txt
import HexDns.Commands.Handle
import HexDns.Commands.Escapes
import HexDns.Commands.Segments
import HexDns.Cache.Server
import HexDns.Cache.Flushes
import HexDns.Cache.InFlight
import HexDns.Cache.Timeouts
import HexDns.Axfr.KeyData
import HexDns.Axfr.KeyMaterial
import HexDns.Axfr.Parser
import HexDns.Axfr.Transfers
import HexDns.Views.Reimport
import HexDns.Grpc.Circles
import HexDns.Grpc.MostSpecific
import HexDns.Lib.Digits
import HexDns.Tasks.ReverseNames
import HexDns.Models.UpdateFromRr
import HexDns.Lib.Readers
import HexDns.Models.Wire
import HexDns.Grpc.TsigCodec
import HexDns.Models.OpaqueRdata
import HexDns.Tasks.ImportedOwners
import HexDns.Tasks.Catalog
import HexDns.Commands.FiveStrikes
import HexDns.Views.Billing
import HexDns.Tasks.Delegations
import HexDns.Lib.Scanners
import HexDns.Svcb.Decode
import HexDns.Svcb.Escaping
import HexDns.Svcb.Addresses
import HexDns.Svcb.Params
import HexDns.Svcb.Grammar
import HexDns.Svcb.Printed
import HexDns.Svcb.RoundTrip
import HexDns.Svcb.Https
import HexDns.Svcb.Packing
import HexDns.Svcb.Reads
import HexDns.Svcb.Wire
import HexDns.Cache.Coverage
import HexDns.Commands.NotifyConn
import HexDns.Commands.DelegationWalk
import HexDns.Views.SpfCheck
import HexDns.Tasks.AnameCopies
import HexDns.Commands.UpdateAname
import HexDns.Lib.Rounding
import HexDns.Models.Loc
import HexDns.Axfr.Loc
import HexDns.Axfr.LocSizes
import HexDns.Axfr.LocCoordinates
import HexDns.Lib.Slices
import HexDns.Axfr.RdataParsers
import HexDns.Axfr.Digests
import HexDns.Axfr.Panics
import HexDns.Axfr.RecordsKept
import HexDns.Grpc.HttpsNames
import HexDns.Lib.StableSort
import HexDns.Svcb.AddressTexts
import HexDns.Svcb.EitherWay
import HexDns.Axfr.Tampering
import HexDns.Tasks.Registrations
import HexDns.Net.Updates
import HexDns.Knot.Reloads
import HexDns.Cache.Answers
import HexDns.Cache.Progress
import HexDns.Views.Dmarc
import HexDns.Views.Editing
import HexDns.Net.Relay
import HexDns.Axfr.Notifications
import HexDns.Views.Installations
