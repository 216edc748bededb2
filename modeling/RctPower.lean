import RctPower.Cli.Rct
import RctPower.Protocol.BitErrors
import RctPower.Protocol.Bounds
import RctPower.Protocol.Corruption
import RctPower.Protocol.Lenient
import RctPower.Protocol.Plant
import RctPower.Protocol.ReadFrame
import RctPower.Protocol.StringCodec
import RctPower.Settings.Decimals
import RctPower.Settings.EnumMap
import RctPower.Settings.Generated
import RctPower.Transport.Answers
import RctPower.Transport.AsyncPairing
import RctPower.Transport.Deadline
import RctPower.Transport.DeviceStore
import RctPower.Transport.Forwarding
import RctPower.Transport.Isolation
import RctPower.Transport.Ledger
import RctPower.Transport.LostAcks
import RctPower.Transport.Multiplex
import RctPower.Transport.Reconnect
import RctPower.Transport.Resync
import RctPower.Transport.Retransmission
import RctPower.Transport.Through
