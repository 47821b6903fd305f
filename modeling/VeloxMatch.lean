import VeloxMatch.MatchReference
import VeloxMatch.ExcludeOrg
import VeloxMatch.MarketRingFifo
import VeloxMatch.BusMpContents
import VeloxMatch.BusShmPayload
import VeloxMatch.BusBroadcastPoll
import VeloxMatch.BusTcpDelivery
import VeloxMatch.BusTcpAuto
import VeloxMatch.MarketSharding
import VeloxMatch.MarketAtomic
import VeloxMatch.DealableAgrees
import VeloxMatch.WalTorn
import VeloxMatch.WalTools
import VeloxMatch.GapReplay
import VeloxMatch.WalRoundTrip
import VeloxMatch.OrgIndex
import VeloxMatch.SlotOwner
import VeloxMatch.SideCancel
import VeloxMatch.Restore
import VeloxMatch.PublicFeed
import VeloxMatch.OrderIds
import VeloxMatch.SlabRun
import VeloxMatch.BusMpCrash
import VeloxMatch.BusPeek
import VeloxMatch.BusShmGaps
import VeloxMatch.MarketLadderExact
import VeloxMatch.MarketSubscriptions
