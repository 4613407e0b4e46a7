import CServer.Framework.LrmRuns
import CServer.Framework.CodeQueueVector
import CServer.Framework.MapEmpty
import CServer.Framework.Matrix
import CServer.Framework.Base64
import CServer.Framework.ConnRead
import CServer.Framework.ConnWrite
import CServer.Framework.NetworkLists
import CServer.Framework.AmfStringTable
import CServer.World.EventManager
import CServer.World.RequestOrder
import CServer.World.TimerRuns
import CServer.World.PlayerRuns
import CServer.World.Addicted
import CServer.World.RankReward
import CServer.World.Notify
import CServer.World.BackendCount
import CServer.Modules.Daily
import CServer.Modules.BuffRuns
import CServer.Modules.Compensate
import CServer.Modules.EquipTrade
import CServer.Logic.EquipRefresh
import CServer.Logic.EquipEat
import CServer.Logic.EquipFormation
import CServer.Calc.PropertySum
import CServer.Logic.TalentUpdate
import CServer.Logic.HeroFormation
import CServer.Logic.OneTimeReward
import CServer.Logic.EquipDeal
import CServer.Logic.RewardRecord
import CServer.Logic.QuestPeriod
import CServer.Logic.QuestRefresh
import CServer.Logic.DropAdditive
import CServer.Gateway.FrameIsolation
import CServer.Gateway.SessionLogouts
import CServer.Gateway.AuthServer
import CServer.Gateway.Accounts
import CServer.Logic.FightLimit
import CServer.Logic.FightStars
import CServer.Fight.TimelineWinner
import CServer.Fight.TimelineOrder
import CServer.Fight.Role
import CServer.Fight.Skill
import CServer.Fight.BuffManager
import CServer.Fight.PetManager
import CServer.Fight.Pipe
import CServer.Fight.EventDelivery
import CServer.Consume.TradeFairness
import CServer.Arena.RankArenaLadder
import CServer.CodeGenerate.WriteBehindRuns
import CServer.CodeGenerate.StringLiteral
import CServer.Framework.PageHeap
import CServer.Arena.RankManager
import CServer.Arena.PaidAttacks
import CServer.Arena.PlayersApart
import CServer.Arena.VPosition
import CServer.Fight.BattleCommandQueue
import CServer.Consume.SaleRecord
import CServer.Consume.TradeOrders
import CServer.Proto.GoRoundTrip
