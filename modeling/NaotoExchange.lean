import NaotoExchange.Common.Proof.SkipList
import NaotoExchange.Engine.BidAsk
import NaotoExchange.Engine.Proof.BookOps
import NaotoExchange.Engine.Proof.View
import NaotoExchange.Engine.Proof.Sweep
import NaotoExchange.Engine.Proof.Execute
import NaotoExchange.Engine.Proof.Cancel
import NaotoExchange.Engine.Proof.Step
import NaotoExchange.Engine.Proof.Reach
import NaotoExchange.Engine.Refinement
import NaotoExchange.Engine.Soundness
import NaotoExchange.Common.FlatHashMap
import NaotoExchange.Common.Proof.FlatHashMap
import NaotoExchange.Common.Proof.FlatHashMapInsert
import NaotoExchange.Common.Proof.FlatHashMapDelete
import NaotoExchange.Common.Refinement
import NaotoExchange.Gateway.ClientStatesWriter
import NaotoExchange.Account.Proof.ClientStates
import NaotoExchange.Gateway.Proof.ClientStatesWriter
import NaotoExchange.Gateway.Authentication
import NaotoExchange.Gateway.Session
import NaotoExchange.Gateway.Routing
import NaotoExchange.Lib.Frames
import NaotoExchange.Common.EpollServer
import NaotoExchange.Common.Proof.EpollServer
import NaotoExchange.Gateway.Framing
import NaotoExchange.Engine.Proof.Reports
import NaotoExchange.Engine.ZeroSum
import NaotoExchange.Engine.Proof.Desk
import NaotoExchange.Engine.Proof.Life
import NaotoExchange.Engine.Reservations
import NaotoExchange.Engine.Lifecycle
import NaotoExchange.Client.OrderBook
import NaotoExchange.Gateway.SingleCopy
import NaotoExchange.Gateway.Commitments
import NaotoExchange.Gateway.OrderRiskCheck
import NaotoExchange.Lib.SendLoop
import NaotoExchange.Common.BytesBuffer
import NaotoExchange.Gateway.ClientMessageSender
import NaotoExchange.Gateway.OrderRouter
import NaotoExchange.Gateway.Forwarding
import NaotoExchange.Account.Proof.Balances
import NaotoExchange.Account.Conservation
import NaotoExchange.Lib.RingIndex
import NaotoExchange.Common.SpscQueue
import NaotoExchange.Common.Proof.SpscQueue
import NaotoExchange.Common.SharedPool
import NaotoExchange.Engine.Outgoing
import NaotoExchange.Account.GatewayEpollServer
import NaotoExchange.Common.SequenceRingBuffer
import NaotoExchange.Common.UdpMulticast
import NaotoExchange.Common.MulticastOwnership
import NaotoExchange.Common.MulticastDelivery
import NaotoExchange.Gateway.Proof.Balances
import NaotoExchange.Gateway.Agreement
import NaotoExchange.Gateway.Replay
import NaotoExchange.Gateway.ConcurrentStates
import NaotoExchange.Common.SkipListMap
import NaotoExchange.Engine.Capacity
import NaotoExchange.Engine.Termination
import NaotoExchange.Engine.Totals
import NaotoExchange.Engine.Answers
import NaotoExchange.Engine.PriceIndex
import NaotoExchange.Account.StagedStates
import NaotoExchange.Common.ProbeDistance
import NaotoExchange.Common.ReadLoop
import NaotoExchange.Account.GatewayResponseDispatcher
import NaotoExchange.Common.ByteFifo
import NaotoExchange.Engine.LevelFifo
import NaotoExchange.Common.BackwardShift
import NaotoExchange.Common.ProbeAgreement
import NaotoExchange.Engine.Proof.Intact
import NaotoExchange.Client.TradePrints
import NaotoExchange.TableBounds
import NaotoExchange.Lib.Escrow
import NaotoExchange.Exchange.Obligations
import NaotoExchange.Exchange.System
import NaotoExchange.Exchange.Solvency
import NaotoExchange.Exchange.Authenticity
import NaotoExchange.Common.UdpMulticastEmitter
import NaotoExchange.Common.MulticastLoss
import NaotoExchange.Exchange.Replicas
import NaotoExchange.Engine.Priority
import NaotoExchange.Exchange.Login
import NaotoExchange.Client.LiveBalance
import NaotoExchange.Lib.Packed
import NaotoExchange.Client.TradingSession
import NaotoExchange.Exchange.OrderPath
import NaotoExchange.Lib.Ledger
import NaotoExchange.Exchange.Market
import NaotoExchange.Exchange.Withheld
