import Lasr.Calls
import Lasr.Replay
import Lasr.Authenticity
import Lasr.Bridge
import Lasr.Isolation
import Lasr.Allowance
import Lasr.Atomicity
import Lasr.Ownership
import Lasr.Commutation
import Lasr.Registration
import Lasr.PreCall
import Lasr.Spelling
import Lasr.TokenIds
import Lasr.Visibility
import Lasr.Overflow
import Lasr.CacheMessages
import Lasr.Capacity
import Lasr.Agreement
import Lasr.BatchCodec
import Lasr.Restart
import Lasr.StakingPayments
import Lasr.Replies
import Lasr.Approvals
import Lasr.Logs
import Lasr.Signing
import Lasr.SettleBatch
import Lasr.JsonGrammar
import Lasr.JsonOrder
import Lasr.Wire
import Lasr.Containers
import Lasr.Executions
import Lasr.Serving
