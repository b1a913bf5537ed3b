import FiduciaLoadBalance.Concurrency.Machine
import FiduciaLoadBalance.Concurrency.Refine
import FiduciaLoadBalance.Concurrency.Pool
import FiduciaLoadBalance.Concurrency.Progress
import FiduciaLoadBalance.Revocation.Authority
import FiduciaLoadBalance.Revocation.Progress
import FiduciaLoadBalance.Auth.Keys
import FiduciaLoadBalance.Proxy.Budget
import FiduciaLoadBalance.Server.Ready
import FiduciaLoadBalance.Server.Operator
import FiduciaLoadBalance.Server.System
import FiduciaLoadBalance.Server.Progress
import FiduciaLoadBalance.Server.Tended
import FiduciaLoadBalance.Server.Main
import FiduciaLoadBalance.Table.Naming
import FiduciaLoadBalance.Table.Refresh
import FiduciaLoadBalance.Table.Scan
import FiduciaLoadBalance.Proxy.AtMostOnce
import FiduciaLoadBalance.Proxy.Failover
import FiduciaLoadBalance.Proxy.Locks
import FiduciaLoadBalance.Proxy.Mediation
import FiduciaLoadBalance.Proxy.OneShard
import FiduciaLoadBalance.Proxy.Membership
import FiduciaLoadBalance.Proxy.Regions
import FiduciaLoadBalance.Proxy.Rotation
import FiduciaLoadBalance.Proxy.Healing
import FiduciaLoadBalance.Proxy.Headers
import FiduciaLoadBalance.Proxy.ReadOnly
import FiduciaLoadBalance.Proxy.Reuse
import FiduciaLoadBalance.Proxy.Replay
import FiduciaLoadBalance.Proxy.Required
import FiduciaLoadBalance.Proxy.Stored
import FiduciaLoadBalance.Revocation.Tokens
import FiduciaLoadBalance.Revocation.Window
import FiduciaLoadBalance.Revocation.Overlap
import FiduciaLoadBalance.Revocation.Cleanup
import FiduciaLoadBalance.Auth.Authenticate
import FiduciaLoadBalance.Auth.Hop
import FiduciaLoadBalance.Auth.Bounded
import FiduciaLoadBalance.Auth.Settings
import FiduciaLoadBalance.Routing.Spelling
import FiduciaLoadBalance.Routing.Tenants
import FiduciaLoadBalance.Proxy.Truthful
