import SalemCash.Cash.Record
import SalemCash.Cash.Serialize
import SalemCash.Cache.Layer
import SalemCash.Cache.Usage
import SalemCash.Cache.MergeError
import SalemCash.Cache.Merge
import SalemCash.Cache.Stack
import SalemCash.Cache.TestBase
import SalemCash.Cache.Flags
import SalemCash.Cache.Read
import SalemCash.Cache.Refinement
import SalemCash.Cache.Spend
import SalemCash.Cache.BestBlock
import SalemCash.Cache.AddTx
import SalemCash.Cache.StackUsage
import SalemCash.Cache.Inputs
import SalemCash.Cache.Commit
import SalemCash.Cache.Simulation
