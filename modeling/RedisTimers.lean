import RedisTimers.Library.Replay
import RedisTimers.Library.Lease
import RedisTimers.Library.Ranked
import RedisTimers.Library.Footprint
import RedisTimers.Library.Tally
import RedisTimers.Library.PyFloat
import RedisTimers.Library.ScriptServer
import RedisTimers.Library.PyText
import RedisTimers.Library.PyJsonScan
import RedisTimers.Library.PyJson
import RedisTimers.Library.CodeOrder
import RedisTimers.Library.Linearize
import RedisTimers.Library.Shares
import RedisTimers.Redis
import RedisTimers.Store
import RedisTimers.Log
import RedisTimers.Inspection
import RedisTimers.Keys
import RedisTimers.Fleet
import RedisTimers.Consumption
import RedisTimers.Guarantees
import RedisTimers.Clocks
import RedisTimers.Recovery
import RedisTimers.Leasing
import RedisTimers.Scripts
import RedisTimers.Publish
import RedisTimers.Registry
import RedisTimers.Registration
import RedisTimers.Schemas
import RedisTimers.Poll
import RedisTimers.Workers
import RedisTimers.Backoff
import RedisTimers.Suspension
import RedisTimers.Listing
import RedisTimers.Fairness
import RedisTimers.Calendar
import RedisTimers.Concurrent
import RedisTimers.Brokers
import RedisTimers.Api
import RedisTimers.Message
import RedisTimers.Envelope
import RedisTimers.Delivery
import RedisTimers.Testing
import RedisTimers.Wiring
import RedisTimers.Journey
