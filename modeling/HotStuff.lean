import HotStuff.Basic
import HotStuff.Crypto.LRU
import HotStuff.Crypto.Cache
import HotStuff.LeaderRotation.Carousel
import HotStuff.Twins.Network
import HotStuff.Twins.Scenario
import HotStuff.Twins.Tick
import HotStuff.Twins.Run
import HotStuff.Twins.Timeout
import HotStuff.Orchestration.Controller
import HotStuff.Orchestration.QSpec
import HotStuff.Backend.Metadata
import HotStuff.Backend.Fetch
import HotStuff.Twins.Json
import HotStuff.Twins.Commands
