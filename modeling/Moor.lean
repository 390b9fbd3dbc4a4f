import Moor.Circuit.ConfluxSend
import Moor.Circuit.FirstHop
import Moor.Circuit.Lockstep
import Moor.Circuit.Network
import Moor.Circuit.Path
import Moor.Circuit.PathBias
import Moor.Circuit.StreamIds
import Moor.Circuit.Vanguard
import Moor.Dht.Dpf
import Moor.Directory.Bridges
import Moor.Directory.Capacity
import Moor.Directory.FlagRules
import Moor.Directory.Pow
import Moor.Directory.SharedRandom
import Moor.Directory.TableBounds
import Moor.Directory.Weights
import Moor.HiddenService.Agreement
import Moor.HiddenService.Client
import Moor.Link.AsyncHandshake
import Moor.Link.Rekey
import Moor.Relay.ExitDelivery
import Moor.Relay.ExitWindow
import Moor.Relay.ExtendWork
import Moor.Relay.Rendezvous
import Moor.Relay.Teardown
import Moor.Socks.Upload
