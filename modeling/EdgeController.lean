import EdgeController.Objects
import EdgeController.LocationCache
import EdgeController.Downstream
import EdgeController.Controller
import EdgeController.IndexInvariants
import EdgeController.Interleaving
import EdgeController.Missions
import EdgeController.Messages
import EdgeController.Priming
import EdgeController.Rerun
import EdgeController.Goroutines
import EdgeController.Serial
import EdgeController.SentMessages
import EdgeController.Progress
