import Cvcn.Net.Delivery
import Cvcn.Net.Deletion
import Cvcn.Net.Representation
import Cvcn.Net.ResultQueue
import Cvcn.Storage.DirectChat
import Cvcn.Storage.Membership
import Cvcn.Storage.Durability
import Cvcn.Services.Registry
import Cvcn.Services.Broadcast
import Cvcn.Services.Authentication
import Cvcn.Services.Ordering
import Cvcn.Services.Authorisation
import Cvcn.Grammar
import Cvcn.Services.Requests
import Cvcn.Client.Connection
import Cvcn.Services.PacketSizes
import Cvcn.Services.Execution
import Cvcn.Services.EndToEnd
import Cvcn.Net.Pipe
import Cvcn.Net.WorkerLoop
import Cvcn.Services.Shutdown
import Cvcn.Services.Delivered
import Cvcn.Services.Presence
import Cvcn.Services.Identity
import Cvcn.Client.SizeLimit
import Cvcn.Net.ReceiveBuffer
import Cvcn.Client.Transport
import Cvcn.Services.Unauthenticated
import Cvcn.Services.Responses
import Cvcn.Storage.UserSearch
import Cvcn.Storage.RowCounts
import Cvcn.Storage.Faults
import Cvcn.Services.Registration
import Cvcn.Net.Exceptions
import Cvcn.Net.LostObjects
import Cvcn.Net.Quiescence
import Cvcn.Services.Refinement
import Cvcn.Storage.Transactions
import Cvcn.Net.Settling
