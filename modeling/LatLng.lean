import LatLng.Aof.CrashPrefix
import LatLng.Aof.Rollback
import LatLng.Core.FailedCall
import LatLng.Replication.Converge
import LatLng.Webhook.DeadLetter
import LatLng.Webhook.Loop
import LatLng.Webhook.Positions
import LatLng.Concurrent.Fences
import LatLng.Concurrent.Shrink
import LatLng.Replication.Batches
import LatLng.Core.Roaming
import LatLng.Replication.Manager
import LatLng.Replication.Stream
import LatLng.Platform.Cancel
import LatLng.Geofence.Delivery
import LatLng.Transport.Bounds
import LatLng.Index.Pagination
import LatLng.Aof.Backup
import LatLng.Storage.Backends
import LatLng.Core.Sweep
import LatLng.Core.FieldLaw
import LatLng.Auth.Integrity
import LatLng.Geo.JsonPath
import LatLng.Geo.Positions
import LatLng.Geo.Within
import LatLng.Auth.Tokens
import LatLng.Core.LimitedIds
import LatLng.Core.Volatile
import LatLng.Core.Mirror
