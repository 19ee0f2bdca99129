import FileBelt.Api.Listing
import FileBelt.Authz.Attenuation
import FileBelt.Authz.Repository
import FileBelt.Authz.SnapshotFacts
import FileBelt.Collaboration.Fields
import FileBelt.Collaboration.RateLimit
import FileBelt.Collaboration.ReplayChunks
import FileBelt.Collaboration.SharedRoom
import FileBelt.Collaboration.Staging
import FileBelt.Collaboration.Stream
import FileBelt.Cow.Lock
import FileBelt.Cow.Retry
import FileBelt.Database.Outbox
import FileBelt.Egress.PathPolicy
import FileBelt.Ftps.ReadOnly
import FileBelt.Git.Repositories
import FileBelt.Mount.LockLifetime
import FileBelt.Mount.ShareSafety
import FileBelt.Nfs.Admission
import FileBelt.Nfs.Drain
import FileBelt.Nfs.DrainCommand
import FileBelt.Nfs.Manifest
import FileBelt.Nfs.Readdir
import FileBelt.Vfs.Admission
import FileBelt.Vfs.LogicalPath
import FileBelt.Write.ExtentMap
import FileBelt.Write.FirstRange
