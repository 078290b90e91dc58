import Tether.Batch.Desk
import Tether.Cluster.Report
import Tether.Main
import Tether.Proofs.Cipher.Sound
import Tether.Proofs.Keyed
import Tether.Proofs.Wire.Chunks
import Tether.Proofs.Wire.Decoding
import Tether.Proofs.Wire.Draining
import Tether.Proofs.Wire.Assembly
import Tether.Proofs.Wire.Sending
import Tether.Proofs.Wire.Interleaving
import Tether.Proofs.Wire.Format
import Tether.Proofs.Wire.Appending
import Tether.Proofs.Wire.Validation
import Tether.Proofs.Wire.Runs
import Tether.Proofs.Link.Reading
import Tether.Proofs.Link.Pending
import Tether.Proofs.Link.Session
import Tether.Proofs.Link.Closing
import Tether.Proofs.Link.Owning
import Tether.Proofs.Link.Requests
import Tether.Proofs.Link.Ending
import Tether.Proofs.Link.Endpoint
import Tether.Proofs.Transfer.Body
import Tether.Proofs.Link.Moves
import Tether.Proofs.Link.Writing
import Tether.Proofs.Link.Asking
import Tether.Proofs.Link.Lifecycle
import Tether.Proofs.Link.Serving
import Tether.Proofs.Link.Carrying
import Tether.Proofs.Link.Duplex
import Tether.Proofs.Link.Answering
import Tether.Proofs.Cluster.Mirrors
import Tether.Proofs.Link.Finding
import Tether.Proofs.Link.Hearing
import Tether.Proofs.Link.Replying
import Tether.Proofs.Cluster.Calling
import Tether.Proofs.Cluster.Sending
import Tether.Proofs.Cluster.Reading
import Tether.Proofs.Cluster.Following
import Tether.Proofs.Cluster.Spelling
import Tether.Proofs.Cluster.Streaming
import Tether.Proofs.Cluster.Waiting
import Tether.Proofs.Cluster.Expiring
import Tether.Proofs.Cluster.Deciding
import Tether.Proofs.Master.Holders
import Tether.Proofs.Master.Reception
import Tether.Proofs.Master.Membership
import Tether.Proofs.Link.Going
import Tether.Proofs.Master.Keeping
import Tether.Proofs.Master.Shutting
import Tether.Proofs.Master.Greeting
import Tether.Proofs.Master.Attending
import Tether.Proofs.Master.Guarding
import Tether.Proofs.Master.Gatekeeping
import Tether.Proofs.Master.Hosting
import Tether.Proofs.Worker.Managing
import Tether.Proofs.Worker.Stopping
import Tether.Proofs.Batch.Answers
import Tether.Proofs.Batch.Pipeline
import Tether.Proofs.Batch.Delivering
import Tether.Proofs.Batch.Slots
import Tether.Proofs.Worker.Attempts
import Tether.Proofs.Worker.Course
import Tether.Proofs.Batch.Fates
import Tether.Proofs.Batch.Mailroom
import Tether.Proofs.Batch.Seating
import Tether.Proofs.Wire.Succession
import Tether.Proofs.Wire.Cutting
import Tether.Proofs.Link.Speaking
import Tether.Proofs.Link.Refusing
import Tether.Proofs.Link.Accepting
import Tether.Proofs.Worker.Scheduled
import Tether.Proofs.Link.Resting
import Tether.Proofs.Batch.Forwarding
import Tether.Node.Launch
import Tether.Proofs.Node.Launching
import Tether.Proofs.Wire.Faults
import Tether.Proofs.Link.Copying
import Tether.Proofs.Link.Abandoning
import Tether.Proofs.Transfer.Path
import Tether.Proofs.Transfer.Receiving
import Tether.Proofs.Link.Docket
import Tether.Proofs.Link.Settling
import Tether.Proofs.Link.Books
import Tether.Proofs.Link.Reusing
import Tether.Proofs.Wire.Tails
import Tether.Proofs.Cluster.Finishing
import Tether.Proofs.Batch.Bells
import Tether.Proofs.Batch.Waking
import Tether.Proofs.Batch.Collecting
import Tether.Proofs.Cluster.Judging
import Tether.Proofs.Cluster.Accounting
import Tether.Proofs.Cluster.Probing
import Tether.Proofs.Worker.Doubling
import Tether.Proofs.Link.Numbering
