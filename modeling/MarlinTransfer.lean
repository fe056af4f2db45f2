import MarlinTransfer.Fixtures.Reception
import MarlinTransfer.Fixtures.OpenName
import MarlinTransfer.Codec.Corruption
import MarlinTransfer.Link.FalseAck
import MarlinTransfer.FileTransfer.Success
import MarlinTransfer.Link.Delivery
import MarlinTransfer.Lib.Fifo
import MarlinTransfer.FileTransfer.Overtaken
import MarlinTransfer.Adapters.Upload
import MarlinTransfer.Adapters.Sizes
import MarlinTransfer.FileTransfer.Leftovers
import MarlinTransfer.Link.SlowLink
import MarlinTransfer.Session.Budget
import MarlinTransfer.FileTransfer.Finality
import MarlinTransfer.FileTransfer.Schedule
import MarlinTransfer.Session.Handshakes
import MarlinTransfer.Session.Unmoved
import MarlinTransfer.FileTransfer.Resend
import MarlinTransfer.FileTransfer.Stray
import MarlinTransfer.Adapters.Compression
import MarlinTransfer.Adapters.Tokio
import MarlinTransfer.Fixtures.Outcome
import MarlinTransfer.Fixtures.Inspect
import MarlinTransfer.Adapters.Silence
import MarlinTransfer.Link.Recovery
