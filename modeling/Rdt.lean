import Rdt.Client.Cleanup
import Rdt.Client.Client
import Rdt.Client.Datagrams
import Rdt.Client.Fields
import Rdt.Client.Protocol
import Rdt.Client.Reach
import Rdt.Common.Basic
import Rdt.Common.Chunking
import Rdt.Common.Codec
import Rdt.Common.Datagrams
import Rdt.Common.Fields
import Rdt.Common.FileHandler
import Rdt.Common.Frames
import Rdt.Common.GoBackN
import Rdt.Common.Packet
import Rdt.Common.Protocol
import Rdt.Common.ReListenDecorator
import Rdt.Common.Socket
import Rdt.Common.Waiting
import Rdt.Configuration.Abort
import Rdt.Configuration.Client
import Rdt.Configuration.Server
import Rdt.Conversation.Basic
import Rdt.Conversation.Delivery
import Rdt.Conversation.Handshake
import Rdt.Conversation.Opening
import Rdt.Conversation.Storing
import Rdt.Conversation.Window
import Rdt.EndMarker
import Rdt.Fields
import Rdt.Gbn.DeadPeer
import Rdt.Gbn.Entry
import Rdt.Gbn.FirstPacket
import Rdt.Gbn.LastPacket
import Rdt.Gbn.LateReplies
import Rdt.Gbn.Numbering
import Rdt.Gbn.Receiver
import Rdt.Gbn.Receiving
import Rdt.Gbn.Reception
import Rdt.Gbn.Returning
import Rdt.Gbn.Safety
import Rdt.Gbn.Sender
import Rdt.Gbn.Sending
import Rdt.Gbn.Wire
import Rdt.Lib.BigEndian
import Rdt.Lib.Custody
import Rdt.Lib.Duplex
import Rdt.Lib.Flow
import Rdt.Lib.Journal
import Rdt.Lib.Lockstep
import Rdt.Lib.PosixPath
import Rdt.Lib.SlidingWindow
import Rdt.Lib.Transition
import Rdt.Lib.WindowInvariant
import Rdt.Link
import Rdt.Mismatch
import Rdt.Receive
import Rdt.Saw.Counting
import Rdt.Saw.Delivery
import Rdt.Saw.Download
import Rdt.Saw.DownloadClient
import Rdt.Saw.DownloadRun
import Rdt.Saw.DownloadServer
import Rdt.Saw.Ending
import Rdt.Saw.Filename
import Rdt.Saw.Idle
import Rdt.Saw.Progress
import Rdt.Saw.Retransmissions
import Rdt.Saw.Retries
import Rdt.Saw.Sending
import Rdt.Saw.Start
import Rdt.Saw.Streams
import Rdt.Saw.Transmission
import Rdt.Saw.Upload
import Rdt.Saw.UploadClient
import Rdt.Saw.UploadRun
import Rdt.Saw.UploadServer
import Rdt.Saw.Wire
import Rdt.Server.Accepter
import Rdt.Server.Accepting
import Rdt.Server.Answering
import Rdt.Server.Collecting
import Rdt.Server.Confinement
import Rdt.Server.Connection
import Rdt.Server.Datagrams
import Rdt.Server.Fields
import Rdt.Server.Files
import Rdt.Server.Isolation
import Rdt.Server.Keeping
import Rdt.Server.Patience
import Rdt.Server.Protocol
import Rdt.Server.Reading
import Rdt.Server.Sharing
import Rdt.Server.Silence
import Rdt.Server.Storage
import Rdt.Server.Threads
import Rdt.Server.Uploading
import Rdt.Server.Welcoming
import Rdt.Source
import Rdt.Wire
import Rdt.Wireshark
