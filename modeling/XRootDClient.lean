import XRootDClient.Lib.Dict
import XRootDClient.Lib.BigEndian
import XRootDClient.Lib.Text
import XRootDClient.Lib.Decimal
import XRootDClient.Lib.Batching
import XRootDClient.Lib.Sha256
import XRootDClient.Lib.Stateful
import XRootDClient.Lib.Run
import XRootDClient.Errors
import XRootDClient.Proto.Constants
import XRootDClient.Proto.Buffer
import XRootDClient.Proto.Frames
import XRootDClient.Proto.Requests
import XRootDClient.Proto.Vectors
import XRootDClient.Proto.Checkpoint
import XRootDClient.Proto.Paths
import XRootDClient.Proto.Responses
import XRootDClient.Config
import XRootDClient.Crypto.Sigver
import XRootDClient.Crypto.Pages
import XRootDClient.Auth.Ladder
import XRootDClient.Proto.Machine
import XRootDClient.Proto.Runs
import XRootDClient.Proto.Cursor
import XRootDClient.Proto.Terminal
import XRootDClient.Proto.Signing
import XRootDClient.Proto.Encryption
import XRootDClient.Proto.Admission
import XRootDClient.Proto.Completeness
import XRootDClient.Proto.Upgrade
import XRootDClient.Proto.Boundaries
import XRootDClient.Proto.Loop
import XRootDClient.Proto.Chunking
import XRootDClient.Proto.Answers
import XRootDClient.Proto.Submit
import XRootDClient.Proto.Limits
import XRootDClient.Proto.Covered
import XRootDClient.Io.Raw
import XRootDClient.Copy.Tree
import XRootDClient.Copy.Reports
import XRootDClient.Copy.Total
import XRootDClient.Copy.Readahead
import XRootDClient.Copy.Window
import XRootDClient.S3.Multipart
import XRootDClient.S3.Scandir
import XRootDClient.S3.Sigv4
import XRootDClient.Client.Reread
import XRootDClient.Client.Rmtree
import XRootDClient.Client.Glob
import XRootDClient.Http.Upload
import XRootDClient.Client.Walk
import XRootDClient.Client.Vectors
import XRootDClient.Client.Bulk
import XRootDClient.Client.Dirlist
import XRootDClient.Client.Locate
import XRootDClient.Session.Identity
import XRootDClient.Session.Attempts
import XRootDClient.Session.Streaming
import XRootDClient.Client.Pinned
import XRootDClient.Client.Recovery
import XRootDClient.Client.Secrets
import XRootDClient.Client.Transfer
import XRootDClient.Session.Owned
import XRootDClient.Root.Hist
import XRootDClient.Root.Directory
import XRootDClient.Root.Buffer
import XRootDClient.Root.Compression
import XRootDClient.Root.Rows
import XRootDClient.Root.Iterate
import XRootDClient.Root.Writer
import XRootDClient.Client.Brackets
import XRootDClient.Root.Xxh64
import XRootDClient.Crypto.Crc
import XRootDClient.Crypto.Rsa
import XRootDClient.Crypto.Aes
import XRootDClient.Lib.Feistel
import XRootDClient.Crypto.Blowfish
import XRootDClient.Auth.Sss
import XRootDClient.Lib.Base128
import XRootDClient.Lib.TwosComplement
import XRootDClient.Lib.Minimal
import XRootDClient.Crypto.Der
import XRootDClient.Lib.Search
import XRootDClient.Lib.Powers
import XRootDClient.Lib.Hex
import XRootDClient.Crypto.Pem
import XRootDClient.Auth.Gsi
import XRootDClient.Auth.Handshake
import XRootDClient.Root.Cxx
import XRootDClient.Root.Ml
import XRootDClient.Http.Download
import XRootDClient.Http.Markers
import XRootDClient.Root.Dataset
