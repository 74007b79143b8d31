import Despotify.Pool.Transducer
import Despotify.Pool.Runs
import Despotify.Pool.Keyed
import Despotify.Pool.Unseen
import Despotify.Pool.Blocks
import Despotify.Pool.Chain
import Despotify.Pool.Proc
import Despotify.Pool.Source
import Despotify.Pool.Swap
import Despotify.Pool.Decoder
import Despotify.Pool.Octets
import Despotify.Pool.Utf16
import Despotify.Pool.Selection
import Despotify.Pool.Lines
import Despotify.Pool.Attribution
import Despotify.Pool.Absorb
import Despotify.Pool.Word32
import Despotify.Pool.Sha1
import Despotify.Pool.Rounds
import Despotify.Pool.Aes
import Despotify.Wire.Bytes
import Despotify.Wire.Shannon
import Despotify.Wire.ShannonBytes
import Despotify.Wire.ShannonNonce
import Despotify.Wire.ShannonJava
import Despotify.Wire.ShannonInterop
import Despotify.Wire.ShannonMac
import Despotify.Wire.Packet
import Despotify.Wire.BlockIo
import Despotify.Wire.KeyExchange
import Despotify.Java.ByteBuffer
import Despotify.Java.Gzip
import Despotify.Wire.DhKey
import Despotify.Wire.SearchRequest
import Despotify.Wire.Sha1
import Despotify.Wire.Digest
import Despotify.Wire.Login
import Despotify.Wire.RijndaelTables
import Despotify.Wire.Rijndael
import Despotify.Wire.RijndaelSchedule
import Despotify.Channel.Table
import Despotify.Channel.Headers
import Despotify.Channel.Inv
import Despotify.Channel.Receive
import Despotify.Channel.Live
import Despotify.Channel.WireId
import Despotify.Channel.Bounds
import Despotify.Channel.Feed
import Despotify.Channel.Replay
import Despotify.Channel.Data
import Despotify.Channel.Handlers
import Despotify.Sync.Model
import Despotify.Sync.Packet
import Despotify.Sync.Base
import Despotify.Sync.Wait
import Despotify.Sync.Reply
import Despotify.Sync.Isolation
import Despotify.Sync.Cache
import Despotify.Sync.Playlists
import Despotify.Player.Model
import Despotify.Player.Requests
import Despotify.Player.Base
import Despotify.Player.FirstPage
import Despotify.Player.Memory
import Despotify.Player.Download
import Despotify.Player.Decrypt
import Despotify.Player.Plain
import Despotify.Player.Pairing
import Despotify.Player.Consume
import Despotify.Player.Conserve
import Despotify.Player.Links
import Despotify.Player.Playing
import Despotify.Player.Announce
import Despotify.Player.Skip
import Despotify.Player.Gapless
import Despotify.Gateway.Command
import Despotify.Gateway.Output
import Despotify.Gateway.Stream
import Despotify.Lib.Buf
import Despotify.Lib.BufAppend
import Despotify.Lib.Inflate
import Despotify.Gateway.Header
import Despotify.Gateway.Decompress
import Despotify.Gateway.Model
import Despotify.Pool.Spine
import Despotify.Lib.Xml
import Despotify.Lib.Tracks
import Despotify.Lib.Uri
import Despotify.Lib.Link
import Despotify.Lib.LinkGrammar
import Despotify.Lib.Files
import Despotify.Lib.Playlist
import Despotify.Lib.Edit
import Despotify.Lib.EzxmlDecode
import Despotify.Lib.EzxmlParse
import Despotify.Lib.EzxmlTurns
import Despotify.Lib.EzxmlRoundTrip
import Despotify.Lib.Rename
import Despotify.Lib.Ordered
import Despotify.Lib.LoadTracks
import Despotify.Lib.Bookkeeping
import Despotify.Pool.Chunks
import Despotify.Lib.Duplicates
import Despotify.Lib.Resolve
import Despotify.Lib.Session
import Despotify.Lib.Stored
import Despotify.Lib.Frame
import Despotify.Lib.Search
import Despotify.Ui.EventLaw
import Despotify.Ui.Delivery
import Despotify.Ui.PcmThread
import Despotify.Ui.Sort
import Despotify.Ui.Dedup
import Despotify.Ui.Footer
import Despotify.Java.Protocol
import Despotify.Java.Reading
import Despotify.Java.Initial
import Despotify.Java.Received
import Despotify.Java.Channel
import Despotify.Java.Routing
import Despotify.Java.Demux
import Despotify.Java.OggHeader
import Despotify.Java.Replies
import Despotify.Java.SpotifyUri
import Despotify.Java.SpotifyUrl
import Despotify.Java.Unmarshaller
import Despotify.Java.Naming
import Despotify.Java.AlbumNaming
import Despotify.Java.Xml
import Despotify.Java.Playlist
import Despotify.Java.Reload
import Despotify.Java.Client
import Despotify.Java.Exchange
import Despotify.Java.Edits
import Despotify.Java.Atomic
import Despotify.Java.Mirror
import Despotify.Java.Leaks
import Despotify.Java.ChannelPlayer
import Despotify.Java.TrackCipher
import Despotify.Lib.Services
import Despotify.Lib.ChangeRead
import Despotify.Sync.Changes
import Despotify.Ui.Windows
import Despotify.Ui.Browser
import Despotify.Gateway.Framing
import Despotify.Pool.Filling
import Despotify.Gateway.Asserts
import Despotify.Gateway.Ids
import Despotify.Gateway.Credentials
import Despotify.Gateway.Pass
import Despotify.Gateway.Rounds
import Despotify.Gateway.Refs
