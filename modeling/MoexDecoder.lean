import MoexDecoder.Proof.Damaged
import MoexDecoder.Proof.Filling
import MoexDecoder.Proof.Handshake
import MoexDecoder.Proof.Termination
import MoexDecoder.Proof.Framing
import MoexDecoder.Proof.Unsupported
import MoexDecoder.Proof.Book
import MoexDecoder.Proof.Csv
import MoexDecoder.Proof.Frames
import MoexDecoder.Proof.Isolation
import MoexDecoder.Proof.Prices
import MoexDecoder.Proof.BookText
import MoexDecoder.Proof.Remembers
import MoexDecoder.Proof.Payloads
import MoexDecoder.Proof.Reports
import MoexDecoder.Proof.Batches
import MoexDecoder.Proof.Oversized
import MoexDecoder.Proof.FeedCaptures
