import Mathlib.Data.List.Infix
import Cxdb.ClientSystem

/-!
# The Two Clients

What the Rust client and the Go client do differently: their errors (`error.rs` and
`errors.go`, as far as they tell them apart), the predicate by which a reconnecting client
decides that its connection is lost, and the frames that they refuse to read.
-/

open ByteFormat

namespace Cxdb

/-- The two client libraries. -/
inductive ClientLib where
  | rust
  | go
  deriving DecidableEq

/-! ### Errors -/

/-- The texts that `contains_connection_pattern` looks for, in Rust and in Go. -/
def connectionPatterns : List String :=
  ["connection reset", "connection refused", "broken pipe",
    "use of closed network connection", "network is unreachable", "no route to host",
    "connection timed out", "i/o timeout"]

/-- `contains_connection_pattern`; `lower` is `to_lowercase`. -/
def containsConnectionPattern (lower : String → String) (msg : String) : Bool :=
  connectionPatterns.any fun p => decide (p.toList <:+: (lower msg).toList)

/-- `std::io::ErrorKind`, as far as `is_connection_error` tells the kinds apart. -/
inductive ErrorKind where
  | connectionReset
  | connectionAborted
  | brokenPipe
  | connectionRefused
  | timedOut
  | unexpectedEof
  | notConnected
  | other

/-- The errors of the Rust client; an I/O error has its kind and its text. -/
inductive ClientError where
  | clientClosed
  | contextNotFound
  | turnNotFound
  | invalidResponse (msg : String)
  | server (code : UInt32) (detail : String)
  | io (kind : ErrorKind) (msg : String)
  | tls (msg : String)
  | timeout
  | cancelled
  | queueFull

/-- `is_connection_error`. -/
def ClientError.isConnectionError (lower : String → String) : ClientError → Bool
  | .clientClosed | .server _ _ | .timeout | .cancelled | .queueFull => false
  | .io .other msg => containsConnectionPattern lower msg
  | .io _ _ => true
  | .tls msg => containsConnectionPattern lower msg
  | .invalidResponse msg => containsConnectionPattern lower msg
  | .contextNotFound => containsConnectionPattern lower "cxdb: context not found"
  | .turnNotFound => containsConnectionPattern lower "cxdb: turn not found"

/-- The system errors of `connectionSyscallErrors`, and the others. -/
inductive Errno where
  | connReset
  | connRefused
  | pipe
  | connAborted
  | netUnreach
  | hostUnreach
  | netDown
  | timedOut
  | other

/-- The errors of the Go client. An `OpError` of the `net` package wraps the error
underneath, and `netError` is any other error of that package, such as an expired
deadline. -/
inductive GoError where
  | clientClosed
  | eof
  | unexpectedEof
  | errno (errno : Errno)
  | opError (err : Option GoError)
  | netError
  | server (code : UInt32) (detail : String)
  | other (msg : String)

/-- `isConnectionError`. `errors.Is` and `errors.As` look through an `OpError`, with the
same results as the recursion. -/
def GoError.isConnectionError (lower : String → String) : GoError → Bool
  | .clientClosed => false
  | .eof | .unexpectedEof => true
  | .errno .other => false
  | .errno _ => true
  | .opError none => true
  | .opError (some err) => err.isConnectionError lower
  | .netError => true
  | .server code detail =>
      containsConnectionPattern lower
        ("cxdb server error " ++ toString code.toNat ++ ": " ++ detail)
  | .other msg => containsConnectionPattern lower msg

/-! ### The two clients -/

/-- The Rust client. -/
def rustApi (lower : String → String) : Api ClientError where
  tooLarge len :=
    if len > maxFrameSize then
      some (.invalidResponse ("frame size " ++ toString len.toNat ++ " exceeds maximum " ++
        toString maxFrameSize.toNat))
    else none
  server := .server
  isConnectionError := ClientError.isConnectionError lower
  stopsWhenClosed := true

/-- The Go client, which takes frames of every length. -/
def goApi (lower : String → String) : Api GoError where
  tooLarge _ := none
  server := .server
  isConnectionError := GoError.isConnectionError lower
  stopsWhenClosed := false

/-- A call whose whole response has arrived: `read_frame`, and what `send_request` makes of
the frame. `cut` is the error of a stream that ends too soon. -/
def Api.receive {ε : Type} (api : Api ε) (decode : Decoding) (cut : ε) (bs : Bytes) :
    Except ε Frame :=
  match api.rejects bs with
  | some e => .error e
  | none =>
    match takeFrame bs with
    | some (frame, _) => api.outcome decode frame
    | none => .error cut

end Cxdb
