import SchemaRpc.Http.Basic

/-!
# Event streams

The states of a stream, the frames on the wire and the errors of those who push events. A stream goes from idle to
streaming to closed and never back.
-/

namespace SchemaRpc

/-- Where a stream stands. -/
inductive Phase where
  /-- Nothing is written; the request can still fail with an ordinary response. -/
  | idle
  /-- The head of the response is committed. -/
  | streaming
  | closed
  deriving DecidableEq, Inhabited

namespace Phase

def label : Phase → String
  | idle => "Idle"
  | streaming => "Streaming"
  | closed => "Closed"

end Phase

/-- What travels in the body of an event stream. -/
inductive Frame where
  /-- An event as compact JSON. -/
  | message (json : String)
  /-- Keeps the connection from going stale. -/
  | ping
  /-- The server will send no more. -/
  | done
  deriving DecidableEq, Inhabited

namespace Frame

/-- The text of a frame: its event name, its data and an empty line. -/
def text : Frame → String
  | message json => "event: message\ndata: " ++ json ++ "\n\n"
  | ping => "event: ping\ndata:\n\n"
  | done => "event: done\ndata: done\n\n"

end Frame

inductive StreamError where
  | encode (error : CodecError)
  | closed
  deriving DecidableEq, Inhabited

namespace StreamError

def message : StreamError → String
  | encode error => "failed to encode event: " ++ error.message
  | closed => "stream is closed"

def kind : StreamError → String
  | encode _ => "Encode"
  | closed => "Closed"

/-- The error of a handler that passes a stream error on. -/
def toRpcError : StreamError → RpcError
  | encode _ => .internal
  | closed => ⟨500, "Stream closed", none⟩

end StreamError

def eventStreamHead (version : HttpVersion) : Http.Head where
  status := 200
  headers :=
    [("content-type", "text/event-stream"),
      ("cache-control", "private, no-cache, no-store, no-transform, must-revalidate, max-age=0")] ++
    (if version.hasConnectionHeader then [("connection", "keep-alive")] else []) ++
    [("x-accel-buffering", "no")]

end SchemaRpc
