import ReactorNet.Http.Headers
import ReactorNet.Http.Response
import ReactorNet.Lib.Stream

/-!
# ReactorNet — the static file server

`HttpServer` of `example/http_server.cpp`: a keep-alive loop over the input buffer of a
connection. Two places decide where a request ends. The parser goes from line to line, and
the loop searches the buffer for `"\r\n\r\n"` and consumes up to there.

What a file name holds is a parameter of the server (`readFile`): the files are read-only here,
and stay as they are for as long as the server runs, over all messages of a connection. An
exception leaves the loop with what was sent before it.

* `parseRequest_agrees` — the parser and the loop agree about the end of a request, and
  more data changes nothing.
* `onMessage_split` — the loop cuts the buffer into requests and answers each.
-/

namespace ReactorNet

open Lib HttpRequest

/-- A `std::string`: its size is a `size_t`. -/
abbrev Content := { s : Bytes // s.length < 2 ^ 64 }

structure HttpServer where
  docRoot : Bytes
  /-- What a name holds if it can be opened. -/
  readFile : Bytes → Option Content

namespace HttpServer

/-- What `getMimeType` compares the end of a path with, in this order. -/
def mimeTypes : List (Bytes × Bytes) :=
  [(ascii ".html", ascii "text/html"), (ascii ".css", ascii "text/css"),
    (ascii ".js", ascii "application/javascript"), (ascii ".png", ascii "image/png"),
    (ascii ".jpg", ascii "image/jpeg"), (ascii ".svg", ascii "image/svg+xml"),
    (ascii ".ico", ascii "image/x-icon"), (ascii ".json", ascii "application/json"),
    (ascii ".txt", ascii "text/plain")]

def getMimeType (path : Bytes) : Bytes :=
  match mimeTypes.find? fun entry => entry.1 <:+ path with
  | some entry => entry.2
  | none => ascii "application/octet-stream"

def notFoundBody : Bytes :=
  ascii "<html><head><title>404 Not Found</title></head>" ++
    ascii "<body><h1>404 Not Found</h1><p>" ++
    ascii "The requested URL was not found on this server." ++ ascii "</p></body></html>"

theorem length_notFoundBody : notFoundBody.length < 2 ^ 64 := by
  simp only [notFoundBody, List.length_append]
  decide

/-- The response to a request; the connection is kept. -/
def respond (server : HttpServer) (req : HttpRequest) : HttpResponse :=
  let response := HttpResponse.new false
  match server.readFile (cStr (server.docRoot ++ req.path)) with
  | some content =>
    ((response.setStatusCode k200Ok).setContentType (getMimeType req.path)).setBody
      content.val content.property
  | none =>
    ((response.setStatusCode k404NotFound).setContentType (ascii "text/html")).setBody
      notFoundBody length_notFoundBody

/-- The bytes that are sent for a request. -/
def answer (server : HttpServer) (req : HttpRequest) : Bytes :=
  ((server.respond req).appendToBuffer (Buffer.new kInitialSize)).contents

/-- A connection: its input buffer, what was sent to it, and the exception that left
`onMessage`, if one did. -/
structure Serving where
  buf : Buffer
  sent : List Bytes
  thrown : Option StdException

/-- One pass of the keep-alive loop. -/
def messagePass (server : HttpServer) (conn : Serving) : Pass Serving :=
  match ({} : HttpRequest).parseRequest conn.buf.peek with
  | .error e => .done { conn with thrown := some e }
  | .ok (false, _) => .done conn -- incomplete request, wait for more data
  | .ok (true, req) =>
    match search crlfcrlf conn.buf.peek with
    | none => .done conn
    | some headerEnd =>
      .again
        { conn with
          buf := conn.buf.retrieve (headerEnd + 4)
          sent := conn.sent ++ [server.answer req] }

def onMessage (server : HttpServer) (conn : Serving) : Serving :=
  loop (fun conn => conn.buf.readableBytes) server.messagePass conn

/-! ## The end of a request -/

variable {s : Bytes} {conn : Serving} {req : HttpRequest}

theorem crlfcrlf_le {i : Nat} (h : search crlfcrlf s = some i) : i + 4 ≤ s.length :=
  (search_eq_some.mp h).1.le (by decide)

/-- A complete request ends where the scan of its headers stopped, which is the first
`"\r\n\r\n"`. -/
theorem parseRequest_end {r r' : HttpRequest} (h : r.parseRequest s = .ok (true, r')) :
    ∃ line read scan, IsFirstLine line s ∧ r.parseRequestLine line = .ok (true, read) ∧
      scanHeaders s (line.length + 2) read.headers = .ok scan ∧ scan.complete = true ∧
      2 ≤ scan.current ∧ search crlfcrlf s = some (scan.current - 2) := by
  obtain ⟨line, read, scan, hLine, hRead, hScan, hComplete, -⟩ := parseRequest_eq_true.mp h
  obtain ⟨scan', hScan', hFound, -⟩ := scanHeaders_spec (Passed.first hLine.search) read.headers
  obtain rfl := Except.ok.inj (hScan.symm.trans hScan')
  exact ⟨line, read, scan, hLine, hRead, hScan, hComplete, hFound hComplete⟩

/-- The pass of the loop over a complete request. -/
theorem messagePass_request (server : HttpServer) {i : Nat}
    (h : ({} : HttpRequest).parseRequest conn.buf.contents = .ok (true, req))
    (hEnd : search crlfcrlf conn.buf.contents = some i) :
    server.messagePass conn = .again
      { conn with
        buf := conn.buf.retrieve (i + 4)
        sent := conn.sent ++ [server.answer req] } := by
  simp only [messagePass, Buffer.peek_eq_contents, h, hEnd]

/-- **The parser and the loop agree** about the end of a request, and neither changes its
mind when more arrives. -/
theorem parseRequest_agrees (s : Bytes) :
    (∀ req, ({} : HttpRequest).parseRequest s = .ok (true, req) →
      (∀ t, ({} : HttpRequest).parseRequest (s ++ t) = .ok (true, req)) ∧
      ∃ line read scan, IsFirstLine line s ∧
        ({} : HttpRequest).parseRequestLine line = .ok (true, read) ∧
        scanHeaders s (line.length + 2) read.headers = .ok scan ∧ scan.complete = true ∧
        2 ≤ scan.current ∧ search crlfcrlf s = some (scan.current - 2) ∧
        ∀ (server : HttpServer) (conn : Serving), conn.buf.contents = s →
          ∃ conn', server.messagePass conn = .again conn' ∧
            conn'.buf.contents = s.drop (scan.current + 2)) ∧
    (search crlfcrlf s = none → ∀ req, ({} : HttpRequest).parseRequest s ≠ .ok (true, req)) := by
  constructor
  · intro req h
    obtain ⟨line, read, scan, hLine, hRead, hScan, hComplete, hTwo, hEnd⟩ := parseRequest_end h
    refine ⟨parseRequest_append h,
      line, read, scan, hLine, hRead, hScan, hComplete, hTwo, hEnd, ?_⟩
    rintro server conn rfl
    refine ⟨_, messagePass_request server h hEnd, ?_⟩
    rw [Buffer.contents_retrieve, show scan.current - 2 + 4 = scan.current + 2 by omega]
  · intro hNone req h
    obtain ⟨line, read, scan, -, -, -, -, -, hEnd⟩ := parseRequest_end h
    rw [hNone] at hEnd
    cases hEnd

/-- A request with a header and the beginning of the next one. -/
example : ∃ req, ({} : HttpRequest).parseRequest (ascii "GET / HTTP/1.1\r\nA: b\r\n\r\nGET") =
    .ok (true, req) ∧ req.path = ascii "/index.html" := ⟨_, rfl, rfl⟩

/-! ## The loop -/

/-- The verdict of the loop on the bytes in its buffer. -/
def requestCut (s : Bytes) : Cut HttpRequest :=
  match ({} : HttpRequest).parseRequest s with
  | .error _ => .broken
  | .ok (false, _) => .more
  | .ok (true, req) =>
    match search crlfcrlf s with
    | none => .more
    | some headerEnd => .frame req (headerEnd + 4)

theorem requestCut_eq_frame {n : Nat} :
    requestCut s = .frame req n ↔
      ({} : HttpRequest).parseRequest s = .ok (true, req) ∧
        ∃ i, search crlfcrlf s = some i ∧ n = i + 4 := by
  rw [requestCut]
  constructor
  · intro h
    split at h
    · cases h
    · cases h
    · rename_i req' hParse
      split at h
      · cases h
      · rename_i i hEnd
        cases h
        exact ⟨hParse, i, hEnd, rfl⟩
  · rintro ⟨hParse, i, hEnd, rfl⟩
    rw [hParse]
    simp only [hEnd]

theorem requestCut_eq_broken :
    requestCut s = .broken ↔ ∃ e, ({} : HttpRequest).parseRequest s = .error e := by
  rw [requestCut]
  constructor
  · intro h
    split at h
    · rename_i e hParse
      exact ⟨e, hParse⟩
    · cases h
    · split at h <;> cases h
  · rintro ⟨e, hParse⟩
    rw [hParse]

/-- The loop's verdict is one that a receiver of a stream may rely on. -/
def requestCutter : Cutter UInt8 HttpRequest where
  cut := requestCut
  bound := by
    intro s req n h
    obtain ⟨-, i, hEnd, rfl⟩ := requestCut_eq_frame.mp h
    have hLe := crlfcrlf_le hEnd
    omega
  frame_append := by
    intro s req n t h
    obtain ⟨hParse, i, hEnd, rfl⟩ := requestCut_eq_frame.mp h
    exact requestCut_eq_frame.mpr
      ⟨parseRequest_append hParse t, i, search_append hEnd (by decide) t, rfl⟩
  broken_append := by
    intro s t h
    obtain ⟨e, hParse⟩ := requestCut_eq_broken.mp h
    exact requestCut_eq_broken.mpr ⟨e, parseRequest_error_append hParse t⟩

theorem messagePass_frame (server : HttpServer) {n : Nat}
    (h : requestCut conn.buf.contents = .frame req n) :
    server.messagePass conn = .again
      { conn with
        buf := conn.buf.retrieve n
        sent := conn.sent ++ [server.answer req] } := by
  obtain ⟨hParse, i, hEnd, rfl⟩ := requestCut_eq_frame.mp h
  exact messagePass_request server hParse hEnd

theorem messagePass_broken (server : HttpServer) (h : requestCut conn.buf.contents = .broken) :
    ∃ e, server.messagePass conn = .done { conn with thrown := some e } := by
  obtain ⟨e, hParse⟩ := requestCut_eq_broken.mp h
  refine ⟨e, ?_⟩
  simp only [messagePass, Buffer.peek_eq_contents, hParse]

theorem messagePass_more (server : HttpServer) (h : requestCut conn.buf.contents = .more) :
    server.messagePass conn = .done conn := by
  rw [messagePass, Buffer.peek_eq_contents]
  rw [requestCut] at h
  split at h
  · cases h
  · rfl
  · split at h
    · rfl
    · cases h

theorem messagePass_decreases (server : HttpServer) (conn conn' : Serving)
    (h : server.messagePass conn = .again conn') :
    conn'.buf.readableBytes < conn.buf.readableBytes := by
  cases hCut : requestCut conn.buf.contents with
  | more =>
    rw [messagePass_more server hCut] at h
    cases h
  | broken =>
    obtain ⟨e, hPass⟩ := messagePass_broken server hCut
    rw [hPass] at h
    cases h
  | frame req n =>
    rw [messagePass_frame server hCut] at h
    cases h
    have hBound := requestCutter.bound hCut
    rw [Buffer.length_contents] at hBound
    rw [← Buffer.length_contents, Buffer.contents_retrieve, List.length_drop, Buffer.length_contents]
    omega

/-- A connection and a prefix of its input, cut as far as it goes. -/
structure Served (server : HttpServer) (conn : Serving) (p : Split UInt8 HttpRequest) : Prop where
  sent : conn.sent = p.frames.map server.answer
  thrown : conn.thrown.isSome = p.broken
  rest : p.broken = false → conn.buf.contents = p.rest

/-- **The loop** cuts the buffer into requests and answers one after the other. -/
theorem onMessage_split (server : HttpServer) {frames : List HttpRequest}
    (hSent : conn.sent = frames.map server.answer) (hThrown : conn.thrown = none) :
    Served server (server.onMessage conn)
      { requestCutter.split conn.buf.contents with
        frames := frames ++ (requestCutter.split conn.buf.contents).frames } := by
  rw [onMessage]
  -- along the requests in the buffer
  induction hs : conn.buf.contents using requestCutter.split_induct generalizing conn frames with
  | hMore s hCut =>
    subst hs
    rw [loop_done (messagePass_more server hCut), Cutter.split_more hCut]
    exact ⟨by simpa using hSent, by simp [hThrown], fun _ => rfl⟩
  | hBroken s hCut =>
    subst hs
    obtain ⟨e, hPass⟩ := messagePass_broken server hCut
    rw [loop_done hPass, Cutter.split_broken hCut]
    exact ⟨by simpa using hSent, rfl, fun hOpen => by cases hOpen⟩
  | hFrame s req n hCut ih =>
    subst hs
    rw [loop_again (messagePass_decreases server) (messagePass_frame server hCut),
      Cutter.split_frame hCut]
    have hSent' : conn.sent ++ [server.answer req] = (frames ++ [req]).map server.answer := by
      rw [hSent, List.map_append]
      rfl
    have hNext := @ih
      { conn with
        buf := conn.buf.retrieve n
        sent := conn.sent ++ [server.answer req] }
      (frames ++ [req]) hSent' hThrown (Buffer.contents_retrieve ..)
    simpa using hNext

end HttpServer

end ReactorNet
