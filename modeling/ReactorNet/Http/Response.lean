import ReactorNet.Http.Request
import ReactorNet.Lib.Decimal
import ReactorNet.Net.Buffer

/-!
# ReactorNet — the HTTP response

`HttpResponse` of `src/HttpResponse.cpp`. Every line but one goes through `char buf[256]`
and `std::snprintf`, which cuts it to 255 characters, its line end first. What a response
should be is stated beside it (`HttpResponse.text`).

* `contents_appendToBuffer` — what is appended: each line cut to 255 bytes, the empty line
  and the body.
* `appendToBuffer_text_iff` — the response is written without loss exactly if no line is
  longer than that.
-/

namespace ReactorNet

open Lib

/-- `HttpStatusCode`: the values its objects can have are those of nine bits, since the
largest enumerator is 500. -/
abbrev HttpStatusCode := Fin 512

def k200Ok : HttpStatusCode := 200
def k400BadRequest : HttpStatusCode := 400
def k404NotFound : HttpStatusCode := 404
def k500InternalServerError : HttpStatusCode := 500

structure HttpResponse where
  statusCode : HttpStatusCode := k200Ok
  statusMessage : Bytes := []
  headers : HeaderMap := ∅
  body : Bytes := []
  closeConnection : Bool := true
  /-- The size is a `size_t`. -/
  size_lt : body.length < 2 ^ 64 := by decide

namespace HttpResponse

/-- The constructor. -/
def new (close : Bool) : HttpResponse := { closeConnection := close }

def setStatusCode (resp : HttpResponse) (code : HttpStatusCode) : HttpResponse :=
  { resp with statusCode := code }

def addHeader (resp : HttpResponse) (key value : Bytes) : HttpResponse :=
  { resp with headers := resp.headers.insert key value }

def setContentType (resp : HttpResponse) (contentType : Bytes) : HttpResponse :=
  resp.addHeader (ascii "Content-Type") contentType

def setBody (resp : HttpResponse) (body : Bytes) (h : body.length < 2 ^ 64) : HttpResponse :=
  { resp with body := body, size_lt := h }

def statusMessageForCode (code : HttpStatusCode) : Bytes :=
  if code = k200Ok then ascii "OK"
  else if code = k400BadRequest then ascii "Bad Request"
  else if code = k404NotFound then ascii "Not Found"
  else if code = k500InternalServerError then ascii "Internal Server Error"
  else ascii "Unknown"

/-- The message of the status line. -/
def message (resp : HttpResponse) : Bytes :=
  if resp.statusMessage = [] then statusMessageForCode resp.statusCode else resp.statusMessage

/-! ## The lines -/

def statusLine (code : HttpStatusCode) (message : Bytes) : Bytes :=
  ascii "HTTP/1.1 " ++ (decimal code ++ ([0x20] ++ (message ++ crlf)))

def connectionClose : Bytes := ascii "Connection: close\r\n"

def contentLength (size : Nat) : Bytes := ascii "Content-Length: " ++ (decimal size ++ crlf)

def headerLine (key value : Bytes) : Bytes := key ++ (ascii ": " ++ (value ++ crlf))

/-- `sizeof(buf)` -/
def bufSize : Nat := 256

def appendToBuffer (resp : HttpResponse) (output : Buffer) : Buffer :=
  let status := output.append (snprintf bufSize (statusLine resp.statusCode (cStr resp.message)))
  let connection := if resp.closeConnection then status.append connectionClose else status
  let length := connection.append (snprintf bufSize (contentLength resp.body.length))
  let custom := resp.headers.toList.foldl
    (fun output header =>
      output.append (snprintf bufSize (headerLine (cStr header.1) (cStr header.2)))) length
  (custom.append crlf).append resp.body

/-! ## What a response is -/

/-- The lines of a response, in the order of the header map. -/
def lines (resp : HttpResponse) : List Bytes :=
  statusLine resp.statusCode resp.message ::
    ((if resp.closeConnection then [connectionClose] else []) ++
      contentLength resp.body.length :: resp.headers.toList.map fun p => headerLine p.1 p.2)

/-- The response: its lines, an empty one and the body. -/
def text (resp : HttpResponse) : Bytes := resp.lines.flatten ++ (crlf ++ resp.body)

/-- No name, value or message has a NUL. -/
structure NulFree (resp : HttpResponse) : Prop where
  statusMessage : 0 ∉ resp.statusMessage
  headers : ∀ p ∈ resp.headers.toList, 0 ∉ p.1 ∧ 0 ∉ p.2

/-- The status line and every header line fit the formatting buffer. -/
structure ShortLines (resp : HttpResponse) : Prop where
  status : 12 + (decimal resp.statusCode).length + resp.statusMessage.length ≤ 255
  headers : ∀ p ∈ resp.headers.toList, p.1.length + p.2.length + 4 ≤ 255

theorem length_statusLine (code : HttpStatusCode) (message : Bytes) :
    (statusLine code message).length = 12 + (decimal code).length + message.length := by
  have hFront : (ascii "HTTP/1.1 ").length = 9 := rfl
  have hEnd : crlf.length = 2 := rfl
  simp only [statusLine, List.length_append, hFront, hEnd, List.length_singleton]
  omega

theorem length_headerLine (key value : Bytes) :
    (headerLine key value).length = key.length + value.length + 4 := by
  have hColon : (ascii ": ").length = 2 := rfl
  have hEnd : crlf.length = 2 := rfl
  simp only [headerLine, List.length_append, hColon, hEnd]
  omega

theorem length_contentLength {size : Nat} (h : size < 2 ^ 64) : (contentLength size).length ≤ 255 := by
  have hFront : (ascii "Content-Length: ").length = 16 := rfl
  have hEnd : crlf.length = 2 := rfl
  have hDigits := length_decimal_le (show 0 < 20 by decide) (show size < 10 ^ 20 by omega)
  simp only [contentLength, List.length_append, hFront, hEnd]
  omega

theorem statusMessageForCode_spec (code : HttpStatusCode) :
    0 ∉ statusMessageForCode code ∧ (statusMessageForCode code).length ≤ 21 := by
  rw [statusMessageForCode]
  split_ifs <;> decide

theorem length_decimal_code (code : HttpStatusCode) : (decimal code).length ≤ 3 :=
  length_decimal_le (by decide) (Nat.lt_trans code.isLt (by decide))

/-- The default messages are short, so the condition is one on the message that was set. -/
theorem length_statusLine_le_iff (resp : HttpResponse) :
    (statusLine resp.statusCode resp.message).length ≤ 255 ↔
      12 + (decimal resp.statusCode).length + resp.statusMessage.length ≤ 255 := by
  rw [length_statusLine, message]
  split_ifs with h
  · have hDefault := (statusMessageForCode_spec resp.statusCode).2
    have hDigits := length_decimal_code resp.statusCode
    rw [h, List.length_nil]
    omega
  · rfl

theorem shortLines_iff (resp : HttpResponse) :
    (∀ line ∈ resp.lines, line.length ≤ 255) ↔ resp.ShortLines := by
  have hConnection : ∀ line ∈ (if resp.closeConnection then [connectionClose] else []),
      line.length ≤ 255 := by
    intro line hLine
    split_ifs at hLine
    · rw [List.mem_singleton.mp hLine]
      decide
    · cases hLine
  have hHeaders : (∀ line ∈ resp.headers.toList.map (fun p => headerLine p.1 p.2),
      line.length ≤ 255) ↔ ∀ p ∈ resp.headers.toList, p.1.length + p.2.length + 4 ≤ 255 := by
    simp only [List.forall_mem_map, length_headerLine]
  rw [lines, List.forall_mem_cons, List.forall_mem_append, List.forall_mem_cons, hHeaders,
    length_statusLine_le_iff]
  constructor
  · rintro ⟨hStatus, -, -, hEach⟩
    exact ⟨hStatus, hEach⟩
  · rintro ⟨hStatus, hEach⟩
    exact ⟨hStatus, hConnection, length_contentLength resp.size_lt, hEach⟩

/-! ## What is appended -/

theorem zero_notMem_decimal (n : Nat) : 0 ∉ decimal n := notMem_decimal (by decide)

theorem zero_notMem_statusLine (code : HttpStatusCode) {message : Bytes} (h : 0 ∉ message) :
    0 ∉ statusLine code message := by
  have hFront : 0 ∉ ascii "HTTP/1.1 " := by decide
  have hEnd : 0 ∉ [0x20] ++ (message ++ crlf) := by
    simp [h, crlf]
  simp only [statusLine, List.mem_append, not_or] at hEnd ⊢
  exact ⟨hFront, zero_notMem_decimal code, hEnd⟩

theorem zero_notMem_headerLine {key value : Bytes} (hKey : 0 ∉ key) (hValue : 0 ∉ value) :
    0 ∉ headerLine key value := by
  have hColon : 0 ∉ ascii ": " := by decide
  have hEnd : 0 ∉ crlf := by decide
  simp only [headerLine, List.mem_append, not_or]
  exact ⟨hKey, hColon, hValue, hEnd⟩

theorem zero_notMem_contentLength (size : Nat) : 0 ∉ contentLength size := by
  have hFront : 0 ∉ ascii "Content-Length: " := by decide
  have hEnd : 0 ∉ crlf := by decide
  simp only [contentLength, List.mem_append, not_or]
  exact ⟨hFront, zero_notMem_decimal size, hEnd⟩

theorem NulFree.message {resp : HttpResponse} (h : resp.NulFree) : 0 ∉ resp.message := by
  rw [HttpResponse.message]
  split_ifs
  · exact (statusMessageForCode_spec resp.statusCode).1
  · exact h.statusMessage

/-- The loop over the headers appends one cut line after the other. -/
theorem contents_foldl_append (headers : List (Bytes × Bytes))
    (h : ∀ p ∈ headers, 0 ∉ p.1 ∧ 0 ∉ p.2) (output : Buffer) :
    (headers.foldl (fun output header =>
        output.append (snprintf bufSize (headerLine (cStr header.1) (cStr header.2)))) output).contents =
      output.contents ++ (headers.map fun p => headerLine p.1 p.2).flatMap (List.take 255) := by
  induction headers generalizing output with
  | nil => simp
  | cons header headers ih =>
    obtain ⟨⟨hKey, hValue⟩, hRest⟩ := List.forall_mem_cons.mp h
    rw [List.foldl_cons, ih hRest, Buffer.contents_append, cStr_eq_self hKey, cStr_eq_self hValue,
      snprintf_eq_take (zero_notMem_headerLine hKey hValue), List.map_cons, List.flatMap_cons,
      List.append_assoc]
    rfl

/-- **What is appended**: every line cut to 255 bytes. -/
theorem contents_appendToBuffer {resp : HttpResponse} (h : resp.NulFree) (output : Buffer) :
    (resp.appendToBuffer output).contents =
      output.contents ++ (resp.lines.flatMap (List.take 255) ++ (crlf ++ resp.body)) := by
  have hMessage := h.message
  have hStatus := snprintf_eq_take (zero_notMem_statusLine resp.statusCode hMessage) bufSize
  have hLength := snprintf_eq_take (zero_notMem_contentLength resp.body.length) bufSize
  simp only [appendToBuffer, Buffer.contents_append, contents_foldl_append _ h.headers,
    cStr_eq_self hMessage, hStatus, hLength, lines, List.flatMap_cons, List.flatMap_append]
  -- the line that is appended as it is would not be cut either
  cases resp.closeConnection with
  | false => simp [bufSize]
  | true =>
    have hClose : connectionClose.take 255 = connectionClose := rfl
    simp [bufSize, hClose]

/-- **When a response is written without loss.** The lines are formatted in `buf[256]`, and one of
more than 255 bytes is cut. -/
theorem appendToBuffer_text_iff {resp : HttpResponse} (h : resp.NulFree) (output : Buffer) :
    (resp.appendToBuffer output).contents = output.contents ++ resp.text ↔ resp.ShortLines := by
  rw [contents_appendToBuffer h, text, List.append_cancel_left_eq, List.append_cancel_right_eq,
    flatMap_take_eq_flatten, shortLines_iff]

/-- A page as the server sends it. -/
def page : HttpResponse :=
  ((new false).setContentType (ascii "text/html")).setBody (ascii "<p>") (by decide)

theorem appendToBuffer_page : page.NulFree ∧
    ((page.appendToBuffer (Buffer.new 0)).contents = (Buffer.new 0).contents ++ page.text ↔
      page.ShortLines) := by
  have h : page.NulFree := ⟨by decide, by decide⟩
  exact ⟨h, appendToBuffer_text_iff h (Buffer.new 0)⟩

def longValue : Bytes := List.replicate 300 0x61

/-- A response with a header value of three hundred characters. -/
def longHeader : HttpResponse := (new true).addHeader (ascii "X") longValue

/-- The value is cut and its line end is lost. -/
theorem appendToBuffer_longHeader : longHeader.NulFree ∧
    (longHeader.appendToBuffer (Buffer.new 0)).contents ≠
      (Buffer.new 0).contents ++ longHeader.text := by
  have hHeaders : longHeader.headers.toList = [(ascii "X", longValue)] := rfl
  have hLength : longValue.length = 300 := List.length_replicate
  have hNul : longHeader.NulFree := by
    refine ⟨by decide, ?_⟩
    rw [hHeaders, List.forall_mem_singleton]
    refine ⟨by decide, fun hMem => ?_⟩
    exact absurd (List.eq_of_mem_replicate hMem) (by decide)
  refine ⟨hNul, fun h => ?_⟩
  rw [contents_appendToBuffer hNul, text, List.append_cancel_left_eq, List.append_cancel_right_eq,
    flatMap_take_eq_flatten, shortLines_iff] at h
  have hMem : (ascii "X", longValue) ∈ longHeader.headers.toList := by
    rw [hHeaders]
    exact List.mem_singleton_self _
  have hShort := h.headers (ascii "X", longValue) hMem
  dsimp only at hShort
  omega

end HttpResponse

end ReactorNet
