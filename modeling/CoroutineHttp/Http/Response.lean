/-
  CoroutineHttp.Http.Response

  `class HttpResponse`.  Its terminal methods end in `flush`, which composes the
  message; handing the message to `Connection::write` is left to the caller.
-/

import CoroutineHttp.Http.Request

namespace CoroutineHttp.Http

open CoroutineHttp.Library

/-- `class HttpResponse`. -/
structure HttpResponse where
  statusCode : Int
  headers : StrMap

/-- An `int` written to a stream. -/
def intDec : Int → Bytes
  | .ofNat n => toDec n
  | .negSucc n => 45 :: toDec (n + 1)

namespace HttpResponse

/-- The constructor. -/
def init : HttpResponse := ⟨200, ∅⟩

/-- `status_text`. -/
def statusText (code : Int) : Bytes :=
  match code with
  | 200 => bytes "OK"
  | 201 => bytes "Created"
  | 204 => bytes "No Content"
  | 301 => bytes "Moved Permanently"
  | 302 => bytes "Found"
  | 304 => bytes "Not Modified"
  | 400 => bytes "Bad Request"
  | 401 => bytes "Unauthorized"
  | 403 => bytes "Forbidden"
  | 404 => bytes "Not Found"
  | 405 => bytes "Method Not Allowed"
  | 500 => bytes "Internal Server Error"
  | 502 => bytes "Bad Gateway"
  | 503 => bytes "Service Unavailable"
  | _ => bytes "Unknown"

/-- `status(code)`. -/
def status (res : HttpResponse) (code : Int) : HttpResponse := { res with statusCode := code }

/-- `header(key, value)`. -/
def header (res : HttpResponse) (key value : Bytes) : HttpResponse :=
  { res with headers := res.headers.insert key value }

/-- The key of the internal body entry: a hexadecimal escape takes all the digits
    that follow it, so the literal `"\x01body"` is ESC and `ody`. -/
def bodyKey : Bytes := bytes "\x1body"

/-- `set_body`. -/
def setBody (res : HttpResponse) (contentType body : Bytes) : HttpResponse :=
  -- the body itself travels as one more header, which `flush` takes out again
  { res with headers :=
      ((res.headers.insert (bytes "Content-Type") contentType).insert (bytes "Content-Length")
        (toDec body.length)).insert bodyKey body }

/-- `headers_[key] = value` if there is no such key. -/
def setDefault (headers : StrMap) (key value : Bytes) : StrMap :=
  if (headers[key]?).isSome then headers else headers.insert key value

/-- `flush`: the object it leaves, whose headers are those of the message. -/
def flushed (res : HttpResponse) : HttpResponse :=
  { res with headers :=
      setDefault (setDefault (res.headers.erase bodyKey) (bytes "Server")
        (bytes "coroutine-http/1.0")) (bytes "Connection") (bytes "keep-alive") }

/-- `flush`: the message it writes. -/
def message (res : HttpResponse) : Bytes :=
  bytes "HTTP/1.1 " ++ intDec res.statusCode ++ bytes " " ++ statusText res.statusCode ++
    bytes "\r\n" ++
    -- `std::map` iterates in the order of the keys
    (res.flushed.headers.toList.flatMap fun h => h.1 ++ bytes ": " ++ h.2 ++ bytes "\r\n") ++
    bytes "\r\n" ++ (res.headers[bodyKey]?).getD []

theorem message_ne_nil (res : HttpResponse) : res.message ≠ [] := by
  simp [message, bytes]

/-- One member function call, by a handler. -/
inductive ResCall where
  | status (code : Int)
  | header (key value : Bytes)
  | text (body : Bytes)
  | json (body : Bytes)
  | html (body : Bytes)
  | send
deriving DecidableEq, Repr

/-- The object on which a terminal method calls `flush`; the other methods do not
    write. -/
def toFlush (res : HttpResponse) : ResCall → Option HttpResponse
  | .status _ | .header _ _ => none
  | .text body => some (res.setBody (bytes "text/plain; charset=utf-8") body)
  | .json body => some (res.setBody (bytes "application/json") body)
  | .html body => some (res.setBody (bytes "text/html; charset=utf-8") body)
  | .send => some res

/-- What a call leaves of the object. -/
def call (res : HttpResponse) (c : ResCall) : HttpResponse :=
  match res.toFlush c with
  | some r => r.flushed
  | none =>
      match c with
      | .status code => res.status code
      | .header key value => res.header key value
      | _ => res

/-- The call writes a message. -/
def ResCall.writes : ResCall → Bool
  | .status _ | .header _ _ => false
  | _ => true

/-- The call sets the `Connection` header, in some spelling. -/
def ResCall.setsConnection : ResCall → Bool
  | .header key _ => toLower key == bytes "connection"
  | _ => false

theorem toFlush_isSome (res : HttpResponse) (c : ResCall) : (res.toFlush c).isSome = c.writes := by
  cases c <;> rfl

/-! ## The `Connection` header -/

/-- The message says that the connection will be closed. -/
def SaysClose (res : HttpResponse) : Prop :=
  res.headers[bytes "Connection"]? = some (bytes "close")

instance (res : HttpResponse) : Decidable res.SaysClose :=
  inferInstanceAs (Decidable (_ = _))

/-- Nobody has set `Connection`, or only `flush` has. -/
def DefaultConnection (res : HttpResponse) : Prop :=
  res.headers[bytes "Connection"]? = none ∨
    res.headers[bytes "Connection"]? = some (bytes "keep-alive")

theorem getElem?_insert_of_ne {m : StrMap} {k a v : Bytes} (h : k ≠ a) :
    (m.insert k v)[a]? = m[a]? := by
  rw [Std.TreeMap.getElem?_insert, if_neg]
  rwa [Std.LawfulEqOrd.compare_eq_iff_eq]

theorem getElem?_setDefault {m : StrMap} (k v a : Bytes) :
    (setDefault m k v)[a]? = if a = k then some ((m[a]?).getD v) else m[a]? := by
  unfold setDefault
  by_cases ha : a = k
  · subst ha
    cases hm : m[a]? <;> simp [hm]
  · rw [if_neg ha]
    split
    · rfl
    · exact getElem?_insert_of_ne (Ne.symm ha)

theorem connection_setBody (res : HttpResponse) (contentType body : Bytes) :
    (res.setBody contentType body).headers[bytes "Connection"]?
      = res.headers[bytes "Connection"]? := by
  unfold setBody
  rw [getElem?_insert_of_ne (by decide), getElem?_insert_of_ne (by decide),
    getElem?_insert_of_ne (by decide)]

/-- `flush` says keep-alive unless told otherwise. -/
theorem connection_flushed (res : HttpResponse) :
    res.flushed.headers[bytes "Connection"]?
      = some ((res.headers[bytes "Connection"]?).getD (bytes "keep-alive")) := by
  have hne : bytes "Connection" ≠ bytes "Server" := by decide
  have hbody : compare bodyKey (bytes "Connection") ≠ .eq := by decide
  simp only [flushed, getElem?_setDefault, if_pos, if_neg hne, Std.TreeMap.getElem?_erase,
    if_neg hbody]

/-- Calls that do not set `Connection` leave it to `flush`. -/
theorem DefaultConnection.call {res : HttpResponse} (h : res.DefaultConnection) {c : ResCall}
    (hc : c.setsConnection = false) : (res.call c).DefaultConnection := by
  have hflush : ∀ r : HttpResponse, r.DefaultConnection → r.flushed.DefaultConnection := by
    intro r hr
    right
    rw [connection_flushed]
    rcases hr with hr | hr <;> simp [hr]
  have hset : ∀ ty body, (res.setBody ty body).DefaultConnection := by
    intro ty body
    unfold DefaultConnection
    rw [connection_setBody]
    exact h
  cases c with
  | status code => exact h
  | header key value =>
      have hkey : key ≠ bytes "Connection" := by
        rintro rfl
        have hlow : toLower (bytes "Connection") = bytes "connection" := by decide
        simp [ResCall.setsConnection, hlow] at hc
      unfold DefaultConnection at h ⊢
      rwa [show (res.call (.header key value)).headers = res.headers.insert key value from rfl,
        getElem?_insert_of_ne hkey]
  | text body => exact hflush _ (hset _ body)
  | json body => exact hflush _ (hset _ body)
  | html body => exact hflush _ (hset _ body)
  | send => exact hflush _ h

/-- A message whose `Connection` was left to `flush` does not say close. -/
theorem DefaultConnection.not_saysClose {res r : HttpResponse} (h : res.DefaultConnection)
    {c : ResCall} (hr : res.toFlush c = some r) : ¬ r.flushed.SaysClose := by
  have hconn : r.headers[bytes "Connection"]? = res.headers[bytes "Connection"]? := by
    cases c <;> cases hr
    · exact connection_setBody _ _ _
    · exact connection_setBody _ _ _
    · exact connection_setBody _ _ _
    · rfl
  have hne : bytes "keep-alive" ≠ bytes "close" := by decide
  unfold SaysClose
  rw [connection_flushed, hconn]
  rcases h with h | h <;> simp [h, hne]

end HttpResponse

end CoroutineHttp.Http
