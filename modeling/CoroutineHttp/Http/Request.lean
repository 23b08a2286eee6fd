/-
  CoroutineHttp.Http.Request

  `class HttpRequest`: the parsed request and the questions handlers ask it.
  The `unordered_map`s are only ever searched, so ordered maps stand for them.
-/

import Std.Data.TreeMap
import Std.Data.TreeMap.Lemmas
import CoroutineHttp.Library.Ascii
import CoroutineHttp.Library.Search

namespace CoroutineHttp.Http

open CoroutineHttp.Library

/-- `std::map<std::string, std::string>`. -/
abbrev StrMap := Std.TreeMap Bytes Bytes

/-- The value that a list of entries, each replacing the ones before, gives to `key`. -/
def lastValue (entries : List (Bytes × Bytes)) (key : Bytes) : Option Bytes :=
  entries.reverse.lookup key

theorem lastValue_concat (entries : List (Bytes × Bytes)) (e : Bytes × Bytes) (key : Bytes) :
    lastValue (entries ++ [e]) key = if e.1 = key then some e.2 else lastValue entries key := by
  rw [lastValue, List.reverse_concat, List.lookup_cons, lastValue]
  by_cases he : e.1 = key
  · simp [he]
  · have hbeq : (key == e.1) = false := by simpa using Ne.symm he
    rw [hbeq, if_neg he]

theorem mem_of_lastValue {entries : List (Bytes × Bytes)} {key value : Bytes}
    (h : lastValue entries key = some value) : (key, value) ∈ entries := by
  induction entries using List.reverseRecOn with
  | nil => cases h
  | append_singleton entries e ih =>
      rw [lastValue_concat] at h
      split at h
      next he => simp [← he, ← Option.some.inj h]
      next => exact List.mem_append_left _ (ih h)

/-- `m[key] = value` for one entry after another. -/
theorem getElem?_foldl_insert (entries : List (Bytes × Bytes)) (m : StrMap) (key : Bytes) :
    (entries.foldl (fun m e => m.insert e.1 e.2) m)[key]?
      = (lastValue entries key).or m[key]? := by
  -- on the entries from the last one back
  induction entries using List.reverseRecOn with
  | nil => rfl
  | append_singleton entries e ih =>
      rw [List.foldl_concat, Std.TreeMap.getElem?_insert, lastValue_concat]
      by_cases he : e.1 = key
      · simp [he]
      · rw [if_neg he, if_neg (by rwa [Std.LawfulEqOrd.compare_eq_iff_eq]), ih]

/-- `class HttpRequest`. -/
structure HttpRequest where
  method : Bytes
  path : Bytes
  version : Bytes
  body : Bytes
  headers : StrMap
  query : StrMap
  params : StrMap

namespace HttpRequest

/-- `HttpRequest req;`. -/
def init : HttpRequest := ⟨[], [], [], [], ∅, ∅, ∅⟩

/-- `header(key, default_val)`: the keys were lower-cased by the parser. -/
def header (req : HttpRequest) (key : Bytes) (defaultVal : Bytes) : Bytes :=
  (req.headers[toLower key]?).getD defaultVal

/-- `query_param`. -/
def queryParam (req : HttpRequest) (key : Bytes) (defaultVal : Bytes) : Bytes :=
  (req.query[key]?).getD defaultVal

/-- `param`. -/
def param (req : HttpRequest) (key : Bytes) (defaultVal : Bytes) : Bytes :=
  (req.params[key]?).getD defaultVal

/-- `keep_alive`. -/
def keepAlive (req : HttpRequest) : Bool :=
  let connHdr := toLower (req.header (bytes "connection") [])
  -- any other version closes the connection unless told to keep it
  if req.version = bytes "HTTP/1.1" then connHdr != bytes "close"
  else connHdr == bytes "keep-alive"

/-- `content_length`: -1 without the header, and when `stoi` throws. -/
def contentLength (req : HttpRequest) : Int :=
  let cl := req.header (bytes "content-length") []
  -- `catch (...)`: no number, or one out of the range of `int`
  if cl = [] then -1 else (stoi cl).getD (-1)

end HttpRequest

end CoroutineHttp.Http
