/-
  CoroutineHttp.Ws.StaticFiles

  The names under which the `/static/*` handler opens files.

  `parse_request_line` looks for `..` in the decoded path; the name is put together
  later, of the segments that `match` captured.  A component of the name, or of the name
  cut short at a NUL byte as the system sees it, is a piece of that path, so what the
  check has not seen cannot be there (`Inside`).
-/

import CoroutineHttp.Library.Paths
import CoroutineHttp.Http.Accepted
import CoroutineHttp.Http.Routing
import CoroutineHttp.Ws.App

namespace CoroutineHttp.Ws

open CoroutineHttp.Library CoroutineHttp.Net CoroutineHttp.Http

/-! ## File names -/

/-- The name is that of a file under `static/`, also when it is cut short at a NUL
    byte. -/
structure Inside (name : Bytes) : Prop where
  under : ∃ rest, name = bytes "static/" ++ rest ∧ rest ≠ [] ∧ rest.head? ≠ some 47
  noParent : ∀ t, (t = name ∨ ∃ tail, name = t ++ 0 :: tail) → parentDir ∉ t.splitOn 47
  resolves : ∀ t, (t = name ∨ ∃ tail, name = t ++ 0 :: tail) →
    ∀ cwd, cwd ++ [bytes "static"] <+: resolve cwd t

theorem joinSegments_cons (s : Bytes) (ss : List Bytes) :
    ∃ rest, Route.joinSegments (s :: ss) = s ++ rest := by
  cases ss with
  | nil => exact ⟨[], by rw [Route.joinSegments_singleton, List.append_nil]⟩
  | cons s' ss => exact ⟨_, by rw [Route.joinSegments, List.intercalate_cons_cons,
      List.append_assoc]⟩

/-- The directory stands in front of a NUL byte. -/
theorem static_prefix {rest t : Bytes}
    (ht : t = bytes "static/" ++ rest ∨ ∃ tail, bytes "static/" ++ rest = t ++ 0 :: tail) :
    ∃ u, t = bytes "static/" ++ u := by
  rcases ht with rfl | ⟨tail, ht⟩
  · exact ⟨rest, rfl⟩
  · rcases List.append_eq_append_iff.mp ht with ⟨u, hu, -⟩ | ⟨v, hv, htail⟩
    · exact ⟨u, hu⟩
    · cases v with
      | nil => exact ⟨[], by rw [hv, List.append_nil, List.append_nil]⟩
      | cons b v =>
          have hzero : (0 : UInt8) ∈ bytes "static/" := by
            rw [hv, ← (List.cons.inj htail).1]
            exact List.mem_append_right _ List.mem_cons_self
          exact absurd hzero (by decide)

/-- Without a parent component a name that begins with `static/` leads there. -/
theorem resolve_static {u : Bytes} (h : parentDir ∉ (bytes "static/" ++ u).splitOn 47)
    (cwd : List Bytes) : cwd ++ [bytes "static"] <+: resolve cwd (bytes "static/" ++ u) := by
  have hname : bytes "static/" ++ u = bytes "static" ++ 47 :: u := by
    rw [show bytes "static/" = bytes "static" ++ [47] by decide, List.append_assoc]
    rfl
  have hsplit : (bytes "static/" ++ u).splitOn 47 = bytes "static" :: u.splitOn 47 := by
    rw [hname, List.splitOn_append_cons_self_of_not_mem (by decide)]
  have hhead : (bytes "static/" ++ u).head? ≠ some 47 := by
    rw [hname, show bytes "static" = 115 :: bytes "tatic" by decide, List.cons_append,
      List.head?_cons]
    decide
  have henter : enter cwd (bytes "static") = cwd ++ [bytes "static"] := by
    rw [enter, if_neg (by decide), if_neg (by decide)]
  rw [hsplit] at h
  rw [resolve, hsplit, if_neg hhead, List.foldl_cons, henter]
  exact prefix_foldl_enter (fun hm => h (List.mem_cons_of_mem _ hm)) _

/-- A name made of segments without `..` in them. -/
theorem inside_of_segments {ss : List Bytes} (hne : ss ≠ [])
    (hsegment : ∀ s ∈ ss, IsSegment 47 s) (hsafe : ∀ s ∈ ss, ¬ parentDir <:+: s) :
    Inside (bytes "static/" ++ Route.joinSegments ss) := by
  have hslash : bytes "/" = [47] := by decide
  have hstatic : bytes "static/" = bytes "static" ++ [47] := by decide
  have hdir : IsSegment 47 (bytes "static") := by decide
  obtain ⟨s, ss, rfl⟩ := List.exists_cons_of_ne_nil hne
  have hname : bytes "static/" ++ Route.joinSegments (s :: ss)
      = Route.joinSegments (bytes "static" :: s :: ss) := by
    rw [Route.joinSegments, Route.joinSegments, List.intercalate_cons_cons, hstatic, hslash]
  have hcomponents : (bytes "static/" ++ Route.joinSegments (s :: ss)).splitOn 47
      = bytes "static" :: s :: ss := by
    rw [hname]
    refine List.splitOn_intercalate 47 (fun c hc => ?_) (List.cons_ne_nil _ _)
    rcases List.mem_cons.mp hc with rfl | hc
    · exact hdir.2
    · exact (hsegment c hc).2
  -- a component of the name cut short begins one of the whole name
  have hnone : ∀ t tail, bytes "static/" ++ Route.joinSegments (s :: ss) = t ++ tail →
      parentDir ∉ t.splitOn 47 := by
    intro t tail ht hmem
    obtain ⟨c, hc, hpre⟩ := prefix_of_mem_splitOn hmem tail
    rw [← ht, hcomponents] at hc
    rcases List.mem_cons.mp hc with rfl | hc
    · exact absurd hpre (by decide)
    · exact hsafe c hc hpre.isInfix
  have hcut : ∀ t, (t = bytes "static/" ++ Route.joinSegments (s :: ss) ∨
      ∃ tail, bytes "static/" ++ Route.joinSegments (s :: ss) = t ++ 0 :: tail) →
      parentDir ∉ t.splitOn 47 := by
    rintro t (rfl | ⟨tail, ht⟩)
    · exact hnone _ [] (List.append_nil _).symm
    · exact hnone t _ ht
  obtain ⟨rest, hjoin⟩ := joinSegments_cons s ss
  obtain ⟨hs, hslashes⟩ := hsegment s List.mem_cons_self
  obtain ⟨b, s, rfl⟩ := List.exists_cons_of_ne_nil hs
  refine ⟨⟨Route.joinSegments ((b :: s) :: ss), rfl, ?_, ?_⟩, hcut, fun t ht cwd => ?_⟩
  · simp [hjoin]
  · rw [hjoin, List.cons_append, List.head?_cons]
    rintro ⟨⟩
    exact hslashes List.mem_cons_self
  · have hparent := hcut t ht
    obtain ⟨u, rfl⟩ := static_prefix ht
    exact resolve_static hparent cwd

namespace App

variable (app : App)

/-- The name that the handler of `/static/*` gives to `read_file`. -/
def fileName (req : HttpRequest) : Bytes := bytes "static/" ++ req.param (bytes "*") []

/-- `app.get("/static/*", ...)`. -/
def staticRoute : Route := ⟨bytes "GET", bytes "/static/*", app.static⟩

/-- The handler looks at the file of that name, and at no other. -/
theorem static_run_congr {files files' : Bytes → Bytes} (k : Nat) (req : HttpRequest)
    (res : HttpResponse) (w : Wire) (h : files (fileName req) = files' (fileName req)) :
    ({ app with files := files } : App).static.run k req res w
      = ({ app with files := files' } : App).static.run k req res w := by
  simp only [fileName] at h
  simp only [static, h]

/-- What the pattern `/static/*` captures. -/
theorem static_captures {path : Bytes} {params : StrMap}
    (h : app.staticRoute.match path = some params) :
    ∃ ss, segments 47 path = bytes "static" :: ss ∧ ss ≠ [] ∧
      params[bytes "*"]? = some (Route.joinSegments ss) := by
  have hpattern : Route.split (bytes "/static/*") = [bytes "static", Route.star] := by
    decide +kernel
  rw [Route.match, staticRoute, hpattern, Route.split_eq] at h
  cases hpath : segments 47 path with
  | nil =>
      rw [hpath] at h
      cases h
  | cons s ss =>
      rw [hpath, Route.matchSegments_literal (by decide) (by decide)] at h
      split at h
      next hs =>
        cases ss with
        | nil => cases h
        | cons s' ss =>
            rw [Route.matchSegments_star] at h
            cases h
            exact ⟨s' :: ss, by rw [hs], List.cons_ne_nil _ _, Std.TreeMap.getElem?_insert_self⟩
      next => cases h

/-- **Static files.** Of every byte stream on which `parse` succeeds, with a request whose
    first match is the route `/static/*`: the name its handler gives to `read_file` is
    that of a file under `static/`. -/
theorem static_inside (conn : Connection) (r : RecvScript) (req : HttpRequest)
    (hparse : (HttpParser.parse conn r .init).1 = some req) (before : List Route)
    (params : StrMap)
    (hroute : HttpServer.FirstMatch app.server.routes req before app.staticRoute params) :
    Inside (fileName { req with params := params }) ∧
      ∀ files', files' (fileName { req with params := params })
          = app.files (fileName { req with params := params }) →
        ∀ k res w, ({ app with files := files' } : App).static.run k
            { req with params := params } res w
          = app.static.run k { req with params := params } res w := by
  refine ⟨?_, fun files' h k res w => app.static_run_congr k _ res w h⟩
  obtain ⟨ss, hpath, hne, hstar⟩ := app.static_captures hroute.captures
  have hname : fileName { req with params := params }
      = bytes "static/" ++ Route.joinSegments ss := by
    rw [fileName, HttpRequest.param, hstar, Option.getD_some]
  -- a segment with `..` would have it from the path
  have hsafe : ¬ bytes ".." <:+: req.path :=
    (HttpParser.parseStream_wellFormed (Prod.ext
      ((HttpParser.parse_yields conn r .init).1.symm.trans hparse) rfl)).1.safe
  have hmem : ∀ s ∈ ss, s ∈ segments 47 req.path := fun s hs => by
    rw [hpath]
    exact List.mem_cons_of_mem _ hs
  rw [hname]
  refine inside_of_segments hne (fun s hs => isSegment_of_mem (hmem s hs)) fun s hs hdots => ?_
  exact hsafe (hdots.trans (infix_of_mem_splitOn (List.mem_filter.mp (hmem s hs)).1))

/-- An escaped slash, a repeated one and a NUL byte. -/
theorem static_inside_escaped :
    ∃ req params, (HttpParser.parse (.init 5)
        ⟨[.data 71 (bytes "ET /static//css%2Fa.css%00.html HTTP/1.1\r\n\r\n")], .eof⟩ .init).1
          = some req ∧
      fileName { req with params := params } = bytes "static/css/a.css\x00.html" ∧
      Inside (fileName { req with params := params }) := by
  let r : RecvScript :=
    ⟨[.data 71 (bytes "ET /static//css%2Fa.css%00.html HTTP/1.1\r\n\r\n")], .eof⟩
  obtain ⟨hparse, -⟩ := HttpParser.parse_yields (.init 5) r .init
  have hstream : (HttpParser.parseStream ((Connection.init 5).pending r) .init).1.map
      (fun req => (req.method, req.path))
        = some (bytes "GET", bytes "/static//css/a.css\x00.html") := by decide +kernel
  obtain ⟨req, hreq, hfields⟩ := Option.map_eq_some_iff.mp hstream
  obtain ⟨hmethod, hpath⟩ := Prod.mk.inj hfields
  have hindex : ¬ Route.Qualifies ⟨bytes "GET", bytes "/", index⟩ req := by
    rintro ⟨-, hmatch⟩
    rw [Route.match, hpath] at hmatch
    revert hmatch
    decide +kernel
  have hmatch : (quiet.staticRoute.match req.path).map (fun params => params[bytes "*"]?)
      = some (some (bytes "css/a.css\x00.html")) := by
    rw [Route.match, hpath]
    decide +kernel
  obtain ⟨params, hcaptures, hstar⟩ := Option.map_eq_some_iff.mp hmatch
  refine ⟨req, params, hparse.trans hreq, ?_, (static_inside quiet (.init 5) r req
    (hparse.trans hreq) [⟨bytes "GET", bytes "/", index⟩] params
    ⟨⟨_, rfl⟩, by simpa using hindex, .inr hmethod.symm, hcaptures⟩).1⟩
  rw [fileName, HttpRequest.param, hstar]
  decide +kernel

end App

end CoroutineHttp.Ws
