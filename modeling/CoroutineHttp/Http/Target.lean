/-
  CoroutineHttp.Http.Target

  What a client makes of a path and of a query before it sends them: each byte as
  it is or as `%XX`, a blank of the query also as `+`.  `Encodes` leaves every choice
  open; the parser gives the same path and the same query for all of them, because
  no encoding of a byte contains a separator.
-/

import CoroutineHttp.Library.Segments
import CoroutineHttp.Http.RoundTrip

namespace CoroutineHttp.Http

open CoroutineHttp.Library

/-! ## Percent encodings -/

/-- The second string writes the bytes of the first: in full where `literal` allows
    it, as `%XX`, and a blank as `+` where that stands for one. -/
inductive Encodes (literal : UInt8 → Bool) (plus : Bool) : Bytes → Bytes → Prop where
  | nil : Encodes literal plus [] []
  | literal {b : UInt8} {s enc : Bytes} (hb : literal b = true) (h : Encodes literal plus s enc) :
      Encodes literal plus (b :: s) (b :: enc)
  | escape {hi lo x y : UInt8} {s enc : Bytes} (hhi : xdigit hi = some x)
      (hlo : xdigit lo = some y) (h : Encodes literal plus s enc) :
      Encodes literal plus ((16 * x + y) :: s) (37 :: hi :: lo :: enc)
  | plus {s enc : Bytes} (hplus : plus = true) (h : Encodes literal plus s enc) :
      Encodes literal plus (32 :: s) (43 :: enc)

namespace Encodes

variable {literal : UInt8 → Bool} {plus : Bool} {s enc : Bytes}

/-- **Decoding inverts every encoding** that escapes `%` and `+`. -/
theorem urlDecode_eq (h : Encodes literal plus s enc)
    (hliteral : ∀ b, literal b = true → b ≠ 37 ∧ b ≠ 43) : HttpParser.urlDecode enc = s := by
  induction h with
  | nil => rfl
  | literal hb h ih =>
      obtain ⟨h37, h43⟩ := hliteral _ hb
      rw [HttpParser.urlDecode.eq_def]
      simp only [if_neg h37, if_neg h43, ih]
  | escape hhi hlo h ih => simp [HttpParser.urlDecode, hhi, hlo, ih]
  | plus hplus h ih =>
      rw [HttpParser.urlDecode.eq_def]
      simp [ih]

/-- What holds of the literal bytes, of `%`, of the digits and of `+` holds of every
    byte that is sent. -/
theorem forall_mem {P : UInt8 → Prop} (h : Encodes literal plus s enc)
    (hliteral : ∀ b, literal b = true → P b) (hpercent : P 37)
    (hdigit : ∀ b x, xdigit b = some x → P b) (hplus : P 43) : ∀ b ∈ enc, P b := by
  induction h with
  | nil => exact fun b hb => absurd hb List.not_mem_nil
  | literal hb h ih => exact List.forall_mem_cons.mpr ⟨hliteral _ hb, ih⟩
  | escape hhi hlo h ih =>
      exact List.forall_mem_cons.mpr ⟨hpercent, List.forall_mem_cons.mpr ⟨hdigit _ _ hhi,
        List.forall_mem_cons.mpr ⟨hdigit _ _ hlo, ih⟩⟩⟩
  | plus _ h ih => exact List.forall_mem_cons.mpr ⟨hplus, ih⟩

end Encodes

/-! ## The parts of a target -/

/-- What is sent in full in a path. -/
def pathLiteral (b : UInt8) : Bool := !isspace b && b != 37 && b != 43 && b != 63

/-- What is sent in full in a value: the pairs end at `&`. -/
def valueLiteral (b : UInt8) : Bool := pathLiteral b && b != 38

/-- What is sent in full in a key: the key ends at `=`. -/
def keyLiteral (b : UInt8) : Bool := valueLiteral b && b != 61

theorem pathLiteral_iff {b : UInt8} :
    pathLiteral b = true ↔ isspace b = false ∧ b ≠ 37 ∧ b ≠ 43 ∧ b ≠ 63 := by
  simp [pathLiteral, and_assoc]

theorem valueLiteral_iff {b : UInt8} :
    valueLiteral b = true ↔ pathLiteral b = true ∧ b ≠ 38 := by
  simp [valueLiteral]

theorem keyLiteral_iff {b : UInt8} : keyLiteral b = true ↔ valueLiteral b = true ∧ b ≠ 61 := by
  simp [keyLiteral]

/-- No digit is white space or a separator. -/
theorem not_separator_of_xdigit {b x : UInt8} (h : xdigit b = some x) :
    isspace b = false ∧ b ≠ 63 ∧ b ≠ 38 ∧ b ≠ 61 := by
  have hbyte : (xdigit b).isSome = true → isspace b = false ∧ b ≠ 63 ∧ b ≠ 38 ∧ b ≠ 61 :=
    forall_byte (P := fun b => (xdigit b).isSome = true →
      isspace b = false ∧ b ≠ 63 ∧ b ≠ 38 ∧ b ≠ 61) (by decide +kernel) b
  exact hbyte (by simp [h])

/-- The encodings of a path, in which `+` is no blank. -/
abbrev PathEncodes : Bytes → Bytes → Prop := Encodes pathLiteral false

/-- `key=value`, each encoded. -/
def PairEncodes (pair : Bytes × Bytes) (enc : Bytes) : Prop :=
  ∃ key value, Encodes keyLiteral true pair.1 key ∧ Encodes valueLiteral true pair.2 value ∧
    enc = key ++ 61 :: value

/-- `encpath?k1=v1&...&kn=vn`. -/
def encTarget (encPath : Bytes) (encPairs : List Bytes) : Bytes :=
  encPath ++ 63 :: [38].intercalate encPairs

section Parts

variable {path encPath enc : Bytes} {pair : Bytes × Bytes}

theorem PathEncodes.urlDecode_eq (h : PathEncodes path encPath) :
    HttpParser.urlDecode encPath = path :=
  Encodes.urlDecode_eq h fun _ hb => ⟨(pathLiteral_iff.mp hb).2.1, (pathLiteral_iff.mp hb).2.2.1⟩

theorem PathEncodes.separate (h : PathEncodes path encPath) :
    ∀ b ∈ encPath, isspace b = false ∧ b ≠ 63 :=
  h.forall_mem (fun _ hb => ⟨(pathLiteral_iff.mp hb).1, (pathLiteral_iff.mp hb).2.2.2⟩)
    (by decide) (fun _ _ hx => ⟨(not_separator_of_xdigit hx).1, (not_separator_of_xdigit hx).2.1⟩)
    (by decide)

/-- A pair has no white space and no `&`, and is not empty. -/
theorem PairEncodes.separate (h : PairEncodes pair enc) :
    (∀ b ∈ enc, isspace b = false ∧ b ≠ 38) ∧ enc ≠ [] := by
  obtain ⟨key, value, hkey, hvalue, rfl⟩ := h
  have hliteral : ∀ b, valueLiteral b = true → isspace b = false ∧ b ≠ 38 := fun b hb => by
    obtain ⟨hpath, h38⟩ := valueLiteral_iff.mp hb
    exact ⟨(pathLiteral_iff.mp hpath).1, h38⟩
  have hdigit : ∀ b x, xdigit b = some x → isspace b = false ∧ b ≠ 38 := fun b x hx =>
    ⟨(not_separator_of_xdigit hx).1, (not_separator_of_xdigit hx).2.2.1⟩
  refine ⟨fun b hb => ?_, by simp⟩
  rcases List.mem_append.mp hb with hb | hb
  · exact hkey.forall_mem (fun b hb => hliteral b (keyLiteral_iff.mp hb).1) (by decide) hdigit
      (by decide) b hb
  · rcases List.mem_cons.mp hb with rfl | hb
    · decide
    · exact hvalue.forall_mem hliteral (by decide) hdigit (by decide) b hb

/-- One encoded pair enters the query as it was meant. -/
theorem PairEncodes.parsePair_eq (h : PairEncodes pair enc) (query : StrMap) :
    HttpParser.parsePair query enc = query.insert pair.1 pair.2 := by
  have hne := h.separate.2
  obtain ⟨key, value, hkey, hvalue, rfl⟩ := h
  have hplain : ∀ b, valueLiteral b = true → b ≠ 37 ∧ b ≠ 43 := fun b hb => by
    obtain ⟨-, h37, h43, -⟩ := pathLiteral_iff.mp (valueLiteral_iff.mp hb).1
    exact ⟨h37, h43⟩
  -- the `=` that is found is the one between them
  have h61 : (61 : UInt8) ∉ key := fun hm =>
    hkey.forall_mem (P := (· ≠ 61)) (fun b hb => (keyLiteral_iff.mp hb).2) (by decide)
      (fun b x hx => (not_separator_of_xdigit hx).2.2.2) (by decide) 61 hm rfl
  have hfind : find [61] (key ++ 61 :: value) = some key.length := by
    rw [find_skip h61, find_prefix (by simp)]
    simp
  have hdrop : (key ++ 61 :: value).drop (key.length + 1) = value := by simp
  simp only [HttpParser.parsePair, if_neg hne, hfind, List.take_left, hdrop,
    hkey.urlDecode_eq fun b hb => hplain b (keyLiteral_iff.mp hb).1, hvalue.urlDecode_eq hplain]

/-- Encoded pairs enter the query one after another. -/
theorem parseQueryString_eq {pairs : List (Bytes × Bytes)} {encPairs : List Bytes}
    (h : List.Forall₂ PairEncodes pairs encPairs) (query : StrMap) :
    HttpParser.parseQueryString ([38].intercalate encPairs) query
      = pairs.foldl (fun m e => m.insert e.1 e.2) query := by
  have hsegment : ∀ enc ∈ encPairs, IsSegment 38 enc := by
    intro enc henc
    obtain ⟨n, hn, rfl⟩ := List.mem_iff_getElem.mp henc
    have hpair := (List.forall₂_iff_get.mp h).2 n (h.length_eq ▸ hn) hn
    exact ⟨hpair.separate.2, fun hm => (hpair.separate.1 38 hm).2 rfl⟩
  -- an empty part, which the loop steps over, would change nothing
  have hskip : ∀ (parts : List Bytes) (m : StrMap),
      parts.foldl HttpParser.parsePair m
        = (parts.filter (· ≠ [])).foldl HttpParser.parsePair m := by
    intro parts m
    rw [List.foldl_filter]
    refine List.foldl_ext _ _ m fun m part _ => ?_
    by_cases hpart : part = [] <;> simp [HttpParser.parsePair, hpart]
  rw [HttpParser.parseQueryString, hskip, filter_getlines, segments_intercalate hsegment]
  clear hsegment
  induction h generalizing query with
  | nil => rfl
  | cons hpair h ih => rw [List.foldl_cons, List.foldl_cons, hpair.parsePair_eq, ih]

end Parts

/-! ## The request line -/

section RequestLine

variable {path encPath : Bytes} {pairs : List (Bytes × Bytes)} {encPairs : List Bytes}

theorem isToken_encTarget (hpath : PathEncodes path encPath)
    (hpairs : List.Forall₂ PairEncodes pairs encPairs) : IsToken (encTarget encPath encPairs) := by
  have hquery : ∀ b ∈ [38].intercalate encPairs, isspace b = false := by
    induction hpairs with
    | nil => simp
    | @cons pair enc pairs encPairs hpair h ih =>
        cases h with
        | nil =>
            rw [List.intercalate_singleton]
            exact fun b hb => (hpair.separate.1 b hb).1
        | cons hpair' h =>
            intro b hb
            rw [List.intercalate_cons_cons] at hb
            rcases List.mem_append.mp hb with hb | hb
            · rcases List.mem_append.mp hb with hb | hb
              · exact (hpair.separate.1 b hb).1
              · rw [List.mem_singleton.mp hb]
                decide
            · exact ih b hb
  refine ⟨by simp [encTarget], fun b hb => ?_⟩
  rcases List.mem_append.mp hb with hb | hb
  · exact (hpath.separate b hb).1
  · rcases List.mem_cons.mp hb with rfl | hb
    · decide
    · exact hquery b hb

/-- The target is cut at the `?` that was put there. -/
theorem find_encTarget (hpath : PathEncodes path encPath) (encPairs : List Bytes) :
    find [63] (encTarget encPath encPairs) = some encPath.length := by
  have h63 : (63 : UInt8) ∉ encPath := fun hm => (hpath.separate 63 hm).2 rfl
  rw [encTarget, find_skip h63, find_prefix (by simp)]
  simp

/-- **Decoding a request target inverts every encoding of it**: the path comes back
    as it was, and the query maps each key to the last value given for it. -/
theorem parseRequestLine_encoded {method version : Bytes} (hmethod : IsToken method)
    (hversion : IsToken version) (hsafe : ¬ bytes ".." <:+: path)
    (hpath : PathEncodes path encPath) (hpairs : List.Forall₂ PairEncodes pairs encPairs) :
    ∃ req, HttpParser.parseRequestLine
          (method ++ 32 :: encTarget encPath encPairs ++ 32 :: version) .init = some req ∧
      req.method = method.map toupper ∧ req.version = version ∧ req.path = path ∧
      ∀ key, req.query[key]? = lastValue pairs key := by
  have hfind := find_encTarget hpath encPairs
  have htargetPath : targetPath (encTarget encPath encPairs) = encPath := by
    simp only [targetPath, hfind]
    rw [encTarget, List.take_left]
  have htargetQuery : targetQuery (encTarget encPath encPairs) = [38].intercalate encPairs := by
    simp only [targetQuery, hfind]
    rw [encTarget, ← List.drop_drop, List.drop_left, List.drop_one, List.tail_cons]
  have hline := parseRequestLine_tokens hmethod (isToken_encTarget hpath hpairs) hversion
    (by rw [htargetPath, hpath.urlDecode_eq]; exact find_eq_none_of_not_infix hsafe) .init
  rw [htargetPath, htargetQuery, hpath.urlDecode_eq, parseQueryString_eq hpairs] at hline
  refine ⟨_, hline, rfl, rfl, rfl, fun key => ?_⟩
  rw [getElem?_foldl_insert]
  simp [HttpRequest.init]

/-- A blank sent as `%20` and as `+`, a separator sent as `%26`, and a key given twice. -/
theorem parseRequestLine_encoded_search :
    ∃ req, HttpParser.parseRequestLine (bytes "get /a%20b?q=a+b&q=%26 HTTP/1.1") .init = some req ∧
      req.method = bytes "GET" ∧ req.version = bytes "HTTP/1.1" ∧ req.path = bytes "/a b" ∧
      ∀ key, req.query[key]?
        = lastValue [(bytes "q", bytes "a b"), (bytes "q", bytes "&")] key := by
  have hpath : PathEncodes [47, 97, 32, 98] [47, 97, 37, 50, 48, 98] :=
    .literal (by decide) (.literal (by decide) (.escape (x := 2) (y := 0) rfl rfl
      (.literal (by decide) .nil)))
  have hkey : Encodes keyLiteral true [113] [113] := .literal (by decide) .nil
  have hblank : PairEncodes ([113], [97, 32, 98]) [113, 61, 97, 43, 98] :=
    ⟨[113], [97, 43, 98], hkey,
      .literal (by decide) (.plus rfl (.literal (by decide) .nil)), rfl⟩
  have hamp : PairEncodes ([113], [38]) [113, 61, 37, 50, 54] :=
    ⟨[113], [37, 50, 54], hkey, .escape (x := 2) (y := 6) rfl rfl .nil, rfl⟩
  have hline : bytes "get /a%20b?q=a+b&q=%26 HTTP/1.1"
      = bytes "get" ++ 32 :: encTarget [47, 97, 37, 50, 48, 98]
          [[113, 61, 97, 43, 98], [113, 61, 37, 50, 54]] ++ 32 :: bytes "HTTP/1.1" := by
    decide +kernel
  have hupper : bytes "GET" = (bytes "get").map toupper := by decide +kernel
  have hdecoded : bytes "/a b" = [47, 97, 32, 98] := by decide +kernel
  have hpairs : [(bytes "q", bytes "a b"), (bytes "q", bytes "&")]
      = [([113], [97, 32, 98]), ([113], [38])] := by decide +kernel
  have hmethod : IsToken (bytes "get") := by decide +kernel
  rw [hline, hupper, hdecoded, hpairs]
  exact parseRequestLine_encoded hmethod isToken_http11 (by decide) hpath
    (.cons hblank (.cons hamp .nil))

end RequestLine

end CoroutineHttp.Http
